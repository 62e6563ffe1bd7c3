import Mathlib.Algebra.Order.Field.Rat
import Mathlib.Algebra.Order.Floor.Ring
import Mathlib.Data.Rat.Floor
import Mathlib.Tactic.FieldSimp
import Mathlib.Tactic.Linarith
import ReadersWriters.Text.Printf
set_option autoImplicit false

namespace Text

/-! Numbers with a fixed number of decimals. -/

/-- The nearest integer, and of two the even one. -/
def nearest (x : ℚ) : ℤ :=
  if Int.fract x = 1/2 then 2*((⌊x⌋+1)/2) else round x

/-- `%.kf`, which rounds the magnitude and keeps the sign. -/
def fixed (k : ℕ) (x : ℚ) : List Char :=
  let n := (nearest (|x| *10^k)).natAbs
  let cs := Nat.toDigits 10 (n/10^k) ++ '.' :: padded k (n%10^k)
  if x < 0 then '-' :: cs else cs

/-- The value that is printed. -/
def roundTo (k : ℕ) (x : ℚ) : ℚ :=
  if x < 0 then -(nearest (|x| *10^k)/10^k) else nearest (|x| *10^k)/10^k

def readMagnitude (cs : List Char) : Option ℚ := do
  let (whole,decimals) ← cut '.' cs
  let m ← readNat whole
  let n ← readNat decimals
  pure (m+n/10^decimals.length)

def readFixed : List Char → Option ℚ
  | '-' :: cs => (readMagnitude cs).map fun x => -x
  | cs => readMagnitude cs

theorem abs_nearest_sub_le (x : ℚ) : |nearest x-x| ≤ 1/2 := by
  unfold nearest
  split <;> rename_i hx
  · have hfloor : x = ⌊x⌋+1/2 := by
      rw [← hx]
      exact (Int.floor_add_fract x).symm
    have hcase : 2*((⌊x⌋+1)/2) = ⌊x⌋ ∨ 2*((⌊x⌋+1)/2) = ⌊x⌋+1 := by omega
    rw [abs_le]
    rcases hcase with he | he <;> rw [he] <;> push_cast <;> constructor <;> linarith
  · rw [abs_sub_comm]
    exact abs_sub_round x

theorem nearest_nonneg {x : ℚ} (h : 0 ≤ x) : 0 ≤ nearest x := by
  have hk : 0 ≤ ⌊x⌋ := Int.floor_nonneg.mpr h
  unfold nearest
  split
  · omega
  · rw [round_eq]
    exact Int.floor_nonneg.mpr (by linarith)

theorem roundTo_mul (k : ℕ) (x : ℚ) : roundTo k x*10^k =
    if x < 0 then -(nearest (|x| *10^k) : ℚ) else nearest (|x| *10^k) := by
  have hp : (10 : ℚ)^k ≠ 0 := by positivity
  unfold roundTo
  split <;> field_simp

/-- What is printed is off by half a unit of the last decimal at most. -/
theorem abs_roundTo_sub_le (k : ℕ) (x : ℚ) : |roundTo k x-x| ≤ 1/2/10^k := by
  have hp : (0 : ℚ) < 10^k := by positivity
  have hscale : |roundTo k x-x| *10^k = |roundTo k x*10^k-x*10^k| := by
    rw [← sub_mul,abs_mul,abs_of_pos hp]
  have hr := abs_nearest_sub_le (|x| *10^k)
  rw [le_div_iff₀ hp,hscale,roundTo_mul]
  split <;> rename_i hx
  · rw [abs_of_neg hx] at hr ⊢
    have hneg : -(nearest (-x*10^k) : ℚ)-x*10^k = -(nearest (-x*10^k)- -x*10^k) := by ring
    rwa [hneg,abs_neg]
  · rwa [abs_of_nonneg (not_lt.mp hx)] at hr ⊢

theorem isDigit_of_mem_toDigits {c : Char} {n : ℕ} (h : c ∈ Nat.toDigits 10 n) :
    c.isDigit = true := Nat.isDigit_of_mem_toDigits (by decide) (by decide) h

theorem notMem_fixed {c : Char} (h₁ : c ≠ '-') (h₂ : c ≠ '.') (h₃ : c.isDigit = false) (k : ℕ)
    (x : ℚ) : c ∉ fixed k x := by
  have hcs : ∀ n, c ∉ Nat.toDigits 10 (n/10^k) ++ '.' :: padded k (n%10^k) := by
    intro n hm
    rcases List.mem_append.mp hm with hm | hm
    · rw [isDigit_of_mem_toDigits hm] at h₃
      cases h₃
    · rcases List.mem_cons.mp hm with hm | hm
      · exact h₂ hm
      · rw [isDigit_of_mem_padded hm] at h₃
        cases h₃
  simp only [fixed]
  split
  · exact fun hm => (List.mem_cons.mp hm).elim h₁ (hcs _)
  · exact hcs _

theorem readMagnitude_eq {k : ℕ} (hk : 0 < k) (n : ℕ) :
    readMagnitude (Nat.toDigits 10 (n/10^k) ++ '.' :: padded k (n%10^k)) = some (n/10^k : ℚ) := by
  have hdot : '.' ∉ Nat.toDigits 10 (n/10^k) := fun hm =>
    absurd (isDigit_of_mem_toDigits hm) (by decide)
  have hwhole : readNat (Nat.toDigits 10 (n/10^k)) = some (n/10^k) := padded_zero ▸ readNat_padded
  have hlen : (padded k (n%10^k)).length = k := length_padded hk (Nat.mod_lt _ (by positivity))
  have hsplit : ((n/10^k : ℕ) : ℚ)*10^k+(n%10^k : ℕ) = n := by
    exact_mod_cast Nat.div_add_mod' n (10^k)
  have hp : (10 : ℚ)^k ≠ 0 := by positivity
  rw [readMagnitude,cut_append hdot]
  simp only [Option.bind_eq_bind,Option.bind_some,hwhole,readNat_padded,hlen]
  refine congrArg some ?_
  rw [← hsplit]
  field_simp

/-- What is printed reads back as its value. -/
theorem readFixed_fixed {k : ℕ} (hk : 0 < k) (x : ℚ) :
    readFixed (fixed k x) = some (roundTo k x) := by
  have hn := nearest_nonneg (x := |x| *10^k) (by positivity)
  have hread := readMagnitude_eq hk (nearest (|x| *10^k)).natAbs
  have hcast : (((nearest (|x| *10^k)).natAbs : ℕ) : ℚ) = nearest (|x| *10^k) := by
    rw [Nat.cast_natAbs,abs_of_nonneg hn]
  rw [hcast] at hread
  simp only [fixed,roundTo]
  generalize (nearest (|x| *10^k)).natAbs = n at hread ⊢
  split
  · rw [readFixed,hread]
    rfl
  · have hunsigned : readFixed (Nat.toDigits 10 (n/10^k) ++ '.' :: padded k (n%10^k)) =
        readMagnitude (Nat.toDigits 10 (n/10^k) ++ '.' :: padded k (n%10^k)) := by
      unfold readFixed
      split
      · rename_i cs he
        cases hd : Nat.toDigits 10 (n/10^k) with
        | nil => exact absurd hd Nat.toDigits_ne_nil
        | cons d ds =>
          rw [hd] at he
          cases he
          exact absurd (isDigit_of_mem_toDigits (hd ▸ List.mem_cons_self)) (by decide)
      · rfl
    rw [hunsigned,hread]

end Text
