import Mathlib.Algebra.BigOperators.Ring.List
import Mathlib.Algebra.Order.Field.Basic
import Mathlib.Tactic.FieldSimp
import Mathlib.Tactic.Linarith
import Mathlib.Tactic.Positivity
import Mathlib.Tactic.Ring
set_option autoImplicit false

namespace Statistics

section
variable {K : Type} [Field K]

/-- The sum of the squares. -/
def sumSq (xs : List K) : K := (xs.map fun x => x^2).sum

@[simp] theorem sumSq_nil : sumSq ([] : List K) = 0 := rfl

@[simp] theorem sumSq_cons (x : K) (xs : List K) : sumSq (x :: xs) = x^2+sumSq xs := by
  simp [sumSq]

theorem sum_map_mul (k : K) (xs : List K) : (xs.map fun x => k*x).sum = k*xs.sum := by
  induction xs with
  | nil => simp
  | cons x xs ih =>
    simp only [List.map_cons,List.sum_cons,ih]
    ring

theorem sumSq_map_mul (k : K) (xs : List K) : sumSq (xs.map fun x => k*x) = k^2*sumSq xs := by
  induction xs with
  | nil => simp
  | cons x xs ih =>
    simp only [List.map_cons,sumSq_cons,ih]
    ring

/-- The squares of the distances to `b`, with the numbers scaled by `a`. -/
theorem sumSq_map_sub (a b : K) (xs : List K) :
    sumSq (xs.map fun x => a*x-b) = a^2*sumSq xs-2*a*b*xs.sum+xs.length*b^2 := by
  induction xs with
  | nil => simp
  | cons x xs ih =>
    simp only [List.map_cons,sumSq_cons,List.sum_cons,List.length_cons,ih]
    push_cast
    ring

/-- The gap in the Cauchy-Schwarz inequality, as a sum of squares. -/
theorem sumSq_deviations (xs : List K) :
    sumSq (xs.map fun x => xs.length*x-xs.sum) =
      xs.length*(xs.length*sumSq xs-xs.sum^2) := by
  rw [sumSq_map_sub]
  ring

end

section
variable {K : Type} [Field K] [LinearOrder K] {xs : List K}

/-- Jain's fairness index. Numbers that are all 0 are equal. -/
def jainIndex (xs : List K) : K :=
  if 0 < sumSq xs then xs.sum^2/(xs.length*sumSq xs) else 1

theorem jainIndex_perm {ys : List K} (h : xs.Perm ys) : jainIndex xs = jainIndex ys := by
  have hsq : sumSq xs = sumSq ys := (h.map fun x => x^2).sum_eq
  rw [jainIndex,jainIndex,hsq,h.sum_eq,h.length_eq]

variable [IsStrictOrderedRing K]

theorem sumSq_nonneg (xs : List K) : 0 ≤ sumSq xs := by
  induction xs with
  | nil => simp
  | cons x xs ih =>
    rw [sumSq_cons]
    positivity

theorem sumSq_eq_zero : sumSq xs = 0 ↔ ∀ x ∈ xs, x=0 := by
  induction xs with
  | nil => simp
  | cons x xs ih =>
    rw [sumSq_cons,List.forall_mem_cons,← ih,
      add_eq_zero_iff_of_nonneg (sq_nonneg x) (sumSq_nonneg xs),sq_eq_zero_iff]

theorem sq_sum_le (h : xs ≠ []) : xs.sum^2 ≤ xs.length*sumSq xs := by
  have hn : (0 : K) < xs.length := Nat.cast_pos.mpr (List.length_pos_of_ne_nil h)
  have hd := sumSq_nonneg (xs.map fun x => xs.length*x-xs.sum)
  rw [sumSq_deviations] at hd
  exact sub_nonneg.mp (nonneg_of_mul_nonneg_right hd hn)

/-- Cauchy-Schwarz is an equality exactly for equal numbers. -/
theorem sq_sum_eq_iff (h : xs ≠ []) :
    xs.sum^2 = xs.length*sumSq xs ↔ ∀ x ∈ xs, ∀ y ∈ xs, x=y := by
  have hn : (0 : K) < xs.length := Nat.cast_pos.mpr (List.length_pos_of_ne_nil h)
  constructor
  · intro heq x hx y hy
    have hz : sumSq (xs.map fun x => xs.length*x-xs.sum) = 0 := by
      rw [sumSq_deviations,heq,sub_self,mul_zero]
    have hall : ∀ z ∈ xs, xs.length*z = xs.sum := fun z hz' =>
      sub_eq_zero.mp (sumSq_eq_zero.mp hz _ (List.mem_map_of_mem hz'))
    exact mul_left_cancel₀ hn.ne' ((hall x hx).trans (hall y hy).symm)
  · intro heq
    obtain ⟨x,hx⟩ := List.exists_mem_of_ne_nil xs h
    obtain ⟨n,rfl⟩ : ∃ n, xs = List.replicate n x :=
      ⟨_,List.eq_replicate_of_mem fun y hy => heq y hy x hx⟩
    simp only [sumSq,List.map_replicate,List.sum_replicate,List.length_replicate,nsmul_eq_mul]
    ring

theorem sum_nonneg (h : ∀ x ∈ xs, 0 ≤ x) : 0 ≤ xs.sum := List.sum_nonneg h

theorem sum_eq_zero_iff (h : ∀ x ∈ xs, 0 ≤ x) : xs.sum = 0 ↔ ∀ x ∈ xs, x=0 := by
  induction xs with
  | nil => simp
  | cons x xs ih =>
    obtain ⟨hx,hxs⟩ := List.forall_mem_cons.mp h
    rw [List.sum_cons,List.forall_mem_cons,← ih hxs,add_eq_zero_iff_of_nonneg hx (sum_nonneg hxs)]

theorem sumSq_le (h : ∀ x ∈ xs, 0 ≤ x) : sumSq xs ≤ xs.sum^2 := by
  induction xs with
  | nil => simp
  | cons x xs ih =>
    obtain ⟨hx,hxs⟩ := List.forall_mem_cons.mp h
    have hprod := mul_nonneg hx (sum_nonneg hxs)
    rw [sumSq_cons,List.sum_cons]
    linarith [ih hxs,add_sq x xs.sum]

/-- The sum of the squares is the square of the sum exactly if at most one number counts. -/
theorem sumSq_eq_iff (h : ∀ x ∈ xs, 0 ≤ x) :
    sumSq xs = xs.sum^2 ↔ xs.countP (0 < ·) ≤ 1 := by
  induction xs with
  | nil => simp
  | cons x xs ih =>
    obtain ⟨hx,hxs⟩ := List.forall_mem_cons.mp h
    have hprod := mul_nonneg hx (sum_nonneg hxs)
    have hle := sumSq_le hxs
    have hsplit : sumSq (x :: xs) = (x :: xs).sum^2 ↔ sumSq xs = xs.sum^2 ∧ x*xs.sum = 0 := by
      rw [sumSq_cons,List.sum_cons]
      constructor
      · intro heq
        constructor <;> linarith [add_sq x xs.sum]
      · rintro ⟨heq,hz⟩
        linarith [add_sq x xs.sum]
    have hnone : xs.countP (0 < ·) = 0 ↔ ∀ y ∈ xs, y=0 := by
      rw [List.countP_eq_zero]
      refine forall₂_congr fun y hy => ?_
      rw [decide_eq_true_eq,not_lt]
      exact ⟨fun hle => le_antisymm hle (hxs y hy),fun he => he.le⟩
    rw [hsplit,ih hxs,mul_eq_zero,sum_eq_zero_iff hxs,← hnone,List.countP_cons]
    by_cases hpos : 0 < x
    · simp only [hpos,hpos.ne',decide_true,if_true,false_or]
      omega
    · have hz : x = 0 := le_antisymm (not_lt.mp hpos) hx
      simp [hz]

/-- With no positive square every number is 0. -/
theorem all_zero (h : ¬ 0 < sumSq xs) : ∀ x ∈ xs, x=0 :=
  sumSq_eq_zero.mp (le_antisymm (not_lt.mp h) (sumSq_nonneg xs))

theorem jainIndex_le_one (h : xs ≠ []) : jainIndex xs ≤ 1 := by
  have hn : (0 : K) < xs.length := Nat.cast_pos.mpr (List.length_pos_of_ne_nil h)
  unfold jainIndex
  split <;> rename_i hq
  · exact (div_le_one (mul_pos hn hq)).mpr (sq_sum_le h)
  · exact le_refl 1

theorem le_jainIndex (h : xs ≠ []) (h₀ : ∀ x ∈ xs, 0 ≤ x) : 1/(xs.length : K) ≤ jainIndex xs := by
  have hn : (0 : K) < xs.length := Nat.cast_pos.mpr (List.length_pos_of_ne_nil h)
  unfold jainIndex
  split <;> rename_i hq
  · rw [div_le_div_iff₀ hn (mul_pos hn hq)]
    linarith [mul_le_mul_of_nonneg_right (sumSq_le h₀) hn.le]
  · have hone : (1 : K) ≤ xs.length := Nat.one_le_cast.mpr (List.length_pos_of_ne_nil h)
    exact (div_le_one hn).mpr hone

theorem jainIndex_eq_one_iff (h : xs ≠ []) :
    jainIndex xs = 1 ↔ ∀ x ∈ xs, ∀ y ∈ xs, x=y := by
  have hn : (0 : K) < xs.length := Nat.cast_pos.mpr (List.length_pos_of_ne_nil h)
  unfold jainIndex
  split <;> rename_i hq
  · rw [div_eq_one_iff_eq (mul_pos hn hq).ne',sq_sum_eq_iff h]
  · have hz := all_zero hq
    exact ⟨fun _ x hx y hy => (hz x hx).trans (hz y hy).symm,fun _ => rfl⟩

/-- The lower bound is reached, by more than one number, exactly if one of them is positive
and all others are 0. -/
theorem jainIndex_eq_inv_iff (h : 1 < xs.length) (h₀ : ∀ x ∈ xs, 0 ≤ x) :
    jainIndex xs = 1/xs.length ↔ xs.countP (0 < ·) = 1 := by
  have hn : (1 : K) < xs.length := Nat.one_lt_cast.mpr h
  have hn₀ : (0 : K) < xs.length := zero_lt_one.trans hn
  unfold jainIndex
  split <;> rename_i hq
  · have hsome : xs.countP (0 < ·) ≠ 0 := by
      intro hz
      refine hq.ne' (sumSq_eq_zero.mpr fun x hx => ?_)
      have hle := List.countP_eq_zero.mp hz x hx
      rw [decide_eq_true_eq,not_lt] at hle
      exact le_antisymm hle (h₀ x hx)
    have hone : xs.countP (0 < ·) = 1 ↔ xs.countP (0 < ·) ≤ 1 := by omega
    rw [hone,← sumSq_eq_iff h₀,div_eq_div_iff (mul_pos hn₀ hq).ne' hn₀.ne',one_mul,mul_comm,
      mul_right_inj' hn₀.ne']
    exact eq_comm
  · have hz := all_zero hq
    constructor
    · intro he
      rw [eq_div_iff hn₀.ne',one_mul] at he
      exact absurd he hn.ne'
    · intro hc
      obtain ⟨x,hx,hpos⟩ := List.countP_pos_iff.mp (hc ▸ Nat.one_pos)
      rw [hz x hx] at hpos
      simp at hpos

/-- The index does not depend on the unit. -/
theorem jainIndex_map_mul {k : K} (hk : k ≠ 0) (xs : List K) :
    jainIndex (xs.map fun x => k*x) = jainIndex xs := by
  have hsq : 0 < k^2 := by positivity
  simp only [jainIndex,sumSq_map_mul,sum_map_mul,List.length_map,mul_pos_iff_of_pos_left hsq]
  split
  · rw [mul_pow,mul_left_comm,mul_div_mul_left _ _ hsq.ne']
  · rfl

end

end Statistics
