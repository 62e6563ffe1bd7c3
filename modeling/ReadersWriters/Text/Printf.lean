import Mathlib.Algebra.Order.Round
import Mathlib.Data.List.DropRight
set_option autoImplicit false

namespace Text

/-! What the conversions of the C library write, and how it is read back. A text is the list of
its bytes, and a byte is the character with its number. -/

/-- `snprintf` into a buffer of that size. -/
def snprintf (size : ℕ) (cs : List Char) : List Char := cs.take (size-1)

/-- What `%s` writes of the `c_str` of a text. -/
def cString (cs : List Char) : List Char := cs.takeWhile (· ≠ '\x00')

/-- Bytes without a line break. -/
def OneLine (cs : List Char) : Prop := ∀ c ∈ cs, c ≠ '\n' ∧ c.toNat < 256

instance (cs : List Char) : Decidable (OneLine cs) := List.decidableBAll _ cs

def signed (z : ℤ) (cs : List Char) : List Char := if z < 0 then '-' :: cs else cs

/-- `%d` and `%ld`. -/
def decimal (z : ℤ) : List Char := signed z (Nat.toDigits 10 z.natAbs)

/-- Digits with zeros in front of them. -/
def padded (width n : ℕ) : List Char :=
  List.replicate (width-(Nat.toDigits 10 n).length) '0' ++ Nat.toDigits 10 n

/-- `%0*d`, where the sign counts. -/
def zeroPadded (width : ℕ) (z : ℤ) : List Char :=
  signed z (padded (if z < 0 then width-1 else width) z.natAbs)

/-- `%-*s`. -/
def leftAligned (width : ℕ) (cs : List Char) : List Char :=
  cs ++ List.replicate (width-cs.length) ' '

def readNat (cs : List Char) : Option ℕ :=
  if cs ≠ [] ∧ cs.all Char.isDigit = true then some (Nat.ofDigitChars 10 cs 0) else none

def readInt : List Char → Option ℤ
  | '-' :: cs => (readNat cs).map fun n : ℕ => -(n : ℤ)
  | cs => (readNat cs).map fun n : ℕ => (n : ℤ)

def trimRight (cs : List Char) : List Char := cs.rdropWhile (· = ' ')

/-- What follows a label. -/
def after (label cs : List Char) : Option (List Char) :=
  if label.isPrefixOf cs then some (cs.drop label.length) else none

/-- What comes before an ending. -/
def before (ending cs : List Char) : Option (List Char) :=
  if ending.isSuffixOf cs then some (cs.take (cs.length-ending.length)) else none

/-- What comes before a separator and after it. -/
def cut (sep : Char) (cs : List Char) : Option (List Char × List Char) :=
  if sep ∈ cs then some (cs.takeWhile (· ≠ sep),(cs.dropWhile (· ≠ sep)).tail) else none

theorem cut_append {sep : Char} {cs : List Char} (h : sep ∉ cs) (ds : List Char) :
    cut sep (cs ++ sep :: ds) = some (cs,ds) := by
  have hne : ∀ c ∈ cs, decide (c ≠ sep) = true :=
    fun c hc => decide_eq_true fun he => h (he ▸ hc)
  rw [cut,if_pos (by simp),List.takeWhile_append_of_pos hne,List.dropWhile_append_of_pos hne]
  simp

theorem notMem_intercalate {c : Char} {sep : List Char} {ls : List (List Char)} (hs : c ∉ sep)
    (h : ∀ cs ∈ ls, c ∉ cs) : c ∉ List.intercalate sep ls := by
  induction ls with
  | nil => exact List.not_mem_nil
  | cons cs ls ih =>
    cases ls with
    | nil =>
      rw [List.intercalate_singleton]
      exact h cs List.mem_cons_self
    | cons ds ls =>
      rw [List.intercalate_cons_cons]
      exact List.not_mem_append (List.not_mem_append (h cs List.mem_cons_self) hs)
        (ih fun es he => h es (List.mem_cons_of_mem _ he))

section
variable {cs : List Char} {n width : ℕ}

theorem snprintf_of_lt {size : ℕ} (h : cs.length < size) : snprintf size cs = cs :=
  List.take_of_length_le (by omega)

theorem mem_of_mem_cString {c : Char} (h : c ∈ cString cs) : c ∈ cs :=
  (List.takeWhile_sublist _).subset h

theorem OneLine.break_notMem (h : OneLine cs) : '\n' ∉ cs := fun hn => (h _ hn).1 rfl

theorem OneLine.append {ds : List Char} (h : OneLine cs) (h' : OneLine ds) : OneLine (cs ++ ds) :=
  fun c hc => (List.mem_append.mp hc).elim (h c) (h' c)

theorem after_append (label cs : List Char) : after label (label ++ cs) = some cs := by
  simp [after]

theorem before_append (ending cs : List Char) : before ending (cs ++ ending) = some cs := by
  simp [before]

theorem trimRight_spaces (h : cs.getLast? ≠ some ' ') (k : ℕ) :
    trimRight (cs ++ List.replicate k ' ') = cs := by
  induction k with
  | zero =>
    rw [List.replicate_zero,List.append_nil,trimRight,List.rdropWhile_eq_self_iff]
    intro hne hl
    rw [List.getLast?_eq_some_getLast hne] at h
    exact h (congrArg some (of_decide_eq_true hl))
  | succ k ih =>
    rw [List.replicate_succ',← List.append_assoc,trimRight,List.rdropWhile_concat_pos _ _ _ rfl]
    exact ih

theorem getLast?_ne_of_notMem {c : Char} (h : c ∉ cs) : cs.getLast? ≠ some c :=
  fun he => h (List.mem_of_getLast? he)

theorem leftAligned_space : leftAligned width cs ++ [' '] =
    cs ++ List.replicate (width-cs.length+1) ' ' := by
  rw [leftAligned,List.append_assoc,List.replicate_succ']

theorem isDigit_of_mem_padded {c : Char} (h : c ∈ padded width n) : c.isDigit = true := by
  rcases List.mem_append.mp h with h | h
  · rw [List.eq_of_mem_replicate h]
    rfl
  · exact Nat.isDigit_of_mem_toDigits (by decide) (by decide) h

theorem readNat_padded : readNat (padded width n) = some n := by
  have hne : padded width n ≠ [] := by simp [padded,Nat.toDigits_ne_nil]
  have hall : (padded width n).all Char.isDigit = true :=
    List.all_eq_true.mpr fun c hc => isDigit_of_mem_padded hc
  rw [readNat,if_pos ⟨hne,hall⟩,padded,Nat.ofDigitChars_append,Nat.ofDigitChars_replicate_zero,
    Nat.mul_zero,Nat.ofDigitChars_toDigits (by decide) (by decide)]

theorem padded_zero : padded 0 n = Nat.toDigits 10 n := by simp [padded]

theorem length_padded (hw : 0 < width) (h : n < 10^width) : (padded width n).length = width := by
  have hd := (Nat.length_toDigits_le_iff (by decide) hw).mpr h
  simp only [padded,List.length_append,List.length_replicate]
  omega

theorem readInt_signed {z : ℤ} (hd : ∀ c ∈ cs, c.isDigit = true)
    (hn : readNat cs = some z.natAbs) : readInt (signed z cs) = some z := by
  unfold signed
  split <;> rename_i hz
  · have hx : readInt ('-' :: cs) = (readNat cs).map fun n : ℕ => -(n : ℤ) := rfl
    rw [hx,hn,Option.map_some]
    congr 1
    omega
  · have hx : readInt cs = (readNat cs).map fun n : ℕ => (n : ℤ) := by
      unfold readInt
      split
      · exact absurd (hd '-' List.mem_cons_self) (by decide)
      · rfl
    rw [hx,hn,Option.map_some]
    congr 1
    omega

theorem readInt_zeroPadded (width : ℕ) (z : ℤ) : readInt (zeroPadded width z) = some z :=
  readInt_signed (fun _ hc => isDigit_of_mem_padded hc) readNat_padded

theorem readInt_decimal (z : ℤ) : readInt (decimal z) = some z :=
  readInt_signed (fun _ hc => Nat.isDigit_of_mem_toDigits (by decide) (by decide) hc)
    (padded_zero ▸ readNat_padded)

theorem mem_signed {z : ℤ} {c : Char} (h : c ∈ signed z cs) : c = '-' ∨ c ∈ cs := by
  unfold signed at h
  split at h
  · exact List.mem_cons.mp h
  · exact .inr h

/-- The characters of numbers. -/
theorem notMem_decimal {c : Char} (h₁ : c ≠ '-') (h₂ : c.isDigit = false) (z : ℤ) :
    c ∉ decimal z := by
  intro h
  rcases mem_signed h with rfl | h
  · exact h₁ rfl
  · rw [Nat.isDigit_of_mem_toDigits (by decide) (by decide) h] at h₂
    cases h₂

theorem oneLine_decimal (z : ℤ) : OneLine (decimal z) := by
  intro c hc
  rcases mem_signed hc with rfl | hc
  · decide
  · have hd := Nat.isDigit_of_mem_toDigits (by decide) (by decide) hc
    refine ⟨?_,(Char.isDigit_iff_toNat.mp hd).2.trans_lt (by decide)⟩
    rintro rfl
    cases hd

theorem notMem_zeroPadded {c : Char} (h₁ : c ≠ '-') (h₂ : c.isDigit = false) (width : ℕ) (z : ℤ) :
    c ∉ zeroPadded width z := by
  intro h
  rcases mem_signed h with rfl | h
  · exact h₁ rfl
  · rw [isDigit_of_mem_padded h] at h₂
    cases h₂

theorem length_signed_le (z : ℤ) (cs : List Char) : (signed z cs).length ≤ cs.length+1 := by
  unfold signed
  split
  · exact le_of_eq List.length_cons
  · exact Nat.le_succ _

/-- A number below `10^k` has at most `k` digits. -/
theorem length_decimal_le {k : ℕ} (hk : 0 < k) {z : ℤ} (h : z.natAbs < 10^k) :
    (decimal z).length ≤ k+1 :=
  (length_signed_le _ _).trans
    (Nat.succ_le_succ ((Nat.length_toDigits_le_iff (by decide) hk).mpr h))

theorem length_zeroPadded_le {k : ℕ} (hk : 0 < k) (width : ℕ) {z : ℤ} (h : z.natAbs < 10^k) :
    (zeroPadded width z).length ≤ max width k+1 := by
  refine (length_signed_le _ _).trans (Nat.succ_le_succ ?_)
  have hd := (Nat.length_toDigits_le_iff (by decide) hk).mpr h
  simp only [padded,List.length_append,List.length_replicate]
  split <;> omega

end

end Text
