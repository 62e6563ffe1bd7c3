import Mathlib.Data.List.Induction
set_option autoImplicit false

namespace CommandLine

/-! The C library's reading of a number, and what a decimal numeral denotes. -/

def isSpace (c : Char) : Bool := c = ' ' || (9 ≤ c.toNat && c.toNat ≤ 13)

def digitVal (c : Char) : ℕ := c.toNat - '0'.toNat

/-- The digits in front, after digits that make `n`. -/
def readDigits (n : ℕ) : List Char → ℕ
  | [] => n
  | c :: cs => if c.isDigit then readDigits (n*10+digitVal c) cs else n

/-- The nearest `long`. -/
def toLong (n : Int) : Int :=
  if n < -9223372036854775808 then -9223372036854775808
  else if 9223372036854775807 < n then 9223372036854775807
  else n

/-- With base 10. -/
def strtol (s : String) : Int :=
  match s.toList.dropWhile isSpace with
  | '-' :: cs => toLong (-readDigits 0 cs)
  | '+' :: cs => toLong (readDigits 0 cs)
  | cs => toLong (readDigits 0 cs)

/-- `(int)strtol(nptr, NULL, 10)`. -/
def atoi (s : String) : Int := (strtol s).bmod 4294967296

/-- The value of digits, units first. -/
def positional : List Char → ℕ
  | [] => 0
  | c :: cs => digitVal c+10*positional cs

def natural (cs : List Char) : Option ℕ :=
  if cs ≠ [] ∧ cs.all Char.isDigit = true then some (positional cs.reverse) else none

/-- The number that a decimal integer, with or without a sign, denotes. -/
def integer (s : String) : Option Int :=
  match s.toList with
  | '-' :: cs => (natural cs).map fun n : ℕ => -(n : Int)
  | '+' :: cs => (natural cs).map fun n : ℕ => (n : Int)
  | cs => (natural cs).map fun n : ℕ => (n : Int)

def FitsInt (n : Int) : Prop := -2147483648 ≤ n ∧ n ≤ 2147483647

instance (n : Int) : Decidable (FitsInt n) := inferInstanceAs (Decidable (_ ∧ _))

theorem fitsInt_atoi (s : String) : FitsInt (atoi s) := by
  have hl := Int.le_bmod (x := strtol s) (m := 4294967296) (by decide)
  have hu := Int.bmod_lt (x := strtol s) (m := 4294967296) (by decide)
  constructor
  · exact hl
  · exact Int.le_of_lt_add_one hu

theorem not_isSpace_of_isDigit {c : Char} (h : c.isDigit = true) : isSpace c = false := by
  simp only [Char.isDigit,Bool.and_eq_true,decide_eq_true_eq,UInt32.le_iff_toNat_le] at h
  have h0 : 48 ≤ c.toNat := h.1
  have hne : c ≠ ' ' := by
    rintro rfl
    exact absurd h0 (by decide)
  simp [isSpace,hne]
  omega

theorem readDigits_append {cs : List Char} (h : ∀ c ∈ cs, c.isDigit = true) (n : ℕ)
    (ds : List Char) : readDigits n (cs ++ ds) = readDigits (readDigits n cs) ds := by
  induction cs generalizing n with
  | nil => rfl
  | cons c cs ih =>
    obtain ⟨hc,hcs⟩ := List.forall_mem_cons.mp h
    simp only [List.cons_append,readDigits,hc,if_true,ih hcs]

theorem readDigits_eq {cs : List Char} (h : ∀ c ∈ cs, c.isDigit = true) :
    readDigits 0 cs = positional cs.reverse := by
  induction cs using List.reverseRecOn with
  | nil => rfl
  | append_singleton cs c ih =>
    obtain ⟨hcs,hc⟩ := List.forall_mem_append.mp h
    have hc := List.forall_mem_singleton.mp hc
    rw [readDigits_append hcs,ih hcs,List.reverse_append]
    simp only [readDigits,hc,if_true,List.reverse_singleton,List.singleton_append,positional]
    omega

theorem natural_eq_some {cs : List Char} {n : ℕ} (h : natural cs = some n) :
    (∃ c cs', cs = c :: cs' ∧ c.isDigit = true) ∧ readDigits 0 cs = n := by
  obtain ⟨⟨hne,hd⟩,he⟩ := Option.ite_none_right_eq_some.mp h
  cases he
  have hd := List.all_eq_true.mp hd
  refine ⟨?_,readDigits_eq hd⟩
  cases cs with
  | nil => exact absurd rfl hne
  | cons c cs => exact ⟨c,cs,rfl,hd c List.mem_cons_self⟩

theorem toLong_eq {n : Int} (h : FitsInt n) : toLong n = n := by
  obtain ⟨hl,hu⟩ := h
  rw [toLong,if_neg (by omega),if_neg (by omega)]

/-- Short of the bounds of `long` a numeral is read as it is written. -/
theorem strtol_eq {s : String} {n : Int} (h : integer s = some n) (hn : FitsInt n) :
    strtol s = n := by
  simp only [integer] at h
  split at h
  case h_1 cs hs =>
    obtain ⟨m,hm,rfl⟩ := Option.map_eq_some_iff.mp h
    have hd := (natural_eq_some hm).2
    have hw : s.toList.dropWhile isSpace = '-' :: cs := by
      rw [hs,List.dropWhile_cons_of_neg (by decide)]
    simp only [strtol,hw,hd]
    exact toLong_eq hn
  case h_2 cs hs =>
    obtain ⟨m,hm,rfl⟩ := Option.map_eq_some_iff.mp h
    have hd := (natural_eq_some hm).2
    have hw : s.toList.dropWhile isSpace = '+' :: cs := by
      rw [hs,List.dropWhile_cons_of_neg (by decide)]
    simp only [strtol,hw,hd]
    exact toLong_eq hn
  case h_3 hminus hplus =>
    obtain ⟨m,hm,rfl⟩ := Option.map_eq_some_iff.mp h
    obtain ⟨⟨c,cs,hs,hc⟩,hd⟩ := natural_eq_some hm
    have hw : s.toList.dropWhile isSpace = s.toList := by
      rw [hs,List.dropWhile_cons_of_neg (by simp [not_isSpace_of_isDigit hc])]
    simp only [strtol,hw,hd]
    exact toLong_eq hn

theorem atoi_eq {s : String} {n : Int} (h : integer s = some n) (hn : FitsInt n) : atoi s = n := by
  rw [atoi,strtol_eq h hn]
  obtain ⟨hl,hu⟩ := hn
  exact Int.bmod_eq_of_le (by omega) (by omega)

/-- Leading white space and a tail that is no number are let through. -/
example : atoi " 42nd" = 42 ∧ integer " 42nd" = none := by decide +kernel

end CommandLine
