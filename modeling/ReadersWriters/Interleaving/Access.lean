import Mathlib.Data.Finset.Card
set_option autoImplicit false

namespace Interleaving

/-- Who holds a readers-writers lock: a writer among the holders is the only one. -/
structure Access {ι : Type} (isWriter : ι → Bool) where
  holders : Finset ι
  alone : ∀ i ∈ holders, isWriter i = true → holders = {i}

namespace Access

section
variable {ι : Type} {isWriter : ι → Bool}

/-- Nobody holds the lock. -/
def free : Access isWriter := ⟨∅,fun _ h => absurd h (Finset.notMem_empty _)⟩

/-- How many hold the lock, as far as it matters to those that come. -/
inductive Occupancy where
  | readers (n : ℕ) | writer
  deriving DecidableEq, Repr

def occupancy (a : Access isWriter) : Occupancy :=
  if ∃ i ∈ a.holders, isWriter i = true then .writer else .readers a.holders.card

theorem occupancy_free : (free : Access isWriter).occupancy = .readers 0 := by
  simp [occupancy,free]

variable {a : Access isWriter} {i : ι}

theorem occupancy_readers (h : ∀ j ∈ a.holders, isWriter j = false) :
    a.occupancy = .readers a.holders.card := by
  refine if_neg ?_
  rintro ⟨j,hj,hw⟩
  cases (h j hj).symm.trans hw

theorem occupancy_writer (hi : i ∈ a.holders) (hw : isWriter i = true) : a.occupancy = .writer :=
  if_pos ⟨i,hi,hw⟩

end

section
variable {ι : Type} [DecidableEq ι] {isWriter : ι → Bool}

/-- A thread enters or leaves. The only condition on entering is that what results is an
`Access` again. -/
inductive Step : Access isWriter → ι × Bool → Access isWriter → Prop where
  | enter {a a' : Access isWriter} {i : ι} : i ∉ a.holders → a'.holders = insert i a.holders →
      Step a (i,true) a'
  | leave {a a' : Access isWriter} {i : ι} : i ∈ a.holders → a'.holders = a.holders.erase i →
      Step a (i,false) a'

/-- What may happen, newest step first. -/
inductive History : List (ι × Bool) → Access isWriter → Prop where
  | start : History [] free
  | step {ts : List (ι × Bool)} {a a' : Access isWriter} {e : ι × Bool} :
      History ts a → Step a e a' → History (e :: ts) a'

variable {a a' : Access isWriter} {i : ι}

/-- A reader finds readers only, and is one more of them. -/
theorem enter_reader (hi : i ∉ a.holders) (h : a'.holders = insert i a.holders)
    (hw : isWriter i = false) :
    a.occupancy = .readers a.holders.card ∧ a'.occupancy = .readers (a.holders.card+1) := by
  have hr : ∀ j ∈ a'.holders, isWriter j = false := by
    intro j hj
    by_contra hjw
    have hs := a'.alone j hj (by simpa using hjw)
    have him : i ∈ a'.holders := h ▸ Finset.mem_insert_self i _
    rw [hs,Finset.mem_singleton] at him
    subst him
    exact hjw hw
  refine ⟨occupancy_readers fun j hj => hr j (h ▸ Finset.mem_insert_of_mem hj),?_⟩
  rw [occupancy_readers hr,h,Finset.card_insert_of_notMem hi]

/-- A writer finds nobody. -/
theorem enter_writer (hi : i ∉ a.holders) (h : a'.holders = insert i a.holders)
    (hw : isWriter i = true) : a.occupancy = .readers 0 ∧ a'.occupancy = .writer := by
  have him : i ∈ a'.holders := h ▸ Finset.mem_insert_self i _
  have he : a.holders = ∅ := by
    have hs := (a'.alone i him hw).symm.trans h
    rw [Finset.eq_empty_iff_forall_notMem]
    intro j hj
    have hj' : j ∈ ({i} : Finset ι) := hs ▸ Finset.mem_insert_of_mem hj
    exact hi (Finset.mem_singleton.mp hj' ▸ hj)
  refine ⟨?_,occupancy_writer him hw⟩
  rw [occupancy_readers (by simp [he]),he,Finset.card_empty]

/-- A reader that leaves was one of some readers. -/
theorem leave_reader (hi : i ∈ a.holders) (h : a'.holders = a.holders.erase i)
    (hw : isWriter i = false) : ∃ n, a.occupancy = .readers (n+1) ∧ a'.occupancy = .readers n := by
  have hr : ∀ j ∈ a.holders, isWriter j = false := by
    intro j hj
    by_contra hjw
    have hs := a.alone j hj (by simpa using hjw)
    rw [hs,Finset.mem_singleton] at hi
    subst hi
    exact hjw hw
  have hr' : ∀ j ∈ a'.holders, isWriter j = false :=
    fun j hj => hr j (Finset.mem_of_mem_erase (h ▸ hj))
  refine ⟨a'.holders.card,?_,occupancy_readers hr'⟩
  rw [occupancy_readers hr,h,Finset.card_erase_add_one hi]

theorem leave_writer (hi : i ∈ a.holders) (h : a'.holders = a.holders.erase i)
    (hw : isWriter i = true) : a.occupancy = .writer ∧ a'.occupancy = .readers 0 := by
  have he : a'.holders = ∅ := by
    rw [h,a.alone i hi hw]
    exact Finset.erase_singleton i
  refine ⟨occupancy_writer hi hw,?_⟩
  rw [occupancy_readers (by simp [he]),he,Finset.card_empty]

end

end Access

end Interleaving
