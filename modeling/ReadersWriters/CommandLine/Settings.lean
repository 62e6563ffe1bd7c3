import Mathlib.Data.List.Basic
set_option autoImplicit false

namespace CommandLine

/-- A field that nothing sets. -/
theorem foldl_unset {α σ β : Type} {set : σ → α → σ} (field : σ → β)
    (h : ∀ s g, field (set s g) = field s) (gs : List α) (s : σ) :
    field (gs.foldl set s) = field s := by
  induction gs generalizing s with
  | nil => rfl
  | cons g gs ih => rw [List.foldl_cons,ih,h]

section
variable {κ α : Type} [DecidableEq κ]

/-- The last value that is given to `k`. -/
def lastOf (k : κ) : List (κ × α) → Option α
  | [] => none
  | g :: gs => (lastOf k gs).or (if g.1 = k then some g.2 else none)

/-- Every key is given the same values in the same order. -/
def Reordering (gs hs : List (κ × α)) : Prop :=
  ∀ k, gs.filter (fun g => g.1 = k) = hs.filter (fun g => g.1 = k)

variable {gs hs : List (κ × α)} {k : κ} {g : κ × α}

theorem lastOf_eq_getLast? (k : κ) (gs : List (κ × α)) :
    lastOf k gs = (gs.filter fun g => g.1 = k).getLast?.map Prod.snd := by
  induction gs with
  | nil => rfl
  | cons g gs ih =>
    rw [lastOf,ih]
    by_cases hg : g.1 = k
    · rw [List.filter_cons_of_pos (by simpa using hg),List.getLast?_cons]
      cases (gs.filter fun g => g.1 = k).getLast? <;> simp [hg]
    · rw [List.filter_cons_of_neg (by simpa using hg)]
      simp [hg]

theorem mem_of_lastOf {a : α} (h : lastOf k gs = some a) : (k,a) ∈ gs := by
  rw [lastOf_eq_getLast?] at h
  obtain ⟨⟨k',a'⟩,hl,rfl⟩ := Option.map_eq_some_iff.mp h
  obtain ⟨hm,hk⟩ := List.mem_filter.mp (List.mem_of_getLast? hl)
  obtain rfl : k' = k := by simpa using hk
  exact hm

theorem Reordering.lastOf_eq (h : Reordering gs hs) (k : κ) : lastOf k gs = lastOf k hs := by
  rw [lastOf_eq_getLast?,lastOf_eq_getLast?,h k]

theorem Reordering.mem_iff (h : Reordering gs hs) : g ∈ gs ↔ g ∈ hs := by
  have hf : ∀ gs : List (κ × α), g ∈ gs ↔ g ∈ gs.filter fun x => x.1 = g.1 := by
    simp [List.mem_filter]
  rw [hf gs,hf hs,h]

/-- Neighbours with different keys may change places. -/
theorem Reordering.swap {a b : κ × α} (hab : a.1 ≠ b.1) (gs hs : List (κ × α)) :
    Reordering (gs ++ a :: b :: hs) (gs ++ b :: a :: hs) := by
  intro k
  simp only [List.filter_append,List.filter_cons]
  split <;> split <;> simp_all

/-- A field that the settings of one key set, and nothing else does, has the value given last. -/
theorem foldl_field {σ β : Type} {set : σ → κ × α → σ} (field : σ → β) {f : α → β}
    (h : ∀ s g, field (set s g) = if g.1 = k then f g.2 else field s)
    (gs : List (κ × α)) (s : σ) :
    field (gs.foldl set s) = (lastOf k gs).elim (field s) f := by
  induction gs generalizing s with
  | nil => rfl
  | cons g gs ih =>
    rw [List.foldl_cons,ih,h,lastOf]
    cases lastOf k gs with
    | some a => rfl
    | none => split <;> rfl

end

end CommandLine
