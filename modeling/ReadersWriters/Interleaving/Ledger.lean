import ReadersWriters.Interleaving.Machine
import Mathlib.Data.Nat.Notation
set_option autoImplicit false

namespace Interleaving

/-- What a step means for the request of its thread: it is issued, goes to sleep or is
admitted. -/
inductive Mark where
  | issue | sleep | enter
  deriving DecidableEq, Repr

/-- The book on the open requests, one for each thread: whether it has gone to sleep,
which requests (`later k j`) were issued after that, and how many of these were admitted
before it though they conflict with it. -/
structure Ledger (ι : Type) where
  slept : ι → Bool := fun _ => false
  later : ι → ι → Bool := fun _ _ => false
  overtaken : ι → ℕ := fun _ => 0

namespace Ledger

/-- Only requests that have slept can have later ones, which are others'. -/
def Sound {ι : Type} (g : Ledger ι) : Prop :=
  ∀ k j, g.later k j = true → g.slept k = true ∧ k ≠ j

theorem Sound.not_later {ι : Type} {g : Ledger ι} (hg : g.Sound) {i : ι} (h : g.slept i = false)
    (j : ι) : g.later i j = false := by
  by_contra hl
  rw [(hg i j (by simpa using hl)).1] at h
  cases h

section
variable {ι : Type} [DecidableEq ι] (conflict : ι → ι → Bool)

def note (g : Ledger ι) : ι × Mark → Ledger ι
  | (i,.issue) => {
      slept := Function.update g.slept i false
      later := fun k j => if k = i then false else if j = i then g.slept k else g.later k j
      overtaken := Function.update g.overtaken i 0 }
  | (i,.sleep) => { g with slept := Function.update g.slept i true }
  | (i,.enter) => {
      slept := Function.update g.slept i false
      later := fun k j => if k = i then false else g.later k j
      overtaken := fun k => g.overtaken k+(g.later k i && conflict k i).toNat }

/-- The book after a run, for a reading of its events. -/
def of {κ ε σ τ : Type} (mark : Event ι κ ε σ τ → Option (ι × Mark))
    (h : List (Event ι κ ε σ τ)) : Ledger ι :=
  (h.filterMap mark).foldr (fun m g => g.note conflict m) {}

variable {conflict} {g : Ledger ι}

theorem of_cons {κ ε σ τ : Type} (mark : Event ι κ ε σ τ → Option (ι × Mark))
    (e : Event ι κ ε σ τ) (h : List (Event ι κ ε σ τ)) :
    of conflict mark (e :: h) = (mark e).elim (of conflict mark h)
      ((of conflict mark h).note conflict) := by
  cases he : mark e <;> simp [of,he]

/-- Only the marks of a segment matter for what it adds. -/
theorem of_append {κ ε σ τ : Type} (mark : Event ι κ ε σ τ → Option (ι × Mark))
    (h h' : List (Event ι κ ε σ τ)) :
    of conflict mark (h' ++ h) =
      (h'.filterMap mark).foldr (fun m g => g.note conflict m) (of conflict mark h) := by
  simp only [of,List.filterMap_append,List.foldr_append]

theorem Sound.note (hg : g.Sound) (m : ι × Mark) : (g.note conflict m).Sound := by
  obtain ⟨i,m⟩ := m
  intro k j hl
  by_cases hk : k = i
  · subst hk
    cases m with
    | issue | enter => simp [Ledger.note] at hl
    | sleep => exact ⟨Function.update_self ..,(hg k j hl).2⟩
  · cases m with
    | issue =>
      by_cases hj : j = i
      · exact ⟨by simpa [Ledger.note,hk,hj] using hl,hj ▸ hk⟩
      · simp only [Ledger.note,if_neg hk,if_neg hj] at hl
        simpa [Ledger.note,hk] using hg k j hl
    | sleep => simpa [Ledger.note,hk] using hg k j hl
    | enter =>
      simp only [Ledger.note,if_neg hk] at hl
      simpa [Ledger.note,hk] using hg k j hl

theorem slept_note {m : ι × Mark} {k : ι} (hm : m.2 ≠ .sleep)
    (h : (g.note conflict m).slept k = true) : g.slept k = true := by
  obtain ⟨i,m⟩ := m
  by_cases hk : k = i
  · cases m with
    | issue | enter => simp [note,hk] at h
    | sleep => exact absurd rfl hm
  · cases m with
    | issue | enter => simpa [note,hk] using h
    | sleep => exact absurd rfl hm

/-- Only issuing a request makes it later than others. -/
theorem later_note {m : ι × Mark} {k j : ι} (h : (g.note conflict m).later k j = true) :
    g.later k j = true ∨ m = (j,.issue) := by
  obtain ⟨i,m⟩ := m
  by_cases hk : k = i
  · cases m with
    | issue | enter => simp [note,hk] at h
    | sleep => exact .inl h
  · cases m with
    | issue =>
      by_cases hj : j = i
      · exact .inr (by rw [hj])
      · exact .inl (by simpa [note,hk,hj] using h)
    | sleep => exact .inl h
    | enter => exact .inl (by simpa [note,hk] using h)

/-- Nobody is overtaken by a step that admits no later request in conflict. -/
theorem overtaken_note {m : ι × Mark} {k : ι} (hz : g.overtaken k = 0)
    (hm : m.2 = .enter → g.later k m.1 = true → conflict k m.1 = false) :
    (g.note conflict m).overtaken k = 0 := by
  obtain ⟨i,m⟩ := m
  cases m with
  | issue =>
    by_cases hk : k = i
    · subst hk
      exact Function.update_self ..
    · simpa [note,hk] using hz
  | sleep => exact hz
  | enter =>
    cases hl : g.later k i
    · simp [note,hz,hl]
    · simp [note,hz,show conflict k i = false from hm rfl hl]

end

end Ledger

end Interleaving
