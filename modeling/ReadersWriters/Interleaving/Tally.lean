import Mathlib.Algebra.Order.Ring.Int
import Mathlib.Logic.Function.Basic
set_option autoImplicit false

namespace Interleaving

/-- A counter that threads `ι` increment with a load and a store: its value, what the threads
have loaded and not stored yet, the number of stores so far, and whether some thread has
loaded the counter while another was between its load and its store. -/
structure Tally {ι : Type} (value : ℤ) (loaded : ι → Option ℤ) (stores : ℤ)
    (overlapped : Prop) : Prop where
  value_le : value ≤ stores
  loaded_le : ∀ i n, loaded i = some n → n ≤ stores
  exact : ¬ overlapped → value = stores ∧
    ∀ i n, loaded i = some n → n = stores ∧ ∀ j, j ≠ i → loaded j = none
  /-- The last thread to store after an overlap stores too little. -/
  lost : overlapped → (∀ i, loaded i = none) → value < stores
  losing : overlapped → ∀ i n, loaded i = some n → (∀ j, j ≠ i → loaded j = none) → n < stores

namespace Tally

variable {ι : Type} {value stores : ℤ} {loaded : ι → Option ℤ} {overlapped : Prop}

theorem start : Tally 0 (fun _ : ι => none) 0 False where
  value_le := le_refl 0
  loaded_le _ _ hi := by cases hi
  exact _ := ⟨rfl,fun _ _ hi => by cases hi⟩
  lost h := h.elim
  losing h := h.elim

/-- When no increment is under way the counter is exact unless two have overlapped. -/
theorem value_eq (hT : Tally value loaded stores overlapped) (hn : ∀ i, loaded i = none) :
    value = stores ↔ ¬ overlapped :=
  ⟨fun he ho => (hT.lost ho hn).ne he,fun ho => (hT.exact ho).1⟩

variable [DecidableEq ι] {i : ι}

theorem load (hT : Tally value loaded stores overlapped) (hi : loaded i = none) :
    Tally value (Function.update loaded i (some value)) stores
      (overlapped ∨ ∃ j, loaded j ≠ none) where
  value_le := hT.value_le
  loaded_le j n hj := by
    by_cases hji : j = i
    · rw [hji,Function.update_self,Option.some.injEq] at hj
      exact hj ▸ hT.value_le
    · rw [Function.update_of_ne hji] at hj
      exact hT.loaded_le j n hj
  exact hn := by
    obtain ⟨hno,hnl⟩ := not_or.mp hn
    obtain ⟨hv,-⟩ := hT.exact hno
    refine ⟨hv,fun j n hj => ?_⟩
    by_cases hji : j = i
    · rw [hji,Function.update_self,Option.some.injEq] at hj
      refine ⟨hj ▸ hv,fun k hk => ?_⟩
      rw [Function.update_of_ne (fun hki => hk (hki.trans hji.symm))]
      exact not_not.mp fun hk' => hnl ⟨k,hk'⟩
    · rw [Function.update_of_ne hji] at hj
      exact absurd ⟨j,by simp [hj]⟩ hnl
  lost _ hall := by
    have h := hall i
    rw [Function.update_self] at h
    cases h
  losing ho j n hj halone := by
    by_cases hji : j = i
    · subst hji
      rw [Function.update_self,Option.some.injEq] at hj
      have hnone : ∀ k, loaded k = none := by
        intro k
        by_cases hk : k = j
        · exact hk ▸ hi
        · simpa only [Function.update_of_ne hk] using halone k hk
      rcases ho with ho | ⟨k,hk⟩
      · exact hj ▸ hT.lost ho hnone
      · exact absurd (hnone k) hk
    · have h := halone i (Ne.symm hji)
      rw [Function.update_self] at h
      cases h

theorem store {n : ℤ} (hT : Tally value loaded stores overlapped) (hi : loaded i = some n) :
    Tally (n+1) (Function.update loaded i none) (stores+1) overlapped where
  value_le := by
    have := hT.loaded_le i n hi
    omega
  loaded_le j m hj := by
    by_cases hji : j = i
    · rw [hji,Function.update_self] at hj
      cases hj
    · rw [Function.update_of_ne hji] at hj
      have := hT.loaded_le j m hj
      omega
  exact hn := by
    obtain ⟨hv,halone⟩ := (hT.exact hn).2 i n hi
    refine ⟨by omega,fun j m hj => ?_⟩
    by_cases hji : j = i
    · rw [hji,Function.update_self] at hj
      cases hj
    · rw [Function.update_of_ne hji,halone j hji] at hj
      cases hj
  lost ho hall := by
    have := hT.losing ho i n hi fun j hji => by
      simpa only [Function.update_of_ne hji] using hall j
    omega
  losing _ j m hj _ := by
    by_cases hji : j = i
    · rw [hji,Function.update_self] at hj
      cases hj
    · rw [Function.update_of_ne hji] at hj
      have := hT.loaded_le j m hj
      omega

end Tally

end Interleaving
