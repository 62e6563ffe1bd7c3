import Mathlib.Data.List.Nodup
import Mathlib.Data.List.Range
set_option autoImplicit false

namespace Loops

section
variable {σ : Type} {n : Int} {body : Int → σ → σ}

/-- `for (; i < n; ++i)`, where `s` is what the body changes. -/
def forLoop (n : Int) (body : Int → σ → σ) (i : Int) (s : σ) : σ :=
  if i < n then forLoop n body (i+1) (body i s) else s
termination_by (n-i).toNat

/-- What each turn hands on to the next holds at the end. -/
theorem forLoop_invariant (I : ℕ → σ → Prop) {s : σ} (init : I 0 s)
    (step : ∀ (i : ℕ) s, (i : Int) < n → I i s → I (i+1) (body i s)) :
    I n.toNat (forLoop n body 0 s) := by
  -- from turn `i` on, with `m` turns to go
  have hfrom : ∀ (m i : ℕ) s, i+m = n.toNat → I i s → I n.toNat (forLoop n body i s) := by
    intro m
    induction m with
    | zero =>
      intro i s hi hs
      rw [forLoop,if_neg (by omega),← hi]
      exact hs
    | succ m ih =>
      intro i s hi hs
      rw [forLoop,if_pos (by omega)]
      exact ih (i+1) (body i s) (by omega) (step i s (by omega) hs)
  exact hfrom n.toNat 0 s (Nat.zero_add _) init

end

/-- Every index of `n` slots once, and no other index. -/
structure Covers (n : Int) (is : List Int) : Prop where
  inside : ∀ i ∈ is, 0 ≤ i ∧ i < n
  once : ∀ i, 0 ≤ i → i < n → is.count i = 1

theorem covers_range (n : ℕ) : Covers n ((List.range n).map fun i : ℕ => (i : Int)) := by
  refine ⟨?_,fun i h0 hn => ?_⟩
  · intro i hi
    obtain ⟨k,hk,rfl⟩ := List.mem_map.mp hi
    have hk := List.mem_range.mp hk
    omega
  · refine List.count_eq_one_of_mem ?_ (List.mem_map.mpr ⟨i.toNat,?_,?_⟩)
    · exact List.nodup_range.map fun _ _ => Int.ofNat.inj
    · exact List.mem_range.mpr (by omega)
    · exact Int.toNat_of_nonneg h0

end Loops
