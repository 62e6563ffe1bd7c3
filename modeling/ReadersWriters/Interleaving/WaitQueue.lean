import ReadersWriters.Interleaving.Machine
import Mathlib.Data.List.Nodup
set_option autoImplicit false

namespace Interleaving

section
variable {ι κ ε σ τ : Type}

/-- The queue `q` of the store lists threads that sleep in the private state `asleep`,
each of them once. A thread in that state that is not listed has been woken. -/
structure WaitQueue (q : σ → List ι) (asleep : τ) (c : Config ι σ τ) : Prop where
  nodup : (q c.shared).Nodup
  asleep : ∀ i ∈ q c.shared, c.locals i = asleep

variable [DecidableEq ι] {q : σ → List ι} {asleep : τ}

/-- A step of thread `i` wakes sleepers, which only makes the queue shorter, or is the
one with which `i` goes to sleep; a thread moves on from its sleep after it was woken. -/
inductive QueueStep (q : σ → List ι) (asleep : τ) (i : ι) (s : σ) (t : τ) (s' : σ) (t' : τ) :
    Prop where
  | wake : (t = asleep → i ∉ q s) → List.Sublist (q s') (q s) → QueueStep q asleep i s t s' t'
  | sleep : t ≠ asleep → t' = asleep → q s' = q s ++ [i] → QueueStep q asleep i s t s' t'

theorem WaitQueue.step {c : Config ι σ τ} {i : ι} {s' : σ} {t' : τ} (hq : WaitQueue q asleep c)
    (h : QueueStep q asleep i c.shared (c.locals i) s' t') :
    WaitQueue q asleep ⟨s',Function.update c.locals i t'⟩ := by
  cases h with
  | wake hi hs =>
    refine ⟨hq.nodup.sublist hs,fun j hj => ?_⟩
    have hj' := hs.subset hj
    by_cases hji : j = i
    · subst hji
      exact absurd hj' (hi (hq.asleep j hj'))
    · simpa only [Function.update_of_ne hji] using hq.asleep j hj'
  | sleep ht ht' hs =>
    have hi : i ∉ q c.shared := fun hi => ht (hq.asleep i hi)
    refine ⟨?_,fun j hj => ?_⟩
    · simp only [hs,List.nodup_append,hq.nodup,List.nodup_singleton,true_and]
      rintro j hj k hk rfl
      exact hi (List.mem_singleton.mp hk ▸ hj)
    · simp only [hs,List.mem_append,List.mem_singleton] at hj
      rcases hj with hj | rfl
      · have hji : j ≠ i := fun h => hi (h ▸ hj)
        simpa only [Function.update_of_ne hji] using hq.asleep j hj
      · simpa only [Function.update_self] using ht'

theorem WaitQueue.run {m : Machine ι κ ε σ τ} {c₀ c : Config ι σ τ} {h : List (Event ι κ ε σ τ)}
    (h₀ : q c₀.shared = [])
    (hact : ∀ i k s t s' t', m.act i k s t = some (s',t') → QueueStep q asleep i s t s' t')
    (henv : ∀ e s s', m.env e s = some s' → List.Sublist (q s') (q s)) (hr : Run m c₀ h c) :
    WaitQueue q asleep c := by
  induction hr with
  | start => exact ⟨h₀ ▸ List.nodup_nil,fun i hi => by simp [h₀] at hi⟩
  | @step h c c' l _ hn hq =>
    cases l with
    | thread i k =>
      obtain ⟨s',t',ha,rfl⟩ := Machine.next_thread.mp hn
      exact hq.step (hact i k _ _ _ _ ha)
    | env e =>
      obtain ⟨s',he,rfl⟩ := Machine.next_env.mp hn
      have hs := henv e _ _ he
      exact ⟨hq.nodup.sublist hs,fun i hi => hq.asleep i (hs.subset hi)⟩

end

end Interleaving
