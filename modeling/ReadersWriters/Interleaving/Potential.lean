import ReadersWriters.Interleaving.Census
set_option autoImplicit false

namespace Interleaving

def Label.isThread {ι κ ε : Type} : Label ι κ ε → Bool
  | .thread _ _ => true
  | .env _ => false

section
variable {ι κ ε σ τ : Type}

/-- The steps that the threads have made. -/
def threadSteps (h : List (Event ι κ ε σ τ)) : ℕ := h.countP fun e => e.2.isThread

theorem threadSteps_thread (c : Config ι σ τ) (i : ι) (k : κ) (h : List (Event ι κ ε σ τ)) :
    threadSteps ((c,.thread i k) :: h) = threadSteps h+1 := List.countP_cons_of_pos rfl

theorem threadSteps_env (c : Config ι σ τ) (e : ε) (h : List (Event ι κ ε σ τ)) :
    threadSteps ((c,.env e) :: h) = threadSteps h := List.countP_cons_of_neg Bool.false_ne_true

/-- A potential of the store and the threads pays for every thread step, if each one uses up
a unit of it and the environment adds nothing. -/
theorem Run.threadSteps_le [Fintype ι] [DecidableEq ι] {m : Machine ι κ ε σ τ}
    {c₀ : Config ι σ τ} {φ : σ → ℤ} {w : τ → ℤ} {ok : ε → Prop}
    (hact : ∀ h c i k s' t', Run m c₀ h c → m.act i k c.shared (c.locals i) = some (s',t') →
      φ s'+w t'+1 ≤ φ c.shared+w (c.locals i))
    (henv : ∀ e s s', ok e → m.env e s = some s' → φ s' ≤ φ s)
    {h : List (Event ι κ ε σ τ)} {c : Config ι σ τ} (hr : Run m c₀ h c)
    (hok : EnvWithin ok h) :
    threadSteps h+φ c.shared+total w c.locals ≤ φ c₀.shared+total w c₀.locals := by
  induction hr with
  | start => simp [threadSteps]
  | @step h c c' l hr hn ih =>
    rw [EnvWithin,List.forall_mem_cons] at hok
    replace ih := ih hok.2
    cases l with
    | thread i k =>
      obtain ⟨s',t',ha,rfl⟩ := Machine.next_thread.mp hn
      obtain ⟨r,hl,hu⟩ := total_split w c.locals i
      have hstep := hact h c i k s' t' hr ha
      rw [hl] at ih
      simp only [threadSteps_thread,hu]
      omega
    | env e =>
      obtain ⟨s',he,rfl⟩ := Machine.next_env.mp hn
      have hstep := henv e _ _ (hok.1 e rfl) he
      simp only [threadSteps_env]
      omega

end

end Interleaving
