import ReadersWriters.Interleaving.Machine
set_option autoImplicit false

namespace Interleaving

section
variable {ι κ ε σ τ η : Type}

/-- The threads of a machine with a variable each that no step depends on. -/
def Machine.noting (m : Machine ι κ ε σ τ) (note : ι → κ → σ → τ → σ → τ → η → η) :
    Machine ι κ ε σ (τ × η) where
  act i k s t := (m.act i k s t.1).map fun r => (r.1,r.2,note i k s t.1 r.1 r.2 t.2)
  env := m.env

def Config.noting (c : Config ι σ τ) (n : ι → η) : Config ι σ (τ × η) where
  shared := c.shared
  locals i := (c.locals i,n i)

variable [DecidableEq ι] {m : Machine ι κ ε σ τ} {note : ι → κ → σ → τ → σ → τ → η → η}

theorem noting_cases {c c' : Config ι σ (τ × η)} {i : ι} {k : κ}
    (hn : (m.noting note).next c (.thread i k) = some c') : ∃ s t,
    m.act i k c.shared (c.locals i).1 = some (s,t) ∧ c' = ⟨s,Function.update c.locals i
      (t,note i k c.shared (c.locals i).1 s t (c.locals i).2)⟩ := by
  obtain ⟨s,t,ha,rfl⟩ := Machine.next_thread.mp hn
  obtain ⟨⟨s₁,t₁⟩,hs,he⟩ := Option.map_eq_some_iff.mp ha
  cases he
  exact ⟨_,_,hs,rfl⟩

/-- The machine without the variables. -/
def Machine.unnoted (m : Machine ι κ ε σ τ) (note : ι → κ → σ → τ → σ → τ → η → η) :
    Simulation (m.noting note) m :=
  .ofThreads id Prod.fst (fun k _ _ => some k) some
    (fun _ hc => by cases hc)
    (fun h hc => by
      cases hc
      obtain ⟨⟨s,t⟩,hs,he⟩ := Option.map_eq_some_iff.mp h
      cases he
      exact hs)
    (fun _ hc => by cases hc)
    (fun h hc => by
      cases hc
      exact h)

/-- The variables keep the machine from nothing. -/
theorem Run.noting {c₀ c : Config ι σ τ} {h : List (Event ι κ ε σ τ)} (hr : Run m c₀ h c)
    (note : ι → κ → σ → τ → σ → τ → η → η) (n : ι → η) :
    ∃ h' c', Run (m.noting note) (c₀.noting n) h' c' ∧ (m.unnoted note).history h' = h ∧
      (m.unnoted note).view c' = c := by
  induction hr with
  | start => exact ⟨[],_,.start,rfl,rfl⟩
  | @step h c c₁ l _ hn ih =>
    obtain ⟨h',c',hr',rfl,rfl⟩ := ih
    cases l with
    | thread i k =>
      obtain ⟨s,t,ha,rfl⟩ := Machine.next_thread.mp hn
      have hx : (m.noting note).next c' (.thread i k) = some ⟨s,Function.update c'.locals i
          (t,note i k c'.shared (c'.locals i).1 s t (c'.locals i).2)⟩ :=
        Machine.next_thread.mpr ⟨_,_,congrArg (Option.map _) ha,rfl⟩
      refine ⟨_,_,hr'.step hx,rfl,?_⟩
      simp only [Machine.unnoted,Simulation.ofThreads,Function.comp_update,id_eq]
    | env e =>
      obtain ⟨s,he,rfl⟩ := Machine.next_env.mp hn
      exact ⟨_,_,hr'.step (Machine.next_env.mpr ⟨s,he,rfl⟩),rfl,rfl⟩

end

end Interleaving
