import ReadersWriters.Interleaving.Machine
set_option autoImplicit false

namespace Interleaving

section
variable {ι κ ε σ τ β : Type} [DecidableEq β]

/-- Who changed what an observer sees of it, newest change first. The history ends in the
configuration given. -/
def trace (obs : τ → β) : List (Event ι κ ε σ τ) → Config ι σ τ → List (ι × β)
  | [], _ => []
  | (c,.thread i _) :: h, c' =>
      if obs (c'.locals i) = obs (c.locals i) then trace obs h c
      else (i,obs (c'.locals i)) :: trace obs h c
  | (c,.env _) :: h, _ => trace obs h c

variable {o : τ → β} {c c₀ c' : Config ι σ τ} {i : ι} {k : κ} {h h' : List (Event ι κ ε σ τ)}

theorem trace_silent (ho : o (c'.locals i) = o (c.locals i)) :
    trace o ((c,.thread i k) :: h) c' = trace o h c := if_pos ho

theorem trace_visible (ho : o (c'.locals i) ≠ o (c.locals i)) :
    trace o ((c,.thread i k) :: h) c' = (i,o (c'.locals i)) :: trace o h c := if_neg ho

variable [DecidableEq ι] {m : Machine ι κ ε σ τ}

theorem trace_append (hr : Run m c h' c') :
    trace o (h' ++ h) c' = trace o h' c' ++ trace o h c := by
  induction hr with
  | start => rfl
  | @step h' c₁ c₂ l _ hn ih =>
    cases l with
    | thread i k =>
      by_cases ho : o (c₂.locals i) = o (c₁.locals i)
      · rw [List.cons_append,trace_silent ho,trace_silent ho,ih]
      · rw [List.cons_append,trace_visible ho,trace_visible ho,ih,List.cons_append]
    | env e => exact ih

end

/-- A procedure with the program points `P` that runs to its end while nobody else moves: a step
of thread `i` leads to a further point or out of it, with the result `q`. -/
inductive Returns {ι κ σ P Q : Type} (step : ι → κ → σ → P → Option (σ × Q)) (inside : P → Q)
    (i : ι) (q : Q) : σ → P → σ → Prop where
  | last {k : κ} {s s' : σ} {p : P} : step i k s p = some (s',q) → Returns step inside i q s p s'
  | more {k : κ} {s s' s'' : σ} {p p' : P} : step i k s p = some (s',inside p') →
      Returns step inside i q s' p' s'' → Returns step inside i q s p s''

section
variable {ι κ ε σ τ P Q : Type} [DecidableEq ι] {m : Machine ι κ ε σ τ}
  {step : ι → κ → σ → P → Option (σ × Q)} {inside : P → Q} {i : ι} {q : Q} {f : Q → τ}
  {o : τ → Bool} {V : P → Prop}

/-- The first step of a thread in a run of its own. -/
theorem run_cons {c : Config ι σ τ} {i : ι} {k : κ} {s s' : σ} {t t' : τ}
    {h : List (Event ι κ ε σ τ)} (ha : m.act i k c.shared (c.locals i) = some (s,t))
    (hr : Run m ⟨s,Function.update c.locals i t⟩ h
      ⟨s',Function.update (Function.update c.locals i t) i t'⟩) :
    Run m c (h ++ [(c,.thread i k)]) ⟨s',Function.update c.locals i t'⟩ := by
  have hn : m.next c (.thread i k) = some ⟨s,Function.update c.locals i t⟩ :=
    Machine.next_thread.mpr ⟨s,t,ha,rfl⟩
  rw [Function.update_idem] at hr
  exact (Run.step .start hn).append hr

/-- A call that nobody disturbs is a run. If its steps never take back what an observer sees
after the return, the observer sees one change at most. -/
theorem Returns.run (hact : ∀ k s p, m.act i k s (f (inside p)) =
      (step i k s p).map fun r => (r.1,f r.2))
    (hV : ∀ k s p s' p', V p → step i k s p = some (s',inside p') →
      V p' ∧ (o (f (inside p)) = o (f q) → o (f (inside p')) = o (f q)))
    {s s' : σ} {p : P} (hs : Returns step inside i q s p s') (hp : V p)
    {c : Config ι σ τ} (hc : c.shared = s) (hi : c.locals i = f (inside p)) : ∃ h,
    Run m c h ⟨s',Function.update c.locals i (f q)⟩ ∧ (∀ e ∈ h, ∃ j k, e.2 = .thread j k) ∧
      trace o h ⟨s',Function.update c.locals i (f q)⟩ =
        if o (f q) = o (f (inside p)) then [] else [(i,o (f q))] := by
  induction hs generalizing c with
  | @last k s s' p hs =>
    have ha : m.act i k c.shared (c.locals i) = some (s',f q) := by
      rw [hc,hi,hact,hs]
      rfl
    have hn : m.next c (.thread i k) = some ⟨s',Function.update c.locals i (f q)⟩ :=
      Machine.next_thread.mpr ⟨s',f q,ha,rfl⟩
    refine ⟨[(c,.thread i k)],.step .start hn,fun e he => ?_,?_⟩
    · rw [List.mem_singleton.mp he]
      exact ⟨i,k,rfl⟩
    · simp only [trace,Function.update_self,hi]
  | @more k s s₁ s₂ p p' hs _ ih =>
    have ha : m.act i k c.shared (c.locals i) = some (s₁,f (inside p')) := by
      rw [hc,hi,hact,hs]
      rfl
    obtain ⟨hp',hb⟩ := hV k s p s₁ p' hp hs
    obtain ⟨h,hr,hl,ht⟩ := ih hp' (c := ⟨s₁,Function.update c.locals i (f (inside p'))⟩) rfl
      (Function.update_self ..)
    refine ⟨h ++ [(c,.thread i k)],run_cons ha hr,fun e he => ?_,?_⟩
    · rcases List.mem_append.mp he with he | he
      · exact hl e he
      · rw [List.mem_singleton.mp he]
        exact ⟨i,k,rfl⟩
    · have hta := trace_append (o := o) (h := [(c,Label.thread i k)]) hr
      simp only [Function.update_idem] at hta ht
      rw [hta,ht]
      simp only [trace,Function.update_self,hi]
      -- the change is seen at this step, at a later one or was seen before
      cases hq : o (f q) <;> cases hx : o (f (inside p)) <;>
        cases hy : o (f (inside p')) <;> simp_all

end

end Interleaving
