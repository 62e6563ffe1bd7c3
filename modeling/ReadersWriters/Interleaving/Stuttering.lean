import ReadersWriters.Interleaving.Machine
set_option autoImplicit false

namespace Interleaving

section
variable {ι κ ε σ τ : Type}

/-- Any number of steps of thread `i` in a row, as a relation of the store and its state. -/
inductive Solo (m : Machine ι κ ε σ τ) (i : ι) : σ → τ → σ → τ → Prop where
  | refl {s : σ} {t : τ} : Solo m i s t s t
  | step {k : κ} {s s' s'' : σ} {t t' t'' : τ} :
      m.act i k s t = some (s',t') → Solo m i s' t' s'' t'' → Solo m i s t s'' t''

variable {m : Machine ι κ ε σ τ} {i : ι} {s s' s'' : σ} {t t' t'' : τ}

theorem Solo.one {k : κ} (h : m.act i k s t = some (s',t')) : Solo m i s t s' t' := .step h .refl

theorem Solo.trans (h : Solo m i s t s' t') (h' : Solo m i s' t' s'' t'') :
    Solo m i s t s'' t'' := by
  induction h with
  | refl => exact h'
  | step ha _ ih => exact .step ha (ih h')

theorem Solo.run [DecidableEq ι] (hs : Solo m i s t s' t') {c : Config ι σ τ}
    (hc : c.shared = s) (hi : c.locals i = t) : ∃ h,
    Run m c h ⟨s',Function.update c.locals i t'⟩ ∧ ∀ e ∈ h, ∃ j k, e.2 = .thread j k := by
  induction hs generalizing c with
  | refl =>
    subst hc hi
    rw [Function.update_eq_self]
    exact ⟨[],.start,fun e he => by cases he⟩
  | @step k s s₁ s₂ t t₁ t₂ ha _ ih =>
    subst hc hi
    have hn : m.next c (.thread i k) = some ⟨s₁,Function.update c.locals i t₁⟩ :=
      Machine.next_thread.mpr ⟨s₁,t₁,ha,rfl⟩
    obtain ⟨h,hr,hl⟩ := ih (c := ⟨s₁,Function.update c.locals i t₁⟩) rfl (by simp)
    simp only [Function.update_idem] at hr
    refine ⟨h ++ [(c,.thread i k)],(Run.step .start hn).append hr,fun e he => ?_⟩
    rcases List.mem_append.mp he with he | he
    · exact hl e he
    · rw [List.mem_singleton.mp he]
      exact ⟨i,k,rfl⟩

end

section
variable {ι κ ε σ τ κ' ε' σ' τ' : Type} [DecidableEq ι]
  {m : Machine ι κ ε σ τ} {m' : Machine ι κ' ε' σ' τ'}

/-- A relation of two machines' configurations that steps of `m` keep if `m'` answers each
step of a thread with steps of the same thread, possibly none, and each move of the
environment with one move. -/
structure Matching (m : Machine ι κ ε σ τ) (m' : Machine ι κ' ε' σ' τ') (ok : ε → Prop)
    (ok' : ε' → Prop) (R : Config ι σ τ → Config ι σ' τ' → Prop) : Prop where
  thread : ∀ {c c' i k s t}, R c c' → m.act i k c.shared (c.locals i) = some (s,t) →
    ∃ s' t', Solo m' i c'.shared (c'.locals i) s' t' ∧
      R ⟨s,Function.update c.locals i t⟩ ⟨s',Function.update c'.locals i t'⟩
  env : ∀ {c c' e s}, R c c' → ok e → m.env e c.shared = some s →
    ∃ e' s', ok' e' ∧ m'.env e' c'.shared = some s' ∧ R ⟨s,c.locals⟩ ⟨s',c'.locals⟩

theorem Matching.run {ok : ε → Prop} {ok' : ε' → Prop} {R : Config ι σ τ → Config ι σ' τ' → Prop}
    (hM : Matching m m' ok ok' R) {c₀ : Config ι σ τ} {c₀' : Config ι σ' τ'} (h₀ : R c₀ c₀')
    {h : List (Event ι κ ε σ τ)} {c : Config ι σ τ} (hr : Run m c₀ h c) (hok : EnvWithin ok h) :
    ∃ h' c', Run m' c₀' h' c' ∧ EnvWithin ok' h' ∧ R c c' := by
  induction hr with
  | start => exact ⟨[],c₀',.start,fun e he => (List.not_mem_nil he).elim,h₀⟩
  | @step h c c₁ l _ hn ih =>
    rw [EnvWithin,List.forall_mem_cons] at hok
    obtain ⟨h',c',hr',hok',hR⟩ := ih hok.2
    cases l with
    | thread i k =>
      obtain ⟨s,t,ha,rfl⟩ := Machine.next_thread.mp hn
      obtain ⟨s',t',hs,hR'⟩ := hM.thread hR ha
      obtain ⟨h'',hr'',hl⟩ := hs.run rfl rfl
      exact ⟨h'' ++ h',_,hr'.append hr'',hok'.append (.of_thread hl),hR'⟩
    | env e =>
      obtain ⟨s,he,rfl⟩ := Machine.next_env.mp hn
      obtain ⟨e',s',ho,he',hR'⟩ := hM.env hR (hok.1 e rfl) he
      have hn' : m'.next c' (.env e') = some ⟨s',c'.locals⟩ :=
        Machine.next_env.mpr ⟨s',he',rfl⟩
      refine ⟨_,_,hr'.step hn',?_,hR'⟩
      rw [EnvWithin,List.forall_mem_cons]
      refine ⟨fun d hd => ?_,hok'⟩
      cases hd
      exact ho

end

end Interleaving
