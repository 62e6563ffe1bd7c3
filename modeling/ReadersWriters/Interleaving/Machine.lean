import Mathlib.Logic.Function.Basic
set_option autoImplicit false

namespace Interleaving

/-- Threads `ι` over one shared store `σ`, each with a private state `τ`. The
choice `κ` resolves what a thread step leaves open; the environment `ε` changes
the store alone. -/
structure Machine (ι κ ε σ τ : Type) where
  act : ι → κ → σ → τ → Option (σ × τ)
  env : ε → σ → Option σ

structure Config (ι σ τ : Type) where
  shared : σ
  locals : ι → τ

inductive Label (ι κ ε : Type) where
  | thread : ι → κ → Label ι κ ε
  | env : ε → Label ι κ ε

/-- A step of a run: the configuration it starts in and its label. -/
abbrev Event (ι κ ε σ τ : Type) := Config ι σ τ × Label ι κ ε

section
variable {ι κ ε : Type} {k : κ}

/-- Threads take turns, each for a number of steps in a row, with one choice throughout. -/
def turns (k : κ) : List (ι × Nat) → List (Label ι κ ε)
  | [] => []
  | (i,n) :: ts => List.replicate n (.thread i k) ++ turns k ts

theorem thread_of_turns {ts : List (ι × Nat)} {l : Label ι κ ε} (h : l ∈ turns k ts) :
    ∃ i k, l = .thread i k := by
  induction ts with
  | nil => cases h
  | cons t ts ih =>
    rcases List.mem_append.mp h with h | h
    · exact ⟨t.1,k,List.eq_of_mem_replicate h⟩
    · exact ih h

end

/-- The environment does only what `ok` allows. -/
def EnvWithin {ι κ ε σ τ : Type} (ok : ε → Prop) (h : List (Event ι κ ε σ τ)) : Prop :=
  ∀ e ∈ h, ∀ d, e.2 = .env d → ok d

theorem EnvWithin.of_thread {ι κ ε σ τ : Type} {ok : ε → Prop} {h : List (Event ι κ ε σ τ)}
    (hl : ∀ e ∈ h, ∃ i k, e.2 = .thread i k) : EnvWithin ok h := by
  intro e he d hd
  obtain ⟨i,k,hk⟩ := hl e he
  rw [hk] at hd
  cases hd

theorem EnvWithin.append {ι κ ε σ τ : Type} {ok : ε → Prop} {h h' : List (Event ι κ ε σ τ)}
    (hh : EnvWithin ok h) (hh' : EnvWithin ok h') : EnvWithin ok (h' ++ h) :=
  fun e he => (List.mem_append.mp he).elim (hh' e) (hh e)

section
variable {ι κ ε σ τ : Type} [DecidableEq ι]

def Machine.next (m : Machine ι κ ε σ τ) (c : Config ι σ τ) :
    Label ι κ ε → Option (Config ι σ τ)
  | .thread i k => (m.act i k c.shared (c.locals i)).map
      fun r => ⟨r.1,Function.update c.locals i r.2⟩
  | .env e => (m.env e c.shared).map fun s => ⟨s,c.locals⟩

theorem Machine.next_thread {m : Machine ι κ ε σ τ} {c c' : Config ι σ τ} {i : ι} {k : κ} :
    m.next c (.thread i k) = some c' ↔ ∃ s t,
      m.act i k c.shared (c.locals i) = some (s,t) ∧ c' = ⟨s,Function.update c.locals i t⟩ := by
  constructor
  · intro h
    obtain ⟨⟨s,t⟩,hs,rfl⟩ := Option.map_eq_some_iff.mp h
    exact ⟨s,t,hs,rfl⟩
  · rintro ⟨s,t,hs,rfl⟩
    simp [next,hs]

theorem Machine.next_env {m : Machine ι κ ε σ τ} {c c' : Config ι σ τ} {e : ε} :
    m.next c (.env e) = some c' ↔ ∃ s, m.env e c.shared = some s ∧ c' = ⟨s,c.locals⟩ := by
  constructor
  · intro h
    obtain ⟨s,hs,rfl⟩ := Option.map_eq_some_iff.mp h
    exact ⟨s,hs,rfl⟩
  · rintro ⟨s,hs,rfl⟩
    simp [next,hs]

/-- Thread `i` has a step for some resolution of its choice. -/
def Machine.Enabled (m : Machine ι κ ε σ τ) (c : Config ι σ τ) (i : ι) : Prop :=
  ∃ k, (m.act i k c.shared (c.locals i)).isSome

/-- Finite runs with their history, newest event first. -/
inductive Run (m : Machine ι κ ε σ τ) (c₀ : Config ι σ τ) :
    List (Event ι κ ε σ τ) → Config ι σ τ → Prop where
  | start : Run m c₀ [] c₀
  | step {h : List (Event ι κ ε σ τ)} {c c' : Config ι σ τ} {l : Label ι κ ε} :
      Run m c₀ h c → m.next c l = some c' → Run m c₀ ((c,l) :: h) c'

variable {m : Machine ι κ ε σ τ} {c₀ : Config ι σ τ}

/-- What every step allowed by `ok` preserves holds after every run of allowed steps. -/
theorem Run.invariant {ok : Event ι κ ε σ τ → Prop} {P : Config ι σ τ → Prop} (h₀ : P c₀)
    (hstep : ∀ c l c', P c → ok (c,l) → m.next c l = some c' → P c')
    {h : List (Event ι κ ε σ τ)} {c : Config ι σ τ} (hr : Run m c₀ h c)
    (hok : ∀ e ∈ h, ok e) : P c := by
  induction hr with
  | start => exact h₀
  | step _ hn ih =>
    rw [List.forall_mem_cons] at hok
    exact hstep _ _ _ (ih hok.2) hok.1 hn

/-- What every step preserves holds after every run. -/
theorem Run.always {P : Config ι σ τ → Prop} (h₀ : P c₀)
    (hstep : ∀ c l c', P c → m.next c l = some c' → P c')
    {h : List (Event ι κ ε σ τ)} {c : Config ι σ τ} (hr : Run m c₀ h c) : P c := by
  induction hr with
  | start => exact h₀
  | step _ hn ih => exact hstep _ _ _ ih hn

/-- The configurations that a run of allowed steps goes through have the property as well. -/
theorem Run.invariant_events {ok : Event ι κ ε σ τ → Prop} {P : Config ι σ τ → Prop} (h₀ : P c₀)
    (hstep : ∀ c l c', P c → ok (c,l) → m.next c l = some c' → P c')
    {h : List (Event ι κ ε σ τ)} {c : Config ι σ τ} (hr : Run m c₀ h c)
    (hok : ∀ e ∈ h, ok e) : ∀ e ∈ h, P e.1 := by
  induction hr with
  | start => exact fun e he => by cases he
  | step hr _ ih =>
    rw [List.forall_mem_cons] at hok ⊢
    exact ⟨hr.invariant h₀ hstep hok.2,ih hok.2⟩

theorem Run.always_events {P : Config ι σ τ → Prop} (h₀ : P c₀)
    (hstep : ∀ c l c', P c → m.next c l = some c' → P c')
    {h : List (Event ι κ ε σ τ)} {c : Config ι σ τ} (hr : Run m c₀ h c) : ∀ e ∈ h, P e.1 := by
  induction hr with
  | start => exact fun e he => by cases he
  | step hr _ ih => exact List.forall_mem_cons.mpr ⟨hr.always h₀ hstep,ih⟩

/-- A flag of the store that is set only by a thread in a certain state, and is cleared by
whoever leaves that state, has such a thread. -/
theorem Run.witnessed {F : σ → Prop} {P : τ → Prop} (h₀ : ¬ F c₀.shared)
    (hact : ∀ i k s t s' t', m.act i k s t = some (s',t') → F s' → P t' ∨ F s ∧ ¬ P t)
    (henv : ∀ e s s', m.env e s = some s' → F s' → F s)
    {h : List (Event ι κ ε σ τ)} {c : Config ι σ τ} (hr : Run m c₀ h c) :
    F c.shared → ∃ i, P (c.locals i) := by
  refine hr.always (P := fun c => F c.shared → ∃ i, P (c.locals i)) (fun hf => absurd hf h₀) ?_
  rintro c (⟨i,k⟩ | e) c' hc hn hf
  · obtain ⟨s',t',ha,rfl⟩ := Machine.next_thread.mp hn
    rcases hact i k _ _ _ _ ha hf with hp | ⟨hf',hp⟩
    · exact ⟨i,by simpa only [Function.update_self] using hp⟩
    · obtain ⟨j,hj⟩ := hc hf'
      have hji : j ≠ i := by
        rintro rfl
        exact hp hj
      exact ⟨j,by simpa only [Function.update_of_ne hji] using hj⟩
  · obtain ⟨s',he,rfl⟩ := Machine.next_env.mp hn
    exact hc (henv e _ _ he hf)

theorem Run.next_of_mem {h : List (Event ι κ ε σ τ)} {c : Config ι σ τ} (hr : Run m c₀ h c)
    {e : Event ι κ ε σ τ} (he : e ∈ h) : ∃ c', m.next e.1 e.2 = some c' := by
  induction hr with
  | start => cases he
  | step _ hn ih =>
    cases he with
    | head => exact ⟨_,hn⟩
    | tail _ he => exact ih he

theorem Run.append {h h' : List (Event ι κ ε σ τ)} {c c' : Config ι σ τ}
    (hr : Run m c₀ h c) (hr' : Run m c h' c') : Run m c₀ (h' ++ h) c' := by
  induction hr' with
  | start => exact hr
  | step _ hn ih => exact ih.step hn

/-- A run stops where its history does. -/
theorem Run.split {h h' : List (Event ι κ ε σ τ)} {c : Config ι σ τ}
    (hr : Run m c₀ (h' ++ h) c) : ∃ c', Run m c₀ h c' ∧ Run m c' h' c := by
  induction h' generalizing c with
  | nil => exact ⟨c,hr,.start⟩
  | cons e h' ih =>
    obtain ⟨⟩ := hr
    rename_i l hr hn
    obtain ⟨c',hr,hr'⟩ := ih hr
    exact ⟨c',hr,hr'.step hn⟩

/-- Follow a schedule, given oldest label first. -/
def Machine.exec (m : Machine ι κ ε σ τ) : List (Label ι κ ε) → Config ι σ τ →
    Option (Config ι σ τ)
  | [], c => some c
  | l :: ls, c => (m.next c l).bind (m.exec ls)

/-- The history of a schedule. -/
def Machine.events (m : Machine ι κ ε σ τ) : List (Label ι κ ε) → Config ι σ τ →
    List (Event ι κ ε σ τ)
  | [], _ => []
  | l :: ls, c => (m.next c l).elim [] (m.events ls) ++ [(c,l)]

theorem Run.events (ls : List (Label ι κ ε)) {c c' : Config ι σ τ} (h : m.exec ls c = some c') :
    Run m c (m.events ls c) c' := by
  induction ls generalizing c with
  | nil =>
    cases h
    exact .start
  | cons l ls ih =>
    obtain ⟨c₁,hn,hx⟩ := Option.bind_eq_some_iff.mp h
    simp only [Machine.events,hn,Option.elim_some]
    exact (Run.step .start hn).append (ih hx)

theorem Run.of_exec (ls : List (Label ι κ ε)) {c c' : Config ι σ τ}
    (h : m.exec ls c = some c') : ∃ h, Run m c h c' ∧ h.map Prod.snd = ls.reverse := by
  induction ls generalizing c with
  | nil =>
    cases h
    exact ⟨[],.start,rfl⟩
  | cons l ls ih =>
    obtain ⟨c₁,hn,hx⟩ := Option.bind_eq_some_iff.mp h
    obtain ⟨h,hr,hl⟩ := ih hx
    refine ⟨h ++ [(c,l)],(Run.step .start hn).append hr,?_⟩
    simp [hl]

theorem Run.of_turns (k : κ) (ts : List (ι × Nat)) {c c' : Config ι σ τ}
    (h : m.exec (turns k ts) c = some c') :
    ∃ h, Run m c h c' ∧ (∀ e ∈ h, ∃ i k, e.2 = .thread i k) ∧
      h.length = (turns (ε := ε) k ts).length := by
  obtain ⟨h,hr,hl⟩ := of_exec _ h
  refine ⟨h,hr,fun e he => thread_of_turns (?_ : e.2 ∈ turns k ts),?_⟩
  · rw [← List.mem_reverse,← hl]
    exact List.mem_map_of_mem he
  · have hlen := congrArg List.length hl
    rwa [List.length_map,List.length_reverse] at hlen

end

/-- `m'` simulates `m`: a step of `m` is one step of `m'` or leaves its view unchanged. -/
structure Simulation {ι κ ε σ τ κ' ε' σ' τ' : Type} [DecidableEq ι]
    (m : Machine ι κ ε σ τ) (m' : Machine ι κ' ε' σ' τ') where
  view : Config ι σ τ → Config ι σ' τ'
  label : Event ι κ ε σ τ → Option (Label ι κ' ε')
  silent : ∀ {c l c'}, m.next c l = some c' → label (c,l) = none → view c' = view c
  visible : ∀ {c l c' l'}, m.next c l = some c' → label (c,l) = some l' →
    m'.next (view c) l' = some (view c')

section
variable {ι κ ε σ τ κ' ε' σ' τ' : Type} [DecidableEq ι]
  {m : Machine ι κ ε σ τ} {m' : Machine ι κ' ε' σ' τ'}

def Simulation.event (S : Simulation m m') (e : Event ι κ ε σ τ) :
    Option (Event ι κ' ε' σ' τ') := (S.label e).map fun l => (S.view e.1,l)

def Simulation.history (S : Simulation m m') (h : List (Event ι κ ε σ τ)) :
    List (Event ι κ' ε' σ' τ') := h.filterMap S.event

theorem Simulation.history_visible (S : Simulation m m') {e : Event ι κ ε σ τ}
    {h : List (Event ι κ ε σ τ)} {l' : Label ι κ' ε'} (hl : S.label e = some l') :
    S.history (e :: h) = (S.view e.1,l') :: S.history h := by
  simp [history,event,hl]

theorem Simulation.history_silent (S : Simulation m m') {e : Event ι κ ε σ τ}
    {h : List (Event ι κ ε σ τ)} (hl : S.label e = none) : S.history (e :: h) = S.history h := by
  simp [history,event,hl]

theorem Simulation.history_append (S : Simulation m m') (h h' : List (Event ι κ ε σ τ)) :
    S.history (h ++ h') = S.history h ++ S.history h' := List.filterMap_append ..

theorem Simulation.run (S : Simulation m m') {c₀ c : Config ι σ τ}
    {h : List (Event ι κ ε σ τ)} (hr : Run m c₀ h c) :
    Run m' (S.view c₀) (S.history h) (S.view c) := by
  induction hr with
  | start => exact .start
  | @step h c c' l _ hn ih =>
    cases hl : S.label (c,l) with
    | none =>
      rw [S.history_silent hl,S.silent hn hl]
      exact ih
    | some l' =>
      rw [S.history_visible hl]
      exact ih.step (S.visible hn hl)

/-- A simulation that reads the store and each private state by themselves. -/
def Simulation.ofThreads (f : σ → σ') (g : τ → τ') (lab : κ → σ → τ → Option κ')
    (envLab : ε → Option ε')
    (hsilent : ∀ {i k s t s' t'}, m.act i k s t = some (s',t') → lab k s t = none →
      f s' = f s ∧ g t' = g t)
    (hvisible : ∀ {i k s t s' t' k'}, m.act i k s t = some (s',t') → lab k s t = some k' →
      m'.act i k' (f s) (g t) = some (f s',g t'))
    (henvSilent : ∀ {e s s'}, m.env e s = some s' → envLab e = none → f s' = f s)
    (henvVisible : ∀ {e s s' e'}, m.env e s = some s' → envLab e = some e' →
      m'.env e' (f s) = some (f s')) : Simulation m m' where
  view c := ⟨f c.shared,g ∘ c.locals⟩
  label
    | (c,.thread i k) => (lab k c.shared (c.locals i)).map (.thread i)
    | (_,.env e) => (envLab e).map .env
  silent := by
    intro c l c' hn hl
    cases l with
    | thread i k =>
      obtain ⟨s,t,ha,rfl⟩ := Machine.next_thread.mp hn
      obtain ⟨hf,hg⟩ := hsilent ha (Option.map_eq_none_iff.mp hl)
      simp only [hf,Function.comp_update,hg]
      rw [← Function.comp_apply (f := g),Function.update_eq_self]
    | env e =>
      obtain ⟨s,he,rfl⟩ := Machine.next_env.mp hn
      simp only [henvSilent he (Option.map_eq_none_iff.mp hl)]
  visible := by
    intro c l c' l' hn hl
    cases l with
    | thread i k =>
      obtain ⟨s,t,ha,rfl⟩ := Machine.next_thread.mp hn
      obtain ⟨k',hk,rfl⟩ := Option.map_eq_some_iff.mp hl
      exact Machine.next_thread.mpr ⟨_,_,hvisible ha hk,by rw [Function.comp_update]⟩
    | env e =>
      obtain ⟨s,he,rfl⟩ := Machine.next_env.mp hn
      obtain ⟨e',hk,rfl⟩ := Option.map_eq_some_iff.mp hl
      exact Machine.next_env.mpr ⟨_,henvVisible he hk,rfl⟩

theorem Simulation.mem_history (S : Simulation m m') {h : List (Event ι κ ε σ τ)}
    {e' : Event ι κ' ε' σ' τ'} :
    e' ∈ S.history h ↔ ∃ e ∈ h, S.event e = some e' := List.mem_filterMap

/-- What the environment does not do is not in a view of the run either. -/
theorem EnvWithin.history (S : Simulation m m') {ok : ε → Prop} {ok' : ε' → Prop}
    (hl : ∀ c l e', S.label (c,l) = some (.env e') → ∃ e, l = .env e ∧ (ok e → ok' e'))
    {h : List (Event ι κ ε σ τ)} (hh : EnvWithin ok h) : EnvWithin ok' (S.history h) := by
  intro e' he' d' hd'
  obtain ⟨⟨c,l⟩,he,hv⟩ := S.mem_history.mp he'
  obtain ⟨l',hl',rfl⟩ := Option.map_eq_some_iff.mp hv
  obtain ⟨d,hd,hok⟩ := hl c l d' (hl'.trans (congrArg some hd'))
  exact hok (hh _ he d hd)

end

end Interleaving
