import ReadersWriters.Budget
import ReadersWriters.Interleaving.Stuttering
import ReadersWriters.SimConfig
set_option autoImplicit false

namespace ReadersWriters
open Interleaving

/-- All that a simulation leaves, apart from the process it ran in. -/
structure Ending (ι S R W : Type) where
  lock : S
  opsRemaining : Int
  resource : SharedResource
  workers : ι → Worker R W

section
variable {ι S R W : Type}

def ending (c : Config ι (SimState S) (Worker R W)) : Ending ι S R W where
  lock := c.shared.lock
  opsRemaining := c.shared.opsRemaining
  resource := c.shared.resource
  workers := c.locals

/-- No `SIGUSR1` is delivered. -/
def Unsignalled (h : List (Event ι ι (Disturbance ι) (SimState S) (Worker R W))) : Prop :=
  ∀ e ∈ h, e.2 ≠ .env .sigusr1

/-- The exits of a writer that sees the abort signal, at the head of the loop and after its
admission. -/
def Worker.aborts (s : SimState S) : Worker R W → Bool
  | .writer _ isAbortTarget .abortTest => isAbortTarget && s.process.abortSignalReceived
  | .writer _ isAbortTarget .abortTestHeld => isAbortTarget && s.process.abortSignalReceived
  | _ => false

def isAbortExit (e : Event ι ι (Disturbance ι) (SimState S) (Worker R W)) : Bool :=
  match e.2 with
  | .thread i _ => (e.1.locals i).aborts e.1.shared
  | .env _ => false

end

/-- How the whole simulations that no signal reaches can end. -/
def outcomes {S R W : Type} (cfg : Workload) (L : RWLockBase cfg.Tid S R W) (process : Process) :
    Set (Ending cfg.Tid S R W) :=
  {o | ∃ h c, Run (workers L) (cfg.start L process) h c ∧ Unsignalled h ∧
    (∀ i, (c.locals i).Done) ∧ o = ending c}

/-- In this process the simulation runs as it would in a fresh one. -/
structure LikeFresh (cfg : Workload) (algo : AlgoType) (process : Process) : Prop where
  outcomes_eq : outcomes cfg (algo.lock cfg.Tid) process = outcomes cfg (algo.lock cfg.Tid) {}
  no_abort : ∀ h c, Run (workers (algo.lock cfg.Tid)) (cfg.start (algo.lock cfg.Tid) process) h c →
    Unsignalled h → ∀ e ∈ h, isAbortExit e = false

/-- A call of `runSimulation` that has returned. -/
structure PastRun where
  cfg : Workload
  algo : AlgoType
  history : List (Event cfg.Tid cfg.Tid (Disturbance cfg.Tid) (SimState (algo.Shared cfg.Tid))
    (Worker algo.ReadPC algo.WritePC))

/-- What happens to the state of the process: calls of `runSimulation`, one after another,
and signals between them. -/
inductive Happening where
  | simulation (r : PastRun) | sigusr1

def Happening.Delivers : Happening → Prop
  | .simulation r => ¬ Unsignalled r.history
  | .sigusr1 => True

/-- The life of a process, newest first, with the state it leaves. -/
inductive Session : List Happening → Process → Prop where
  | fresh : Session [] {}
  | simulation {hs : List Happening} {process : Process} (r : PastRun)
      {c : Config r.cfg.Tid (SimState (r.algo.Shared r.cfg.Tid))
        (Worker r.algo.ReadPC r.algo.WritePC)} :
      Session hs process →
      Run (workers (r.algo.lock r.cfg.Tid)) (r.cfg.start (r.algo.lock r.cfg.Tid) process)
        r.history c →
      (∀ i, (c.locals i).Done) → Session (.simulation r :: hs) c.shared.process
  | sigusr1 {hs : List Happening} {process : Process} : Session hs process →
      process.handlerInstalled = true →
      Session (.sigusr1 :: hs) { process with abortSignalReceived := true }

def Worker.isAbortTarget {R W : Type} : Worker R W → Bool
  | .reader _ _ => false
  | .writer _ isAbortTarget _ => isAbortTarget

section
variable {ι S R W : Type} {L : RWLockBase ι S R W} {i w : ι} {s s' : SimState S}
  {t t' : Worker R W} {p : Process}

theorem isAbortTarget_step (h : (workers L).act i w s t = some (s',t')) :
    t'.isAbortTarget = t.isAbortTarget := by
  cases workers_cases h with
  | reader h => rfl
  | writer h => rfl

theorem aborts_eq_false (h : t.isAbortTarget = false ∨ s.process.abortSignalReceived = false) :
    t.aborts s = false := by
  cases t with
  | reader => rfl
  | writer info b pc =>
    cases pc <;> try rfl
    all_goals rcases h with h | h <;> simp_all [Worker.aborts,Worker.isAbortTarget]

/-- In another process the step is the same, if the flags agree or the thread does not look. -/
theorem act_process (h : (workers L).act i w s t = some (s',t'))
    (hf : p.abortSignalReceived = s.process.abortSignalReceived ∨ t.isAbortTarget = false) :
    ∃ p', (workers L).act i w { s with process := p } t = some ({ s' with process := p' },t') ∧
      p'.abortSignalReceived = p.abortSignalReceived := by
  cases t with
  | reader info pc =>
    refine ⟨p,?_,rfl⟩
    cases pc
    case call q =>
      obtain ⟨⟨s₁,info',pc'⟩,hs,he⟩ := Option.map_eq_some_iff.mp h
      cases he
      obtain ⟨⟨l,q'⟩,hq,he⟩ := Option.map_eq_some_iff.mp hs
      cases he
      simp [workers,readerThread,hq]
    case done => cases h
    all_goals
      cases h
      rfl
  | writer info b pc =>
    cases pc
    case sigaction =>
      cases b <;> cases h
      · exact ⟨p,rfl,rfl⟩
      · exact ⟨{ p with handlerInstalled := true },rfl,rfl⟩
    case abortTest | abortTestHeld =>
      cases h
      refine ⟨p,?_,rfl⟩
      rcases hf with hf | hf
      · simp [workers,writerThread,hf]
      · obtain rfl : b = false := hf
        rfl
    case done => cases h
    case call a q =>
      refine ⟨p,?_,rfl⟩
      obtain ⟨⟨s₁,info',pc'⟩,hs,he⟩ := Option.map_eq_some_iff.mp h
      cases he
      obtain ⟨⟨l,q'⟩,hq,he⟩ := Option.map_eq_some_iff.mp hs
      cases he
      simp [workers,writerThread,hq]
    all_goals
      cases h
      exact ⟨p,rfl,rfl⟩

/-- The same configuration but for the process, whose flag is the same or concerns no thread. -/
def AsideProcess (c c' : Config ι (SimState S) (Worker R W)) : Prop :=
  ∃ p, c' = ⟨{ c.shared with process := p },c.locals⟩ ∧
    (p.abortSignalReceived = c.shared.process.abortSignalReceived ∨
      ∀ i, (c.locals i).isAbortTarget = false)

variable [DecidableEq ι]

theorem isAbortTarget_update {c : Config ι (SimState S) (Worker R W)}
    (ha : (workers L).act i w c.shared (c.locals i) = some (s',t'))
    (h : ∀ j, (c.locals j).isAbortTarget = false) (j : ι) :
    (Function.update c.locals i t' j).isAbortTarget = false := by
  by_cases hji : j = i
  · subst hji
    rw [Function.update_self,isAbortTarget_step ha,h]
  · rw [Function.update_of_ne hji,h]

theorem asideProcess_matching (L : RWLockBase ι S R W) :
    Matching (workers L) (workers L) (· ≠ .sigusr1) (· ≠ .sigusr1) AsideProcess where
  thread := by
    rintro c c' i k s t ⟨p,rfl,hf⟩ ha
    have hfi := hf.imp_right fun h => h i
    obtain ⟨p',ha',hp'⟩ := act_process ha hfi
    refine ⟨_,_,.one ha',p',rfl,?_⟩
    rcases hf with hf | hf
    · exact .inl (by rw [hp',hf]; exact (abortSignalReceived_step ha).symm)
    · exact .inr (isAbortTarget_update ha hf)
  env := by
    rintro c c' e s ⟨p,rfl,hf⟩ hok he
    cases disturbance_cases he with
    | @spuriousWake i l hl =>
      refine ⟨.spuriousWake i,_,by simp,?_,p,rfl,hf⟩
      simp [workers,hl]
    | sigusr1 => exact absurd rfl hok

end

theorem unsignalled_iff {ι S R W : Type}
    {h : List (Event ι ι (Disturbance ι) (SimState S) (Worker R W))} :
    Unsignalled h ↔ EnvWithin (· ≠ .sigusr1) h := by
  refine forall₂_congr fun e _ => ⟨fun hn d hd => ?_,fun hn he => hn _ he rfl⟩
  rintro rfl
  exact hn hd

section
variable {cfg : Workload} {S R W : Type} {L : RWLockBase cfg.Tid S R W} {p q : Process}

/-- Only a writer can be the abort target. -/
theorem isAbortTarget_start (hn : cfg.numWriters = 0) (i : cfg.Tid) :
    ((cfg.start L p).locals i).isAbortTarget = false := by
  have hi := i.isLt
  have hw : cfg.isWriter i = false := by
    rw [Workload.isWriter,decide_eq_false_iff_not]
    omega
  simp [Workload.start,hw,Worker.isAbortTarget]

theorem outcomes_subset
    (hf : q.abortSignalReceived = p.abortSignalReceived ∨ cfg.numWriters = 0) :
    outcomes cfg L p ⊆ outcomes cfg L q := by
  rintro o ⟨h,c,hr,hu,hd,rfl⟩
  have h₀ : AsideProcess (cfg.start L p) (cfg.start L q) :=
    ⟨q,rfl,hf.imp_right fun hn => isAbortTarget_start hn⟩
  obtain ⟨h',c',hr',hu',p',rfl,-⟩ := (asideProcess_matching L).run h₀ hr (unsignalled_iff.mp hu)
  exact ⟨h',_,hr',unsignalled_iff.mpr hu',hd,rfl⟩

/-- The flag is set by a delivery and by nothing else, and never reset. -/
theorem abort_flag_run {ι : Type} [DecidableEq ι] {L : RWLockBase ι S R W}
    {h : List (Event ι ι (Disturbance ι) (SimState S) (Worker R W))}
    {c₀ c : Config ι (SimState S) (Worker R W)} (hr : Run (workers L) c₀ h c) :
    c.shared.process.abortSignalReceived = true ↔
      c₀.shared.process.abortSignalReceived = true ∨ ¬ Unsignalled h := by
  induction hr with
  | start => simp [Unsignalled]
  | @step h c c' l _ hn ih =>
    have hcons : ¬ Unsignalled ((c,l) :: h) ↔ l = .env .sigusr1 ∨ ¬ Unsignalled h := by
      simp only [Unsignalled,List.forall_mem_cons]
      tauto
    rw [hcons]
    rcases l with ⟨i,k⟩ | e
    · obtain ⟨s,t,ha,rfl⟩ := Machine.next_thread.mp hn
      simpa only [abortSignalReceived_step ha,reduceCtorEq,false_or] using ih
    · obtain ⟨s,he,rfl⟩ := Machine.next_env.mp hn
      cases disturbance_cases he with
      | spuriousWake => simpa using ih
      | sigusr1 => simp

end

theorem session_flag {hs : List Happening} {process : Process} (h : Session hs process) :
    process.abortSignalReceived = true ↔ ∃ d ∈ hs, d.Delivers := by
  induction h with
  | fresh => simp
  | simulation r _ hr _ ih =>
    rw [abort_flag_run hr,List.exists_mem_cons_iff]
    exact (Iff.or ih Iff.rfl).trans or_comm
  | sigusr1 => simp [Happening.Delivers]

section
variable {cfg : Workload} {algo : AlgoType} {process : Process}
  {h : List (Event cfg.Tid cfg.Tid (Disturbance cfg.Tid) (SimState (algo.Shared cfg.Tid))
    (Worker algo.ReadPC algo.WritePC))}
  {c : Config cfg.Tid (SimState (algo.Shared cfg.Tid)) (Worker algo.ReadPC algo.WritePC)}

/-- Nobody has a reason to take an abort exit. -/
def Harmless {ι S R W : Type} (c : Config ι (SimState S) (Worker R W)) : Prop :=
  c.shared.process.abortSignalReceived = false ∨ ∀ i, (c.locals i).isAbortTarget = false

/-- Without the flag, or without a writer, nobody takes an abort exit. -/
theorem no_abort_exit (hf : process.abortSignalReceived = false ∨ cfg.numWriters = 0)
    (hr : Run (workers (algo.lock cfg.Tid)) (cfg.start (algo.lock cfg.Tid) process) h c)
    (hu : Unsignalled h) : ∀ e ∈ h, isAbortExit e = false := by
  have hsafe : ∀ e ∈ h, Harmless e.1 := by
    refine hr.invariant_events (P := Harmless) (hf.imp_right isAbortTarget_start) ?_
      (show ∀ e ∈ h, e.2 ≠ .env .sigusr1 from hu)
    rintro c (⟨i,k⟩ | e) c' hc hl hn
    · obtain ⟨s,t,ha,rfl⟩ := Machine.next_thread.mp hn
      exact hc.imp (fun hf => (abortSignalReceived_step ha).trans hf) (isAbortTarget_update ha)
    · obtain ⟨s,he,rfl⟩ := Machine.next_env.mp hn
      cases disturbance_cases he with
      | spuriousWake => exact hc
      | sigusr1 => exact absurd rfl hl
  intro e he
  obtain ⟨c,l⟩ := e
  cases l with
  | thread i k => exact aborts_eq_false ((hsafe _ he).symm.imp_left fun h => h i)
  | env d => rfl

/-- With the flag set the abort target leaves at the head of its loop. -/
theorem abort_exit (cfg : Workload) (algo : AlgoType) (ht : cfg.enableAbortTest = true) (hn : cfg.numWriters ≠ 0)
    (hf : process.abortSignalReceived = true) : ∃ h c,
    Run (workers (algo.lock cfg.Tid)) (cfg.start (algo.lock cfg.Tid) process) h c ∧
      Unsignalled h ∧ ∃ e ∈ h, isAbortExit e = true := by
  let i : cfg.Tid := ⟨cfg.numReaders,by omega⟩
  have hstart : ((cfg.start (algo.lock cfg.Tid) process).locals i) = .writer {} true .sigaction := by
    simp [Workload.start,Workload.isWriter,Workload.isAbortTarget,i,ht]
  obtain ⟨s,hs,hsolo⟩ : ∃ s, s.process.abortSignalReceived = true ∧
      Solo (workers (algo.lock cfg.Tid)) i (cfg.start (algo.lock cfg.Tid) process).shared
        (.writer {} true .sigaction) s (.writer {} true .abortTest) :=
    ⟨_,hf,.step (k := i) rfl (.one (k := i) rfl)⟩
  obtain ⟨h,hr,hl⟩ := hsolo.run rfl hstart
  refine ⟨_,_,hr.step (l := .thread i i) (Machine.next_thread.mpr
    ⟨s,.writer {} true .finish,?_,rfl⟩),?_,_,List.mem_cons_self,?_⟩
  · simp [workers,writerThread,hs]
  · refine List.forall_mem_cons.mpr ⟨by simp,fun e he hs => ?_⟩
    obtain ⟨j,k,hk⟩ := hl e he
    cases hk.symm.trans hs
  · simp only [isAbortExit,Function.update_self]
    exact hs

end

/-- A simulation that no signal reaches runs as in a fresh process exactly if no signal was
delivered earlier in the life of the process, or if there is no writer to be aborted. -/
theorem like_fresh_iff {hs : List Happening} {process : Process} (h : Session hs process)
    (cfg : Workload) (algo : AlgoType) (ht : cfg.enableAbortTest = true) :
    LikeFresh cfg algo process ↔ (∀ d ∈ hs, ¬ d.Delivers) ∨ cfg.numWriters = 0 := by
  have hflag : (∀ d ∈ hs, ¬ d.Delivers) ↔ process.abortSignalReceived = false := by
    rw [← Bool.not_eq_true,session_flag h]
    simp only [not_exists,not_and]
  rw [hflag]
  constructor
  · rintro ⟨-,hno⟩
    by_contra hn
    obtain ⟨hf,hw⟩ := not_or.mp hn
    obtain ⟨h',c,hr,hu,e,he,ha⟩ := abort_exit cfg algo ht hw (by simpa using hf)
    exact Bool.false_ne_true ((hno h' c hr hu e he).symm.trans ha)
  · intro hf
    refine ⟨Set.Subset.antisymm (outcomes_subset ?_) (outcomes_subset ?_),
      fun h' c hr hu => no_abort_exit hf hr hu⟩
    · exact hf.imp_left Eq.symm
    · exact hf.imp_left id

/-- After an undisturbed simulation, which leaves the handler installed. -/
theorem like_fresh_iff_witness : ∃ hs process, Session hs process ∧ hs ≠ [] ∧
    process.handlerInstalled = true ∧ LikeFresh (oneOfEach 1 true) .READER_PRIORITY process := by
  obtain ⟨h,hr,hl,-⟩ := Run.of_turns
    (m := workers (AlgoType.READER_PRIORITY.lock (oneOfEach 1 true).Tid))
    (c := (oneOfEach 1 true).start (AlgoType.READER_PRIORITY.lock (oneOfEach 1 true).Tid) {})
    0 [(0,20),(1,6)] rfl
  have hs := Session.simulation ⟨oneOfEach 1 true,.READER_PRIORITY,h⟩ .fresh hr
    (Fin.forall_fin_two.mpr ⟨rfl,rfl⟩)
  refine ⟨_,_,hs,by simp,rfl,(like_fresh_iff hs _ _ rfl).mpr (.inl ?_)⟩
  intro d hd
  obtain rfl := List.mem_singleton.mp hd
  refine not_not.mpr fun e he hsig => ?_
  obtain ⟨j,k,hk⟩ := hl e he
  cases hk.symm.trans hsig

/-- A signal during the first simulation aborts the writer of the second one. -/
theorem aborted_by_earlier_signal : ∃ hs process, Session hs process ∧ ∃ h c,
    Run (workers (AlgoType.READER_PRIORITY.lock (oneOfEach 1 true).Tid))
      ((oneOfEach 1 true).start (AlgoType.READER_PRIORITY.lock (oneOfEach 1 true).Tid) process)
      h c ∧
    Unsignalled h ∧ ∃ e ∈ h, isAbortExit e = true := by
  obtain ⟨h,hr,-⟩ := Run.of_exec
    (m := workers (AlgoType.READER_PRIORITY.lock (oneOfEach 1 true).Tid))
    (c := (oneOfEach 1 true).start (AlgoType.READER_PRIORITY.lock (oneOfEach 1 true).Tid) {})
    (turns 0 [(1,1)] ++ .env .sigusr1 :: turns 0 [(1,3),(0,20)]) rfl
  have hs := Session.simulation ⟨oneOfEach 1 true,.READER_PRIORITY,h⟩ .fresh hr
    (Fin.forall_fin_two.mpr ⟨rfl,rfl⟩)
  exact ⟨_,_,hs,abort_exit _ .READER_PRIORITY rfl (by decide) rfl⟩

end ReadersWriters
