import ReadersWriters.Watchdog
set_option autoImplicit false

namespace ReadersWriters
open Interleaving

/-- The program points of `runSimulation` from the creation of the workers on, by the index
of the worker that is created or joined next. An exception goes on with `~Watchdog`, which
stops and joins the watchdog; at `ended` the locals are destroyed. -/
inductive MainAt where
  | create (k : ℕ) | join (k : ℕ)
  | watchdogStop (threw : Bool) | watchdogJoin (threw : Bool)
  | ended (threw : Bool)
  deriving DecidableEq, Repr

/-- A watched simulation with the thread that runs it. -/
structure Simulated (ι S : Type) where
  watched : Watched ι S
  main : MainAt := .create 0
  /-- The number of workers created so far, in the order of `args`. -/
  created : ℕ := 0
  /-- What `pthread_join` waits for. -/
  terminated : ι → Bool := fun _ => false

/-- What happens beside the steps of the workers. -/
inductive Around (ι : Type) where
  | main | watchdog (t : TimePoint) | disturbance (d : Disturbance ι)
  deriving DecidableEq, Repr

def Worker.terminated {R W : Type} : Worker R W → Bool
  | .reader _ .done | .writer _ _ .done => true
  | _ => false

section
variable {n : ℕ} {S R W : Type}

/-- `runSimulation` on `n` threads when the `pthread_create` of the worker `fails` does. -/
def runSimulation (fails : Option (Fin n)) (s : Simulated (Fin n) S) :
    Option (Simulated (Fin n) S) :=
  match s.main with
  | .create k => some <|
      if h : k < n then
        if fails = some ⟨k,h⟩ then { s with main := .watchdogStop true }
        else { s with created := k+1, main := .create (k+1) }
      else { s with main := .join 0 }
  | .join k =>
      if h : k < n then
        if s.terminated ⟨k,h⟩ then some { s with main := .join (k+1) } else none
      else some { s with main := .watchdogStop false }
  | .watchdogStop threw => some { s with
      watched := { s.watched with running := false }
      main := .watchdogJoin threw }
  | .watchdogJoin threw =>
      if s.watched.watchdog = .stopped then some { s with main := .ended threw } else none
  | .ended _ => none

/-- A worker runs from its creation on. -/
def simulated (L : RWLockBase (Fin n) S R W) (starveThresholdMs : Int) (fails : Option (Fin n)) :
    Machine (Fin n) (Fin n × TimePoint) (Around (Fin n)) (Simulated (Fin n) S) (Watchee R W) where
  act i k s t :=
    if i < s.created then
      ((watched L starveThresholdMs (List.finRange n)).act i k s.watched t).map fun r =>
        ({ s with
          watched := r.1
          terminated := Function.update s.terminated i r.2.worker.terminated },r.2)
    else none
  env
    | .main, s => runSimulation fails s
    | .watchdog t, s => (watchdogRun starveThresholdMs (List.finRange n) t s.watched).map
        fun x => { s with watched := x }
    | .disturbance d, s =>
        ((watched L starveThresholdMs (List.finRange n)).env (.disturbance d) s.watched).map
          fun x => { s with watched := x }

end

def Workload.simulatedStart {S R W : Type} (cfg : Workload) (L : RWLockBase cfg.Tid S R W)
    (process : Process) : Config cfg.Tid (Simulated cfg.Tid S) (Watchee R W) where
  shared := { watched := (cfg.watchedStart L process).shared }
  locals := (cfg.watchedStart L process).locals

section
variable {n : ℕ} {S R W : Type}

theorem terminated_iff {t : Worker R W} : t.terminated = true ↔ t.Done := by
  cases t with
  | reader info pc => cases pc <;> simp [Worker.terminated,Worker.Done]
  | writer info b pc => cases pc <;> simp [Worker.terminated,Worker.Done]

/-- What the main thread has seen to, if no worker is created before a failure. -/
def Simulated.Joining (s : Simulated (Fin n) S) : Prop :=
  match s.main with
  | .create k => s.created = k
  | .join k => ∀ i : Fin n, i < k → s.terminated i = true
  | .watchdogStop threw | .watchdogJoin threw | .ended threw =>
      if threw then s.created = 0 else ∀ i, s.terminated i = true

variable {L : RWLockBase (Fin n) S R W} {starveThresholdMs : Int} {fails : Option (Fin n)}

/-- A terminated worker has no further step. -/
theorem not_done_of_watched {i : Fin n} {k : Fin n × TimePoint} {s s' : Watched (Fin n) S}
    {t t' : Watchee R W} (hd : t.worker.Done)
    (ha : (watched L starveThresholdMs (List.finRange n)).act i k s t = some (s',t')) : False := by
  obtain ⟨w,tr⟩ := t
  cases w with
  | reader info pc =>
    cases hd
    cases tr <;> cases ha
  | writer info b pc =>
    cases hd
    cases tr <;> cases ha

theorem joining_main {s s' : Simulated (Fin n) S} (hf : ∀ k, fails = some k → k.val = 0)
    (h : runSimulation fails s = some s') (hs : s.Joining) : s'.Joining := by
  simp only [runSimulation] at h
  split at h <;> rename_i hm <;> simp only [Simulated.Joining,hm] at hs
  case h_1 k =>
    cases h
    split <;> rename_i hk
    · split <;> rename_i hfail
      · have hk0 : k = 0 := hf _ hfail
        simpa only [Simulated.Joining,if_true] using hs.trans hk0
      · simp only [Simulated.Joining]
    · exact fun i hi => absurd hi (Nat.not_lt_zero _)
  case h_2 k =>
    split at h <;> rename_i hk
    · obtain ⟨ht,he⟩ := Option.ite_none_right_eq_some.mp h
      cases he
      intro i hi
      rcases Nat.lt_succ_iff_lt_or_eq.mp hi with hi | hi
      · exact hs i hi
      · rwa [show i = ⟨k,hk⟩ from Fin.ext hi]
    · cases h
      exact fun i => hs i (lt_of_lt_of_le i.isLt (not_lt.mp hk))
  case h_3 threw =>
    cases h
    exact hs
  case h_4 threw =>
    obtain ⟨-,he⟩ := Option.ite_none_right_eq_some.mp h
    cases he
    exact hs
  case h_5 => cases h

theorem runSimulation_terminated {s s' : Simulated (Fin n) S}
    (h : runSimulation fails s = some s') : s'.terminated = s.terminated := by
  simp only [runSimulation] at h
  split at h
  case h_1 =>
    cases h
    split
    · split <;> rfl
    · rfl
  case h_2 =>
    split at h
    · obtain ⟨-,he⟩ := Option.ite_none_right_eq_some.mp h
      cases he
      rfl
    · cases h
      rfl
  case h_4 =>
    obtain ⟨-,he⟩ := Option.ite_none_right_eq_some.mp h
    cases he
    rfl
  all_goals
    cases h
    try rfl

/-- The main thread keeps track of the workers, and a thread marked as terminated is. -/
structure Joins (c : Config (Fin n) (Simulated (Fin n) S) (Watchee R W)) : Prop where
  main : c.shared.Joining
  terminated : ∀ i, c.shared.terminated i = true → (c.locals i).worker.Done

theorem joins_step {c c' : Config (Fin n) (Simulated (Fin n) S) (Watchee R W)}
    {l : Label (Fin n) (Fin n × TimePoint) (Around (Fin n))}
    (hf : ∀ k, fails = some k → k.val = 0)
    (hn : (simulated L starveThresholdMs fails).next c l = some c') (hc : Joins c) : Joins c' := by
  rcases l with ⟨i,k⟩ | e
  · obtain ⟨s',t',ha,rfl⟩ := Machine.next_thread.mp hn
    obtain ⟨hi,ha⟩ := Option.ite_none_right_eq_some.mp ha
    obtain ⟨⟨x,u⟩,hw,he⟩ := Option.map_eq_some_iff.mp ha
    cases he
    have hnot : ∀ j, c.shared.terminated j = true → j ≠ i := by
      rintro j hj rfl
      exact not_done_of_watched (hc.terminated j hj) hw
    have hkeep : ∀ j, c.shared.terminated j = true →
        Function.update c.shared.terminated i u.worker.terminated j = true :=
      fun j hj => by rw [Function.update_of_ne (hnot j hj)]; exact hj
    refine ⟨?_,fun j hj => ?_⟩
    · have hm := hc.main
      simp only [Simulated.Joining] at hm ⊢
      split <;> rename_i hp <;> simp only [hp] at hm
      · exact hm
      · exact fun j hj => hkeep j (hm j hj)
      all_goals
        split <;> rename_i ht <;> simp only [ht,if_true] at hm
        · exact hm
        · exact fun j => hkeep j (hm j)
    · by_cases hji : j = i
      · subst hji
        simp only [Function.update_self] at hj ⊢
        exact terminated_iff.mp hj
      · simp only [Function.update_of_ne hji] at hj ⊢
        exact hc.terminated j hj
  · obtain ⟨s',he,rfl⟩ := Machine.next_env.mp hn
    rcases e with _ | τ | d
    · refine ⟨joining_main hf he hc.main,?_⟩
      have ht : s'.terminated = c.shared.terminated := runSimulation_terminated he
      simpa only [ht] using hc.terminated
    · obtain ⟨x,-,rfl⟩ := Option.map_eq_some_iff.mp he
      exact ⟨hc.main,hc.terminated⟩
    · obtain ⟨x,-,rfl⟩ := Option.map_eq_some_iff.mp he
      exact ⟨hc.main,hc.terminated⟩

end

section
variable {cfg : Workload} {process : Process} {S R W : Type} {L : RWLockBase cfg.Tid S R W}
  {starveThresholdMs : Int} {fails : Option cfg.Tid}

/-- The main thread can create the workers before any of them takes a step. -/
theorem created_run {j : ℕ} (hj : j ≤ cfg.numReaders+cfg.numWriters)
    (hf : ∀ k, fails = some k → j ≤ k.val) :
    ∃ h, Run (simulated L starveThresholdMs fails) (cfg.simulatedStart L process) h
      { cfg.simulatedStart L process with
        shared := { (cfg.simulatedStart L process).shared with main := .create j, created := j } } := by
  induction j with
  | zero => exact ⟨[],.start⟩
  | succ j ih =>
    obtain ⟨h,hr⟩ := ih (by omega) fun k hk => by have := hf k hk; omega
    refine ⟨_,hr.step (l := .env .main) (Machine.next_env.mpr ⟨_,?_,rfl⟩)⟩
    have hne : fails ≠ some ⟨j,hj⟩ := fun he => Nat.not_succ_le_self j (hf _ he)
    simp only [simulated,runSimulation]
    rw [dif_pos (show j < cfg.numReaders+cfg.numWriters from hj),if_neg hne]

/-- A failure can end the simulation before the workers created so far take a step. -/
theorem abandoned_run {k : cfg.Tid} (hf : fails = some k) :
    ∃ h c, Run (simulated L starveThresholdMs fails) (cfg.simulatedStart L process) h c ∧
      c.shared.main = .ended true ∧ c.shared.created = k.val ∧
      c.locals = (cfg.simulatedStart L process).locals := by
  have hle : ∀ k', fails = some k' → k.val ≤ k'.val := by
    intro k' hk'
    rw [hf] at hk'
    cases hk'
    exact le_refl _
  obtain ⟨h,hr⟩ : ∃ h, Run (simulated L starveThresholdMs fails) (cfg.simulatedStart L process) h _ :=
    created_run k.isLt.le hle
  have h₁ := hr.step (l := .env .main) (Machine.next_env.mpr ⟨_,by
    simp only [simulated,runSimulation]
    rw [dif_pos k.isLt,if_pos hf],rfl⟩)
  -- `~Watchdog` stops and joins the watchdog, nobody else
  obtain ⟨h',hr',-⟩ := Run.of_exec (m := simulated L starveThresholdMs fails)
    (c := { cfg.simulatedStart L process with
      shared := { (cfg.simulatedStart L process).shared with
        main := .watchdogStop true, created := k.val } })
    [.env .main,.env (.watchdog 0),.env .main] rfl
  exact ⟨_,_,h₁.append hr',rfl,rfl,rfl⟩

theorem joins_run (hf : ∀ k, fails = some k → k.val = 0) {h c}
    (hr : Run (simulated L starveThresholdMs fails) (cfg.simulatedStart L process) h c) :
    Joins c :=
  hr.always ⟨rfl,fun _ hi => by cases hi⟩ fun _ _ _ hc hn => joins_step hf hn hc

end

/-- Whenever `runSimulation` destroys its locals all workers that it created have terminated,
if and only if no `pthread_create` fails after the first worker's. -/
theorem joined_before_destroyed (cfg : Workload) (algo : AlgoType) (process : Process)
    (starveThresholdMs : Int) (fails : Option cfg.Tid) :
    (∀ h c threw, Run (simulated (algo.lock cfg.Tid) starveThresholdMs fails)
        (cfg.simulatedStart (algo.lock cfg.Tid) process) h c →
      c.shared.main = .ended threw → ∀ i : cfg.Tid, i < c.shared.created →
        (c.locals i).worker.Done) ↔
    ∀ k, fails = some k → k.val = 0 := by
  refine ⟨fun hall k hf => ?_,fun hf h c threw hr hm i hi => ?_⟩
  · by_contra hk
    obtain ⟨h,c,hr,hm,hc,hl⟩ : ∃ h c,
        Run (simulated (algo.lock cfg.Tid) starveThresholdMs fails)
          (cfg.simulatedStart (algo.lock cfg.Tid) process) h c ∧ _ := abandoned_run hf
    have hd := hall h c true hr hm ⟨0,k.pos⟩ (by rw [hc]; exact Nat.pos_of_ne_zero hk)
    rw [hl] at hd
    simp only [Workload.simulatedStart,Workload.watchedStart,Workload.start] at hd
    split at hd <;> cases hd
  · obtain ⟨hj,ht⟩ := joins_run hf hr
    simp only [Simulated.Joining,hm] at hj
    cases threw with
    | true => exact absurd hi (by rw [show c.shared.created = 0 from hj]; exact Nat.not_lt_zero _)
    | false => exact ht i (hj i)

/-- The creation of the writer fails while the reader has yet to take its first step. -/
theorem destroyed_under_reader : ∃ h c,
    Run (simulated (AlgoType.READER_PRIORITY.lock (oneOfEach 1 false).Tid) 500 (some 1))
      ((oneOfEach 1 false).simulatedStart
        (AlgoType.READER_PRIORITY.lock (oneOfEach 1 false).Tid) {}) h c ∧
    c.shared.main = .ended true ∧ 0 < c.shared.created ∧ ¬ (c.locals 0).worker.Done := by
  obtain ⟨h,hr,-⟩ := Run.of_exec
    (m := simulated (AlgoType.READER_PRIORITY.lock (oneOfEach 1 false).Tid) 500 (some 1))
    (c := (oneOfEach 1 false).simulatedStart
      (AlgoType.READER_PRIORITY.lock (oneOfEach 1 false).Tid) {})
    [.env .main,.thread 0 (0,0),.env .main,.env .main,.env (.watchdog 0),.env .main] rfl
  exact ⟨h,_,hr,rfl,by decide,fun hd => by cases hd⟩

end ReadersWriters
