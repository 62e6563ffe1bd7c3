import ReadersWriters.LogStory
set_option autoImplicit false

namespace ReadersWriters
open Interleaving Text

section
variable {ι S : Type}

def Call.alerts [DecidableEq ι] (i : ι) : Call ι → Bool
  | .alert j _ => j = i
  | _ => false

/-- The wait that the alert to come will show. -/
def WatchdogAt.late : WatchdogAt ι → Option Int
  | .flag _ waitMs _ | .count _ waitMs _ | .event _ waitMs _ => some waitMs
  | _ => none

/-- The thread that has been counted and is still to be reported. -/
def WatchdogAt.counted : WatchdogAt ι → Option ι
  | .event i _ _ => some i
  | _ => none

theorem WatchdogAt.Settled.counted {w : WatchdogAt ι} (h : w.Settled) : w.counted = none := by
  cases w <;> first | rfl | cases h.2

theorem late_compareWait {starveThresholdMs waitMs x : Int} {i : ι} {rest : List ι}
    (h : (compareWait starveThresholdMs i waitMs rest).late = some x) : starveThresholdMs ≤ x := by
  simp only [compareWait] at h
  split at h <;> rename_i hw <;> cases h
  exact hw

variable [DecidableEq ι]

/-- The alerts of the watchdog are those of the counters. -/
structure Alerted (starveThresholdMs : Int) (cs : List (Call ι)) (s : Watched ι S) : Prop where
  alerts : ∀ v ∈ cs, ∃ i waitMs, v = .alert i waitMs ∧ starveThresholdMs ≤ waitMs
  counted : ∀ i, (cs.countP (Call.alerts i) : Int)+(if s.watchdog.counted = some i then 1 else 0) =
    (s.record i).starveCount
  late : ∀ waitMs, s.watchdog.late = some waitMs → starveThresholdMs ≤ waitMs

variable {starveThresholdMs : Int} {registry : List ι} {τ : TimePoint} {s s' : Watched ι S}

theorem watchdog_late (h : watchdogRun starveThresholdMs registry τ s = some s')
    (hs : ∀ x, s.watchdog.late = some x → starveThresholdMs ≤ x) :
    ∀ x, s'.watchdog.late = some x → starveThresholdMs ≤ x := by
  intro x hx
  simp only [watchdogRun] at h
  split at h <;> rename_i hw <;> cases h
  case h_1 => cases hr : s.running <;> simp [hr,WatchdogAt.late] at hx
  case h_3 =>
    dsimp only at hx
    split at hx <;> cases hx
  case h_4 =>
    dsimp only at hx
    split at hx
    · cases hx
    · exact late_compareWait hx
  case h_6 => exact late_compareWait hx
  case h_7 | h_8 => exact hs x (by rw [hw]; exact hx)
  all_goals cases hx

theorem alerted_watchdog {cs : List (Call ι)}
    (h : watchdogRun starveThresholdMs registry τ s = some s')
    (hA : Alerted starveThresholdMs cs s) : Alerted starveThresholdMs
      (cs ++ match s.watchdog with
        | .event i waitMs _ => [.alert i waitMs]
        | _ => []) s' := by
  have hlate := watchdog_late h hA.late
  have hcounted := hA.counted
  cases watchdog_cases h with
  | @look w' _ hs hw' =>
    have hnil : (match s.watchdog with
        | .event i waitMs _ => [Call.alert i waitMs]
        | _ => ([] : List (Call ι))) = [] := by
      split <;> rename_i hw
      · rw [hw] at hs
        cases hs.2
      · rfl
    rw [hnil,List.append_nil]
    refine ⟨hA.alerts,fun i => ?_,hlate⟩
    rw [← hcounted i,hs.counted,hw'.counted]
  | @flag j waitMs rest hw =>
    rw [hw,List.append_nil]
    refine ⟨hA.alerts,fun i => ?_,hlate⟩
    rw [hw] at hcounted
    exact (hcounted i).trans (s.modify_keeps (·.starveCount) j i
      (f := fun r => { r with state := .BLOCKED }) fun _ => rfl).symm
  | @count j waitMs rest hw =>
    rw [hw,List.append_nil]
    refine ⟨hA.alerts,fun i => ?_,hlate⟩
    have hi := hcounted i
    simp only [hw,WatchdogAt.counted,reduceCtorEq,if_false,Int.add_zero] at hi
    by_cases hij : i = j
    · subst hij
      simp [WatchdogAt.counted,hi]
    · simp [WatchdogAt.counted,hi,s.modify_of_ne hij,Ne.symm hij]
  | @event j waitMs rest hw =>
    rw [hw]
    refine ⟨fun v hv => ?_,fun i => ?_,hlate⟩
    · rcases List.mem_append.mp hv with hv | hv
      · exact hA.alerts v hv
      · exact ⟨j,waitMs,List.mem_singleton.mp hv,hA.late waitMs (by rw [hw]; rfl)⟩
    · have hi := hcounted i
      simp only [hw,WatchdogAt.counted,Option.some.injEq] at hi
      rw [← hi]
      simp [Call.alerts,WatchdogAt.counted,List.countP_append,List.countP_singleton]

end

section
variable {n : ℕ} {S R W : Type} {L : RWLockBase (Fin n) S R W} {starveThresholdMs : Int}
  {fails : Option (Fin n)} {i : Fin n} {k : Fin n × TimePoint} {s s' : Simulated (Fin n) S}
  {t t' : Watchee R W}

theorem Alerted.worker {cs : List (Call (Fin n))}
    (h : (simulated L starveThresholdMs fails).act i k s t = some (s',t'))
    (hA : Alerted starveThresholdMs cs s.watched) : Alerted starveThresholdMs cs s'.watched := by
  obtain ⟨hw,-,hc,-⟩ := watched_keeps (simulated_watched h).1
  exact ⟨hA.alerts,fun j => by rw [hw,hc]; exact hA.counted j,hw ▸ hA.late⟩

end

section
variable {cfg : Workload} {algo : AlgoType} {w : LogSetup} {starveThresholdMs : Int}
  {process : Process} {h : List (Event cfg.Tid (cfg.Tid × TimePoint) (Around cfg.Tid)
    (Simulated cfg.Tid (algo.Shared cfg.Tid)) (Watchee algo.ReadPC algo.WritePC × Notes))}
  {c : Config cfg.Tid (Simulated cfg.Tid (algo.Shared cfg.Tid))
    (Watchee algo.ReadPC algo.WritePC × Notes)}

theorem alerted_run (hr : Run (noted cfg algo starveThresholdMs)
      ((cfg.simulatedStart (algo.lock cfg.Tid) process).noting fun _ => {}) h c) :
    Alerted starveThresholdMs ((talk cfg algo w).issued (.inr .watchdog) h) c.shared.watched := by
  induction hr with
  | start => exact ⟨(fun v hv => by cases hv),fun i => rfl,fun x hx => by cases hx⟩
  | @step h c c' l hr hn ih =>
    rcases l with ⟨i,k⟩ | e
    · obtain ⟨s,t,ha,rfl⟩ := noting_cases hn
      simp only [Talk.issued,reduceCtorEq,if_false,List.append_nil]
      exact ih.worker ha
    · obtain ⟨s,he,rfl⟩ := Machine.next_env.mp hn
      rcases e with _ | τ | d
      · have hx : (talk cfg algo w).issued (.inr .watchdog) ((c,.env .main) :: h) =
            (talk cfg algo w).issued (.inr .watchdog) h := by simp [Talk.issued,talk]
        rw [hx]
        cases main_cases he <;> exact ⟨ih.alerts,ih.counted,ih.late⟩
      · obtain ⟨x,hx,rfl⟩ := Option.map_eq_some_iff.mp he
        exact alerted_watchdog hx ih
      · obtain ⟨x,hx,rfl⟩ := Option.map_eq_some_iff.mp he
        obtain ⟨y,-,rfl⟩ := Option.map_eq_some_iff.mp hx
        have hx : (talk cfg algo w).issued (.inr .watchdog) ((c,.env (.disturbance d)) :: h) =
            (talk cfg algo w).issued (.inr .watchdog) h := by simp [Talk.issued,talk]
        rw [hx]
        exact ⟨ih.alerts,ih.counted,ih.late⟩

/-- What the main thread logs behind its first header. -/
theorem header_run (hr : Run (noted cfg algo starveThresholdMs)
      ((cfg.simulatedStart (algo.lock cfg.Tid) process).noting fun _ => {}) h c) :
    (talk cfg algo w).issued (.inr .main) h = match c.shared.main with
      | .ended false => [.header (completeText w.result)]
      | _ => [] := by
  induction hr with
  | start => rfl
  | @step h c c' l hr hn ih =>
    rcases l with ⟨i,k⟩ | e
    · obtain ⟨s,t,ha,rfl⟩ := noting_cases hn
      simp only [Talk.issued,reduceCtorEq,if_false,List.append_nil,ih,(simulated_watched ha).2]
    · obtain ⟨s,he,rfl⟩ := Machine.next_env.mp hn
      rcases e with _ | τ | d
      · have hx : (talk cfg algo w).issued (.inr .main) ((c,.env .main) :: h) =
            (talk cfg algo w).issued (.inr .main) h ++ c.shared.actorCalls w.result .main := rfl
        rw [hx,ih]
        cases main_cases he with
        | @watchdogJoin threw hp =>
          simp only [hp,Simulated.actorCalls,List.nil_append]
          cases threw <;> rfl
        | createFails _ hp | create _ hp | allCreated hp | join _ hp | allJoined hp
        | watchdogStop hp => simp [hp,Simulated.actorCalls]
      · obtain ⟨x,hx,rfl⟩ := Option.map_eq_some_iff.mp he
        have hx : (talk cfg algo w).issued (.inr .main) ((c,.env (.watchdog τ)) :: h) =
            (talk cfg algo w).issued (.inr .main) h := by simp [Talk.issued,talk]
        rw [hx,ih]
      · obtain ⟨x,hx,rfl⟩ := Option.map_eq_some_iff.mp he
        have hx : (talk cfg algo w).issued (.inr .main) ((c,.env (.disturbance d)) :: h) =
            (talk cfg algo w).issued (.inr .main) h := by simp [Talk.issued,talk]
        rw [hx,ih]

end

/-- The main thread has joined the worker. -/
def MainAt.joined {n : ℕ} (i : Fin n) : MainAt → Prop
  | .create _ => False
  | .join k => i < k
  | _ => True

theorem Supervised.terminated_of_joined {n : ℕ} {S R W : Type} {i : Fin n}
    {c : Config (Fin n) (Simulated (Fin n) S) (Watchee R W)} (hS : Supervised c) (hJ : Joins c)
    (h : c.shared.main.joined i) : (c.locals i).worker.Done := by
  refine hJ.terminated i ?_
  have hm := hJ.main
  have hs := hS.main
  cases hp : c.shared.main with
  | create => simp only [hp,MainAt.joined] at h
  | join k =>
    simp only [hp,Simulated.Joining,MainAt.joined] at hm h
    exact hm i h
  | watchdogStop threw =>
    simp only [hp] at hs
    simp only [Simulated.Joining,hp,hs.2,Bool.false_eq_true,if_false] at hm
    exact hm i
  | watchdogJoin threw | ended threw =>
    simp only [hp] at hs
    simp only [Simulated.Joining,hp,hs.2.1,Bool.false_eq_true,if_false] at hm
    exact hm i

section
variable {cfg : Workload} {algo : AlgoType} {w : LogSetup} {starveThresholdMs : Int}
  {process : Process} {before : List (Printed (cfg.Tid ⊕ Actor) (Call cfg.Tid) Char)}

theorem ended_done {h c}
    (hr : Run (logged cfg algo w starveThresholdMs) (loggedStart cfg algo w process before) h c)
    (hm : c.shared.base.main = .ended false) (i : cfg.Tid) : (c.locals i).1.worker.Done := by
  have hr₁ := unlogged_run hr
  refine (supervised_run hr₁).terminated_of_joined (joins_run (fun _ hk => by cases hk) hr₁) ?_
  change c.shared.base.main.joined i
  rw [hm]
  trivial

/-- Whoever has been joined has nothing left to log. -/
structure Joined (c : Config cfg.Tid (Logged (Simulated cfg.Tid (algo.Shared cfg.Tid))
    (cfg.Tid ⊕ Actor) (Call cfg.Tid) Char) (Watchee algo.ReadPC algo.WritePC × Notes)) : Prop where
  workers : ∀ i, c.shared.base.main.joined i → c.shared.printer.Idle (.inl i)
  watchdog : ∀ threw, c.shared.base.main = .ended threw →
    c.shared.base.watched.watchdog = .stopped ∧ c.shared.printer.Idle (.inr .watchdog)

theorem joined_run {h c}
    (hr : Run (logged cfg algo w starveThresholdMs) (loggedStart cfg algo w process before) h c) :
    Joined c := by
  induction hr with
  | start => exact ⟨fun i hi => hi.elim,fun _ hm => by cases hm⟩
  | @step h c c' l hr hn ih =>
    have hr₁ := unlogged_run hr
    have hdone : ∀ i, c.shared.base.main.joined i → (c.locals i).1.worker.Done := fun i hi =>
      (supervised_run hr₁).terminated_of_joined (joins_run (fun _ hk => by cases hk) hr₁) hi
    cases Talk.step_cases hn with
    | @thread i k o s t hi ha =>
      obtain ⟨⟨s₁,t₁⟩,ha₁,he⟩ := Option.map_eq_some_iff.mp ha
      cases he
      obtain ⟨ha₂,hm⟩ := simulated_watched ha₁
      have hdog := (watched_keeps ha₂).1
      refine ⟨fun j hj => ?_,fun threw hj => ?_⟩
      · have hj' : c.shared.base.main.joined j := hm ▸ hj
        refine (ih.workers j hj').issue fun hji => ?_
        cases hji
        exact (not_done_of_watched (hdone _ hj') ha₂).elim
      · obtain ⟨hst,hidle⟩ := ih.watchdog threw (hm ▸ hj)
        exact ⟨hdog.trans hst,hidle.issue fun hx => by cases hx⟩
    | @env e s hw he =>
      rcases e with _ | τ | d
      · have hworkers : ∀ i, c.shared.base.main.joined i →
            (c.shared.printer.issue (.inr Actor.main)
              (c.shared.base.actorCalls w.result .main)).Idle (.inl i) :=
          fun i hi => (ih.workers i hi).issue fun hx => by cases hx
        cases main_cases he with
        | createFails _ _ hf => cases hf
        | create => exact ⟨fun i hi => hi.elim,fun _ hm => by cases hm⟩
        | allCreated => exact ⟨fun i hi => absurd hi (Nat.not_lt_zero _),fun _ hm => by cases hm⟩
        | @join k hk hp =>
          refine ⟨fun i hi => ?_,fun _ hm => by cases hm⟩
          rcases Nat.lt_succ_iff_lt_or_eq.mp hi with hi | hi
          · exact hworkers i (by rw [hp]; exact hi)
          · have hmem : .inl i ∈ (talk cfg algo w).awaits .main c.shared.base := by
              simp [talk,Simulated.awaits,hp,hk,Fin.ext_iff,hi]
            exact (hw _ hmem).issue fun hx => by cases hx
        | @allJoined k hp hk =>
          exact ⟨fun i _ => hworkers i (by rw [hp]; exact lt_of_lt_of_le i.isLt hk),
            fun _ hm => by cases hm⟩
        | watchdogStop hp =>
          exact ⟨fun i _ => hworkers i (by rw [hp]; trivial),fun _ hm => by cases hm⟩
        | watchdogJoin hp hst =>
          refine ⟨fun i _ => hworkers i (by rw [hp]; trivial),fun _ _ => ⟨hst,?_⟩⟩
          have hmem : .inr .watchdog ∈ (talk cfg algo w).awaits .main c.shared.base := by
            simp [talk,Simulated.awaits,hp]
          exact (hw _ hmem).issue fun hx => by cases hx
      · obtain ⟨x,hx,rfl⟩ := Option.map_eq_some_iff.mp he
        refine ⟨fun i hi => (ih.workers i hi).issue (fun hx => by cases hx),fun threw hm => ?_⟩
        simp only [watchdogRun,(ih.watchdog threw hm).1] at hx
        cases hx
      · obtain ⟨x,hx,rfl⟩ := Option.map_eq_some_iff.mp he
        obtain ⟨y,-,rfl⟩ := Option.map_eq_some_iff.mp hx
        exact ⟨ih.workers,ih.watchdog⟩
    | threadPrints hp | actorPrints hp =>
      exact ⟨fun i hi => (ih.workers i hi).step hp,fun threw hm =>
        ⟨(ih.watchdog threw hm).1,(ih.watchdog threw hm).2.step hp⟩⟩

end

/-- Which function the worker runs, and on what. -/
def Worker.Role {R W : Type} (cfg : Workload) (i : cfg.Tid) : Worker R W → Prop
  | .reader _ _ => cfg.isWriter i = false
  | .writer _ isAbortTarget _ => cfg.isWriter i = true ∧ isAbortTarget = cfg.isAbortTarget i

theorem role_run {cfg : Workload} {process : Process} {S R W : Type} {L : RWLockBase cfg.Tid S R W}
    {h c} (hr : Run (workers L) (cfg.start L process) h c) (i : cfg.Tid) :
    (c.locals i).Role cfg i := by
  refine hr.always (P := fun c => ∀ i, (c.locals i).Role cfg i) (fun i => ?_) ?_ i
  · simp only [Workload.start]
    split <;> rename_i hw
    · exact ⟨hw,rfl⟩
    · exact (Bool.not_eq_true _).mp hw
  · rintro c (⟨j,k⟩ | e) c' hc hn i
    · obtain ⟨s',t',ha,rfl⟩ := Machine.next_thread.mp hn
      by_cases hij : i = j
      · subst hij
        have hi := hc i
        simp only [Function.update_self]
        generalize c.locals i = t at ha hi
        cases workers_cases ha <;> exact hi
      · simpa only [Function.update_of_ne hij] using hc i
    · obtain ⟨s',-,rfl⟩ := Machine.next_env.mp hn
      exact hc i

/-- All calls of a worker that has counted `n` operations, with its operations. -/
def Workload.Life (cfg : Workload) (algo : AlgoType) (i : cfg.Tid) (n : Int) (rounds : List Round)
    (cs : List (Call cfg.Tid)) : Prop :=
  if cfg.isWriter i then WriterLife algo i (cfg.isAbortTarget i) n rounds cs
  else ReaderLife algo i n rounds cs

theorem Worker.Told.life {cfg : Workload} {algo : AlgoType} {S R W : Type}
    {L : RWLockBase cfg.Tid S R W} {i : cfg.Tid} {t : Worker R W} {n : Notes} {o : Seen}
    {cs : List (Call cfg.Tid)} (h : t.Told algo L i n o cs) (hd : t.Done) (hr : t.Role cfg i) :
    cfg.Life algo i t.info.opsCompleted o.rounds cs := by
  cases t with
  | reader info pc =>
    cases hd
    rw [Workload.Life,if_neg (by rw [show cfg.isWriter i = false from hr]; decide)]
    exact h
  | writer info b pc =>
    cases hd
    obtain ⟨hw,rfl⟩ := hr
    rw [Workload.Life,if_pos hw]
    exact h

section
variable {ι : Type} {i : ι} {message : Int → ThreadState → List Char} {opening cs : List (Call ι)}
  {o : Seen}

def Call.isSummary : Call ι → Bool
  | .summary _ => true
  | _ => false

theorem Round.no_summary (rs : List Round) :
    ∀ v ∈ rs.flatMap (Round.calls i message), v.isSummary = false := by
  intro v hv
  obtain ⟨r,-,hv⟩ := List.mem_flatMap.mp hv
  simp only [Round.calls,List.mem_cons,List.not_mem_nil,or_false] at hv
  rcases hv with rfl | rfl | rfl <;> rfl

theorem Story.no_summary {st : ThreadState} {n : Int} (h : Story i message opening o st n cs)
    (ho : ∀ v ∈ opening, v.isSummary = false) : ∀ v ∈ cs, v.isSummary = false := by
  obtain ⟨-,rfl⟩ := h
  intro v hv
  rcases List.mem_append.mp hv with hv | hv
  · exact (List.mem_append.mp hv).elim (ho v) (Round.no_summary o.rounds v)
  · cases st <;> simp only [Seen.unfinished,List.mem_cons,List.not_mem_nil,or_false] at hv
    · rw [hv]
      rfl
    · rcases hv with rfl | rfl <;> rfl

theorem readerOpening_no_summary (i : ι) : ∀ v ∈ readerOpening i, v.isSummary = false := by
  intro v hv
  rw [List.mem_singleton.mp hv]
  rfl

theorem writerOpening_no_summary (i : ι) (b : Bool) :
    ∀ v ∈ writerOpening i b, v.isSummary = false := by
  intro v hv
  rcases List.mem_append.mp hv with hv | hv
  · split at hv
    · rw [List.mem_singleton.mp hv]
      rfl
    · cases hv
  · rw [List.mem_singleton.mp hv]
    rfl

theorem WriterEnding.no_summary {b : Bool} {k : Int} (h : WriterEnding i b cs k) :
    ∀ v ∈ cs.dropLast, v.isSummary = false := by
  intro v hv
  cases h <;> simp only [List.dropLast,List.mem_cons,List.not_mem_nil,or_false] at hv
  · rw [hv]
    rfl
  · rcases hv with rfl | rfl <;> rfl
  · rw [hv]
    rfl

theorem WriterEnding.summary {b : Bool} {k : Int} (h : WriterEnding i b cs k) {j : ι}
    (hj : .summary j ∈ cs) : j = i := by
  cases h <;>
    simp only [List.mem_cons,reduceCtorEq,List.not_mem_nil,or_false,false_or,
      Call.summary.injEq] at hj
  all_goals exact hj

/-- A worker asks for its summary last of all. -/
theorem Worker.Told.summary {algo : AlgoType} {S R W : Type} {L : RWLockBase ι S R W}
    {t : Worker R W} {n : Notes} (h : t.Told algo L i n o cs) {j : ι} (hj : .summary j ∈ cs) :
    t.Done ∧ j = i := by
  have hno : ∀ {xs : List (Call ι)}, (∀ v ∈ xs, v.isSummary = false) → .summary j ∉ xs :=
    fun hx hm => by cases hx _ hm
  have hreader : ∀ {st m}, ReaderStory algo i o st m cs → False :=
    fun hs => hno (hs.no_summary (readerOpening_no_summary i)) hj
  have hwriter : ∀ {b st m cs₁}, WriterStory algo i b o st m cs₁ → .summary j ∉ cs₁ :=
    fun hs => hno (hs.no_summary (writerOpening_no_summary i _))
  cases t with
  | reader info pc =>
    cases pc
    case done =>
      obtain ⟨-,rfl⟩ := h
      rcases List.mem_append.mp hj with hj | hj
      · exact ((List.mem_append.mp hj).elim (hno (readerOpening_no_summary i))
          (hno (Round.no_summary o.rounds))).elim
      · simp only [List.mem_cons,reduceCtorEq,List.not_mem_nil,or_false,false_or,
          Call.summary.injEq] at hj
        exact ⟨rfl,hj⟩
    case start =>
      rw [h.1] at hj
      cases hj
    all_goals exact (hreader h).elim
  | writer info b pc =>
    cases pc
    case done =>
      obtain ⟨ending,k,he,-,rfl⟩ := h
      rcases List.mem_append.mp hj with hj | hj
      · exact ((List.mem_append.mp hj).elim (hno (writerOpening_no_summary i b))
          (hno (Round.no_summary o.rounds))).elim
      · exact ⟨rfl,he.summary hj⟩
    case sigaction =>
      rw [h.1] at hj
      cases hj
    case start =>
      exact (hno (writerOpening_no_summary i b) (h.1 ▸ List.mem_append_left _ hj)).elim
    case finish =>
      obtain ⟨cs₁,cs₂,k,rfl,hs,he⟩ := h
      rcases List.mem_append.mp hj with hj | hj
      · exact (hwriter hs hj).elim
      · refine (hno he.no_summary ?_).elim
        rw [List.dropLast_append_of_ne_nil (by exact List.cons_ne_nil _ _)]
        exact List.mem_append_left _ hj
    all_goals exact (hwriter h.1 hj).elim

end

section
variable {n : ℕ} {S R W : Type} {L : RWLockBase (Fin n) S R W} {starveThresholdMs : Int}
  {fails : Option (Fin n)} {i : Fin n} {c c' : Config (Fin n) (Simulated (Fin n) S) (Watchee R W)}
  {h : List (Event (Fin n) (Fin n × TimePoint) (Around (Fin n)) (Simulated (Fin n) S)
    (Watchee R W))}

/-- What a summary shows of a thread that has terminated. -/
structure Final (i : Fin n) (c c' : Config (Fin n) (Simulated (Fin n) S) (Watchee R W)) :
    Prop where
  worker : (c'.locals i).worker = (c.locals i).worker
  totalWaitMs : (c'.shared.watched.record i).totalWaitMs = (c.shared.watched.record i).totalWaitMs

theorem final_run (hr : Run (simulated L starveThresholdMs fails) c h c')
    (hd : (c.locals i).worker.Done) : Final i c c' := by
  refine hr.always (P := Final i c) ⟨rfl,rfl⟩ ?_
  rintro c₁ (⟨j,k⟩ | e) c₂ hc hn
  · obtain ⟨s,t,ha,rfl⟩ := Machine.next_thread.mp hn
    have hw := (simulated_watched ha).1
    have hij : i ≠ j := by
      rintro rfl
      exact not_done_of_watched (hc.worker ▸ hd) hw
    have hrec : s.watched.record i = c₁.shared.watched.record i := by
      generalize s.watched = x at hw
      cases watched_act_cases hw with
      | waitStart | enter | step => exact Function.update_of_ne hij ..
      | load | wait => rfl
    refine ⟨?_,by rw [hrec]; exact hc.totalWaitMs⟩
    simpa only [Function.update_of_ne hij] using hc.worker
  · obtain ⟨s,he,rfl⟩ := Machine.next_env.mp hn
    rcases e with _ | τ | d
    · cases main_cases he <;> exact ⟨hc.worker,hc.totalWaitMs⟩
    · obtain ⟨x,hx,rfl⟩ := Option.map_eq_some_iff.mp he
      have ht := watchdog_keeps (·.totalWaitMs) (fun _ => rfl) (fun _ => rfl) hx i
      exact ⟨hc.worker,ht.trans hc.totalWaitMs⟩
    · obtain ⟨x,hx,rfl⟩ := Option.map_eq_some_iff.mp he
      obtain ⟨y,-,rfl⟩ := Option.map_eq_some_iff.mp hx
      exact ⟨hc.worker,hc.totalWaitMs⟩

/-- Starvation events are only added. -/
theorem starveCount_run (hr : Run (simulated L starveThresholdMs fails) c h c') (i : Fin n) :
    (c.shared.watched.record i).starveCount ≤ (c'.shared.watched.record i).starveCount := by
  refine hr.always (P := fun c' => (c.shared.watched.record i).starveCount ≤
    (c'.shared.watched.record i).starveCount) le_rfl ?_
  rintro c₁ (⟨j,k⟩ | e) c₂ hc hn
  · obtain ⟨s,t,ha,rfl⟩ := Machine.next_thread.mp hn
    obtain ⟨-,-,hcount,-⟩ := watched_keeps (simulated_watched ha).1
    exact hc.trans_eq (hcount i).symm
  · obtain ⟨s,he,rfl⟩ := Machine.next_env.mp hn
    rcases e with _ | τ | d
    · cases main_cases he <;> exact hc
    · obtain ⟨x,hx,rfl⟩ := Option.map_eq_some_iff.mp he
      refine hc.trans ?_
      cases watchdog_cases hx with
      | look | event => rfl
      | @flag j => exact le_of_eq (c₁.shared.watched.modify_keeps (·.starveCount) j i
          (f := fun r => { r with state := .BLOCKED }) fun _ => rfl).symm
      | @count j =>
        by_cases hij : i = j
        · subst hij
          simp
        · simp [Watched.modify_of_ne _ hij]
    · obtain ⟨x,hx,rfl⟩ := Option.map_eq_some_iff.mp he
      obtain ⟨y,-,rfl⟩ := Option.map_eq_some_iff.mp hx
      exact hc

end

section
variable {cfg : Workload} {algo : AlgoType} {w : LogSetup} {starveThresholdMs : Int}
  {process : Process} {before : List (Printed (cfg.Tid ⊕ Actor) (Call cfg.Tid) Char)}

variable {h : List (LoggedEvent cfg algo)} {c : LoggedConfig cfg algo} {i : cfg.Tid}

/-- A step of a run made the line of the worker's call when the clock showed `o`, and so many
starvation events of it had been counted then. -/
def Counted (h : List (LoggedEvent cfg algo)) (i : cfg.Tid) (call : Call cfg.Tid) (o : WallClock)
    (n : Int) : Prop :=
  ∃ e ∈ h, Talk.clock e.2 = some (.inl i,o) ∧ e.1.shared.printer.AtCall (.inl i) call ∧
    (e.1.shared.base.watched.record i).starveCount = n

theorem counted_bounds {call : Call cfg.Tid} {o : WallClock} {n : Int}
    (hr : Run (logged cfg algo w starveThresholdMs) (loggedStart cfg algo w process before) h c)
    (hc : Counted h i call o n) : 0 ≤ n ∧ n ≤ (c.shared.base.watched.record i).starveCount := by
  obtain ⟨e,he,-,-,rfl⟩ := hc
  obtain ⟨h₁,h₂,hr₁,hr₂⟩ := hr.reach_of_mem he
  refine ⟨?_,starveCount_run ((unnoted cfg algo starveThresholdMs).run
    (Simulation.run (Talk.view _ _) hr₂)) i⟩
  have hc := (alerted_run (w := w) (Simulation.run (Talk.view _ _) hr₁)).counted i
  refine le_of_le_of_eq ?_ hc
  split <;> omega

/-- A call with the values that its line shows: in a summary, the operations and the wait that are
there in the end, and a number of starvation events. -/
def Call.final (cfg : Workload) (algo : AlgoType) (c : LoggedConfig cfg algo) (n : Int) :
    Call cfg.Tid → LogCall
  | .record i state waitMs msg => .record (cfg.identity algo i) state waitMs msg
  | .summary i => .summary (cfg.identity algo i) (c.locals i).1.worker.info.opsCompleted
      (c.shared.base.watched.record i).totalWaitMs n
  | .alert i waitMs => .alert (cfg.identity algo i) waitMs
  | .header text => .header text

/-- The line of a worker's call; a summary shows the starvation events that had been counted when
it was made. -/
def Rendered (cfg : Workload) (algo : AlgoType) (h : List (LoggedEvent cfg algo))
    (c : LoggedConfig cfg algo) (i : cfg.Tid) (call : Call cfg.Tid) (text : List Char) : Prop :=
  ∃ o n, Counted h i call o n ∧ text = (call.final cfg algo c n).line o

theorem rendered_run
    (hr : Run (logged cfg algo w starveThresholdMs) (loggedStart cfg algo w process before) h c)
    {x : Printed (cfg.Tid ⊕ Actor) (Call cfg.Tid) Char}
    (hx : x ∈ c.shared.printer.lines.drop before.length) (hi : x.author = .inl i) :
    Rendered cfg algo h c i x.call x.text := by
  obtain ⟨-,e,he,o,ho,hcall,ht⟩ := (Talk.made_run hr).lines x hx
  rw [hi] at ho hcall ht
  obtain ⟨h₁,h₂,hr₁,hr₂⟩ := hr.reach_of_mem he
  have hissued := (Talk.calls_run hr₁ (.inl i)).mem (List.mem_of_mem_head? hcall.2)
  refine ⟨o,_,⟨e,he,ho,hcall,rfl⟩,?_⟩
  rw [show x.text = ((x.call.read (cfg.identity algo) e.1.shared.base.watched.record
    (e.1.locals i).1.worker.info.opsCompleted).line o) from ht]
  cases hx : x.call with
  | record | alert | header => rfl
  | summary j =>
    rw [hx] at hissued
    obtain ⟨hd,rfl⟩ := (told_run (Simulation.run (Talk.view _ _) hr₁) i).1.summary hissued
    have hf := final_run (i := j) ((unnoted cfg algo starveThresholdMs).run
      (Simulation.run (Talk.view _ _) hr₂)) hd
    have hw : (c.locals j).1.worker = (e.1.locals j).1.worker := hf.worker
    have ht : (c.shared.base.watched.record j).totalWaitMs =
      (e.1.shared.base.watched.record j).totalWaitMs := hf.totalWaitMs
    simp only [Call.read,Call.final,hw,ht]

/-- All lines of a worker are out when the main thread is done. -/
theorem worker_lines
    (hr : Run (logged cfg algo w starveThresholdMs) (loggedStart cfg algo w process before) h c)
    (hm : c.shared.base.main = .ended false) (i : cfg.Tid) :
    ∃ cs, cfg.Life algo i (c.locals i).1.worker.info.opsCompleted
        (cfg.seen algo starveThresholdMs i (unloggedSteps cfg algo w starveThresholdMs h)
          (unlogged c)).rounds cs ∧
      ((c.shared.printer.lines.drop before.length).filter fun x => x.author = .inl i).map
        Printed.call = cs.filter (Call.passes w.level) := by
  have hr₁ := Simulation.run (Talk.view (noted cfg algo starveThresholdMs) (talk cfg algo w)) hr
  have hrole := role_run ((workersView (algo.lock cfg.Tid) starveThresholdMs none).run
    (unlogged_run hr)) i
  exact ⟨_,(told_run (w := w) hr₁ i).1.life (ended_done hr hm i) hrole,
    Talk.lines_idle hr ((joined_run hr).workers i (by rw [hm]; trivial))⟩

/-- Alerts are logged at every level. -/
theorem watchdog_lines
    (hr : Run (logged cfg algo w starveThresholdMs) (loggedStart cfg algo w process before) h c)
    (hm : c.shared.base.main = .ended false) :
    Alerted starveThresholdMs (((c.shared.printer.lines.drop before.length).filter
      fun x => x.author = .inr .watchdog).map Printed.call) c.shared.base.watched := by
  have hA := alerted_run (w := w)
    (Simulation.run (Talk.view (noted cfg algo starveThresholdMs) (talk cfg algo w)) hr)
  have hlines : ((c.shared.printer.lines.drop before.length).filter
      fun x => x.author = .inr .watchdog).map Printed.call =
        (talk cfg algo w).issued (.inr .watchdog)
          ((Talk.view (noted cfg algo starveThresholdMs) (talk cfg algo w)).history h) := by
    rw [Talk.lines_idle hr ((joined_run hr).watchdog false hm).2]
    refine List.filter_eq_self.mpr fun v hv => ?_
    obtain ⟨i,waitMs,rfl,-⟩ := hA.alerts v hv
    rfl
  rw [hlines]
  exact hA

theorem main_lines
    (hr : Run (logged cfg algo w starveThresholdMs) (loggedStart cfg algo w process before) h c)
    (hm : c.shared.base.main = .ended false) (hi : c.shared.printer.Idle (.inr .main)) :
    ((c.shared.printer.lines.drop before.length).filter fun x => x.author = .inr .main).map
      Printed.call =
        [.header (cfg.hdrText algo),.header (completeText w.result)] := by
  rw [Talk.lines_idle hr hi,header_run (Simulation.run (Talk.view _ _) hr),
    show ((Talk.view (noted cfg algo starveThresholdMs) (talk cfg algo w)).view
      c).shared.main = _ from hm]
  rfl

/-- The lines of the main thread and the watchdog show nothing but what was passed to the call. -/
theorem actor_lines
    (hr : Run (logged cfg algo w starveThresholdMs) (loggedStart cfg algo w process before) h c)
    {x : Printed (cfg.Tid ⊕ Actor) (Call cfg.Tid) Char}
    (hx : x ∈ c.shared.printer.lines.drop before.length) {a : Actor} (ha : x.author = .inr a) :
    (∀ text, x.call = .header text → x.text = Logger.header text) ∧
      ∀ i waitMs, x.call = .alert i waitMs →
        ∃ o, x.text = Logger.alert o (cfg.identity algo i) waitMs := by
  obtain ⟨-,e,-,o,-,-,ht⟩ := (Talk.made_run hr).lines x hx
  rw [ha] at ht
  refine ⟨fun text hc => ?_,fun i waitMs hc => ⟨o,?_⟩⟩ <;> rw [ht,hc] <;> rfl

end

end ReadersWriters
