import ReadersWriters.Interleaving.Census
import ReadersWriters.Watchdog
set_option autoImplicit false

namespace ReadersWriters
open Interleaving

section
variable {ι : Type}

/-- The thread that is marked BLOCKED and whose `starveCount` is still to be incremented. -/
def WatchdogAt.uncounted : WatchdogAt ι → Option ι
  | .count i _ _ => some i
  | _ => none

/-- `starveCount` is incremented and `totalEvents_` is not yet. -/
def WatchdogAt.owesEvent : WatchdogAt ι → Bool
  | .event _ _ _ => true
  | _ => false

/-- The watchdog is not between its store of BLOCKED and the updates of the counters. -/
def WatchdogAt.Settled (w : WatchdogAt ι) : Prop := w.uncounted = none ∧ w.owesEvent = false

theorem settled_compareWait {starveThresholdMs waitMs : Int} {i : ι} {rest : List ι} :
    (compareWait starveThresholdMs i waitMs rest).Settled := by
  simp only [compareWait]
  split <;> exact ⟨rfl,rfl⟩

end

section
variable {ι S R W : Type} [DecidableEq ι]

/-- One case for each kind of branch of `watchdogRun`; `look` covers all that only read. -/
inductive WatchdogCase (s : Watched ι S) : Watched ι S → Prop where
  | look {w : WatchdogAt ι} : s.watchdog.marks = none → s.watchdog.Settled → w.Settled →
      (∀ j, w.examines = some j →
        (s.record j).state = .WAITING ∨ s.watchdog.examines = some j) →
      WatchdogCase s { s with watchdog := w }
  | flag {i : ι} {waitMs : Int} {rest : List ι} : s.watchdog = .flag i waitMs rest →
      WatchdogCase s { s.modify i fun r => { r with state := .BLOCKED } with
        watchdog := .count i waitMs rest }
  | count {i : ι} {waitMs : Int} {rest : List ι} : s.watchdog = .count i waitMs rest →
      WatchdogCase s { s.modify i fun r => { r with starveCount := r.starveCount+1 } with
        watchdog := .event i waitMs rest }
  | event {i : ι} {waitMs : Int} {rest : List ι} : s.watchdog = .event i waitMs rest →
      WatchdogCase s { s with totalEvents := s.totalEvents+1, watchdog := .visit rest }

theorem watchdog_cases {starveThresholdMs : Int} {registry : List ι} {τ : TimePoint}
    {s s' : Watched ι S} (h : watchdogRun starveThresholdMs registry τ s = some s') :
    WatchdogCase s s' := by
  have hs := watchdogRun_cases h
  simp only [watchdogRun] at h
  split at h <;> rename_i hw <;> cases h
  case h_7 => exact .flag hw
  case h_8 => exact .count hw
  case h_9 => exact .event hw
  all_goals
    obtain ⟨-,-,hx⟩ | ⟨j,hm,-⟩ := hs
    case inr => rw [hw] at hm; cases hm
    refine .look (by rw [hw]; rfl) (by rw [hw]; exact ⟨rfl,rfl⟩) ?_ hx
  case h_1 => cases s.running <;> exact ⟨rfl,rfl⟩
  case h_3 => split <;> exact ⟨rfl,rfl⟩
  case h_4 =>
    split
    · exact ⟨rfl,rfl⟩
    · exact settled_compareWait
  case h_6 => exact settled_compareWait
  all_goals exact ⟨rfl,rfl⟩

/-- The watchdog writes `state` and `starveCount` of a record and nothing else. -/
theorem watchdog_keeps {α : Type} (g : ThreadRecord → α)
    (hs : ∀ r : ThreadRecord, g { r with state := .BLOCKED } = g r)
    (hc : ∀ r : ThreadRecord, g { r with starveCount := r.starveCount+1 } = g r)
    {starveThresholdMs : Int} {registry : List ι} {τ : TimePoint} {s s' : Watched ι S}
    (h : watchdogRun starveThresholdMs registry τ s = some s') (i : ι) :
    g (s'.record i) = g (s.record i) := by
  cases watchdog_cases h with
  | look | event => rfl
  | @flag j => exact s.modify_keeps g j i hs
  | @count j => exact s.modify_keeps g j i hc

/-- One case for each branch of a watched worker's step. -/
inductive WatchedCase (L : RWLockBase ι S R W) (i : ι) (k : ι × TimePoint) (s : Watched ι S)
    (t : Watchee R W) : Watched ι S → Watchee R W → Prop where
  | waitStart : t.worker.publishes L = some .WAITING → t.transition = .outside →
      WatchedCase L i k s t (s.modify i fun r => { r with waitStart := k.2 })
        ⟨t.worker,.waitStarted⟩
  | load : t.worker.publishes L = some .ACTIVE → t.transition = .outside →
      WatchedCase L i k s t s ⟨t.worker,.loaded ((s.record i).state = .WAITING)⟩
  | wait {waiting : Bool} : t.worker.publishes L = some .ACTIVE →
      t.transition = .loaded waiting →
      WatchedCase L i k s t s ⟨t.worker,
        .waited (if waiting then millisBetween (s.record i).waitStart k.2 else 0)⟩
  | enter {ms : Int} : t.worker.publishes L = some .ACTIVE → t.transition = .waited ms →
      WatchedCase L i k s t (s.modify i fun r => { r with
        activeStart := k.2
        totalWaitMs := r.totalWaitMs+millisBetween r.waitStart k.2 }) ⟨t.worker,.entered ms⟩
  | step {x : SimState S} {u : Worker R W} :
      (t.worker.publishes L = some .WAITING → t.transition ≠ .outside) →
      (t.worker.publishes L = some .ACTIVE → t.transition = .waitStarted ∨
        ∃ ms, t.transition = .entered ms) →
      (workers L).act i k.1 s.sim t.worker = some (x,u) →
      WatchedCase L i k s t { s.modify i fun r => { r with
        state := (t.worker.publishes L).getD r.state } with sim := x } ⟨u,.outside⟩

theorem watched_act_cases {L : RWLockBase ι S R W} {starveThresholdMs : Int} {registry : List ι}
    {i : ι} {k : ι × TimePoint} {s s' : Watched ι S} {t t' : Watchee R W}
    (h : (watched L starveThresholdMs registry).act i k s t = some (s',t')) :
    WatchedCase L i k s t s' t' := by
  simp only [watched] at h
  split at h
  case h_1 hp ht => cases h; exact .waitStart hp ht
  case h_2 hp ht => cases h; exact .load hp ht
  case h_3 hp ht => cases h; exact .wait hp ht
  case h_4 hp ht => cases h; exact .enter hp ht
  case h_5 hw hl hq he =>
    obtain ⟨⟨x,u⟩,ha,he'⟩ := Option.map_eq_some_iff.mp h
    cases he'
    refine .step (fun hp ht => hw hp ht) (fun hp => ?_) ha
    cases ht : t.transition with
    | outside => exact (hl hp ht).elim
    | waitStarted => exact .inl rfl
    | loaded waiting => exact (hq waiting hp ht).elim
    | waited ms => exact (he ms hp ht).elim
    | entered ms => exact .inr ⟨ms,rfl⟩

end

section
variable {ι S R W : Type} [DecidableEq ι]

abbrev WatchedEvent (ι S R W : Type) :=
  Event ι (ι × TimePoint) (Beside ι) (Watched ι S) (Watchee R W)

/-- The step, one of thread `i`, stores WAITING. -/
def storesWaiting (L : RWLockBase ι S R W) (i : ι) (e : WatchedEvent ι S R W) : Bool :=
  match e.2 with
  | .thread j _ => j = i ∧ (e.1.locals i).worker.publishes L = some .WAITING ∧
      (e.1.locals i).transition ≠ .outside
  | .env _ => false

/-- The step, one of the watchdog, stores BLOCKED for thread `i`. -/
def marks (i : ι) (e : WatchedEvent ι S R W) : Bool := marked e = some i

/-- How often BLOCKED has been stored for thread `i` since it last stored WAITING. -/
def chargedSince (L : RWLockBase ι S R W) (i : ι) : List (WatchedEvent ι S R W) → ℕ
  | [] => 0
  | e :: h => if storesWaiting L i e then 0
      else (if marks i e then 1 else 0)+chargedSince L i h

theorem chargedSince_append {L : RWLockBase ι S R W} {i : ι} {h h' : List (WatchedEvent ι S R W)}
    (hw : ∀ e ∈ h', storesWaiting L i e = false) :
    chargedSince L i (h' ++ h) = h'.countP (marks i)+chargedSince L i h := by
  induction h' with
  | nil => simp
  | cons e h' ih =>
    obtain ⟨he,hw⟩ := List.forall_mem_cons.mp hw
    rw [List.cons_append,chargedSince,if_neg (by simp [he]),ih hw,List.countP_cons]
    omega

/-- A thread that is seen to wait has not been charged for this wait yet, and so has one
request more than it has been charged for. -/
structure Charged (L : RWLockBase ι S R W) (i : ι) (h : List (WatchedEvent ι S R W))
    (c : Config ι (Watched ι S) (Watchee R W)) : Prop where
  once : chargedSince L i h ≤ 1
  requested : h.countP (marks i) ≤ h.countP (storesWaiting L i)
  due : (c.shared.record i).state = .WAITING ∨ c.shared.watchdog.examines = some i →
    chargedSince L i h = 0 ∧ h.countP (marks i) < h.countP (storesWaiting L i)

variable {L : RWLockBase ι S R W} {starveThresholdMs : Int} {registry : List ι} {i : ι}
  {h : List (WatchedEvent ι S R W)} {c c' : Config ι (Watched ι S) (Watchee R W)}
  {l : Label ι (ι × TimePoint) (Beside ι)}

/-- Steps that neither store WAITING nor BLOCKED for the thread. -/
theorem Charged.keep (hc : Charged L i h c) (hw : storesWaiting L i (c,l) = false)
    (hm : marks i (c,l) = false)
    (hd : (c'.shared.record i).state = .WAITING ∨ c'.shared.watchdog.examines = some i →
      (c.shared.record i).state = .WAITING ∨ c.shared.watchdog.examines = some i) :
    Charged L i ((c,l) :: h) c' := by
  obtain ⟨ho,hr,hdue⟩ := hc
  have hs : chargedSince L i ((c,l) :: h) = chargedSince L i h := by simp [chargedSince,hw,hm]
  have hcm : ((c,l) :: h).countP (marks i) = h.countP (marks i) := by simp [hm]
  have hcw : ((c,l) :: h).countP (storesWaiting L i) = h.countP (storesWaiting L i) := by
    simp [hw]
  exact ⟨hs ▸ ho,by rwa [hcm,hcw],fun hx => by rw [hs,hcm,hcw]; exact hdue (hd hx)⟩

/-- A worker leaves the counters alone and shows WAITING only by its own store. -/
theorem watched_keeps {j : ι} {k : ι × TimePoint} {s s' : Watched ι S} {t t' : Watchee R W}
    (h : (watched L starveThresholdMs registry).act j k s t = some (s',t')) :
    s'.watchdog = s.watchdog ∧ s'.totalEvents = s.totalEvents ∧
    (∀ i, (s'.record i).starveCount = (s.record i).starveCount) ∧
    ∀ i, (s'.record i).state = .WAITING → (s.record i).state = .WAITING ∨
      j = i ∧ t.worker.publishes L = some .WAITING ∧ t.transition ≠ .outside := by
  cases watched_act_cases h with
  | waitStart | enter =>
    refine ⟨rfl,rfl,fun i => s.modify_keeps (·.starveCount) j i fun _ => rfl,fun i hi => .inl ?_⟩
    rw [← hi,eq_comm]
    exact s.modify_keeps (·.state) j i fun _ => rfl
  | load | wait => exact ⟨rfl,rfl,fun _ => rfl,fun _ => .inl⟩
  | step hw =>
    refine ⟨rfl,rfl,fun i => ?_,fun i hi => ?_⟩
    · exact s.modify_keeps (·.starveCount) j i
        (f := fun r => { r with state := (t.worker.publishes L).getD r.state }) fun _ => rfl
    by_cases hij : i = j
    · subst hij
      simp only [Watched.modify_self] at hi
      cases hp : t.worker.publishes L with
      | none => exact .inl (by rwa [hp] at hi)
      | some st =>
        rw [hp] at hi
        cases hi
        exact .inr ⟨rfl,rfl,hw hp⟩
    · simp only [s.modify_of_ne hij] at hi
      exact .inl hi

theorem charged_step (hn : (watched L starveThresholdMs registry).next c l = some c')
    (hc : Charged L i h c) : Charged L i ((c,l) :: h) c' := by
  rcases l with ⟨j,k⟩ | e
  · obtain ⟨s',t',ha,rfl⟩ := Machine.next_thread.mp hn
    obtain ⟨hdog,-,-,hstate⟩ := watched_keeps ha
    have hm : marks i (c,.thread j k) = false := rfl
    cases hw : storesWaiting L i (c,.thread j k) with
    | true =>
      obtain ⟨-,hr,-⟩ := hc
      refine ⟨?_,?_,fun _ => ⟨?_,?_⟩⟩ <;> simp [chargedSince,hw,hm] <;> omega
    | false =>
      refine hc.keep hw hm fun hx => ?_
      rcases hx with hx | hx
      · rcases hstate i hx with hs | ⟨rfl,hs⟩
        · exact .inl hs
        · simp [storesWaiting,hs] at hw
      · exact .inr (hdog ▸ hx)
  · obtain ⟨s',he,rfl⟩ := Machine.next_env.mp hn
    have hw : storesWaiting L i (c,.env e) = false := rfl
    rcases e with d | τ | _
    · obtain ⟨x,-,rfl⟩ := Option.map_eq_some_iff.mp he
      exact hc.keep hw rfl id
    · cases watchdog_cases he with
      | look hm _ _ hx =>
        refine hc.keep hw (by simp [marks,marked,hm]) fun hy => ?_
        rcases hy with hy | hy
        · exact .inl hy
        · exact hx i hy
      | @flag j waitMs rest hw' =>
        by_cases hij : j = i
        · subst hij
          obtain ⟨hz,hlt⟩ := hc.due (.inr (by rw [hw']; rfl))
          have hm : marks j (c,.env (.watchdog τ)) = true := by
            simp [marks,marked,hw',WatchdogAt.marks]
          refine ⟨?_,?_,fun hx => ?_⟩
          · simp [chargedSince,hw,hm,hz]
          · simp only [List.countP_cons,hm,hw,if_true,Bool.false_eq_true,if_false]
            omega
          · simp [WatchdogAt.examines] at hx
        · refine hc.keep hw ?_ fun hx => ?_
          · simp [marks,marked,hw',WatchdogAt.marks,hij]
          · rcases hx with hx | hx
            · simp only [c.shared.modify_of_ne (Ne.symm hij)] at hx
              exact .inl hx
            · cases hx
      | @count j waitMs rest hw' =>
        refine hc.keep hw (by simp [marks,marked,hw',WatchdogAt.marks]) fun hx => ?_
        rcases hx with hx | hx
        · have hs := c.shared.modify_keeps (·.state) j i
            (f := fun r => { r with starveCount := r.starveCount+1 }) fun _ => rfl
          exact .inl (hs.symm.trans hx)
        · cases hx
      | event hw' =>
        refine hc.keep hw (by simp [marks,marked,hw',WatchdogAt.marks]) fun hx => ?_
        rcases hx with hx | hx
        · exact .inl hx
        · cases hx
    · cases he
      exact hc.keep hw rfl id

theorem charged_run {c₀ : Config ι (Watched ι S) (Watchee R W)}
    (hr : Run (watched L starveThresholdMs registry) c₀ h c) (h₀ : Charged L i [] c₀) :
    Charged L i h c := by
  induction hr with
  | start => exact h₀
  | step _ hn ih => exact charged_step hn ih

variable [Fintype ι]

/-- The counters agree with the stores of BLOCKED, up to the updates that are under way. -/
structure Tallied (h : List (WatchedEvent ι S R W)) (c : Config ι (Watched ι S) (Watchee R W)) :
    Prop where
  counted : ∀ i, (c.shared.record i).starveCount+
    (if c.shared.watchdog.uncounted = some i then 1 else 0) = h.countP (marks i)
  totalled : total (·.starveCount) c.shared.record =
    c.shared.totalEvents+(if c.shared.watchdog.owesEvent then 1 else 0)

/-- Steps that leave the counters alone. -/
theorem Tallied.keep (hc : Tallied h c) (hm : ∀ i, marks i (c,l) = false)
    (hs : ∀ i, (c'.shared.record i).starveCount = (c.shared.record i).starveCount)
    (he : c'.shared.totalEvents = c.shared.totalEvents)
    (hu : c'.shared.watchdog.uncounted = c.shared.watchdog.uncounted)
    (ho : c'.shared.watchdog.owesEvent = c.shared.watchdog.owesEvent) :
    Tallied ((c,l) :: h) c' := by
  obtain ⟨hcount,htotal⟩ := hc
  refine ⟨fun i => ?_,?_⟩
  · rw [hs,hu,hcount,List.countP_cons_of_neg (by simp [hm])]
  · rw [he,ho,← htotal]
    exact Finset.sum_congr rfl fun i _ => hs i

theorem tallied_step (hn : (watched L starveThresholdMs registry).next c l = some c')
    (hc : Tallied h c) : Tallied ((c,l) :: h) c' := by
  rcases l with ⟨j,k⟩ | e
  · obtain ⟨s',t',ha,rfl⟩ := Machine.next_thread.mp hn
    obtain ⟨hdog,he,hs,-⟩ := watched_keeps ha
    exact hc.keep (fun _ => rfl) hs he (congrArg _ hdog) (congrArg _ hdog)
  · obtain ⟨s',he,rfl⟩ := Machine.next_env.mp hn
    rcases e with d | τ | _
    · obtain ⟨x,-,rfl⟩ := Option.map_eq_some_iff.mp he
      exact hc.keep (fun _ => rfl) (fun _ => rfl) rfl rfl rfl
    · cases watchdog_cases he with
      | look hm hs hs' =>
        refine hc.keep (fun i => by simp [marks,marked,hm]) (fun _ => rfl) rfl ?_ ?_
        · exact hs'.1.trans hs.1.symm
        · exact hs'.2.trans hs.2.symm
      | @flag j waitMs rest hw =>
        obtain ⟨hcount,htotal⟩ := hc
        have hstarve : ∀ i, ((c.shared.modify j fun r => { r with state := .BLOCKED }).record
            i).starveCount = (c.shared.record i).starveCount :=
          fun i => c.shared.modify_keeps (·.starveCount) j i fun _ => rfl
        rw [hw] at hcount htotal
        refine ⟨fun i => ?_,?_⟩
        · have hi := hcount i
          simp only [WatchdogAt.uncounted,reduceCtorEq,if_false,add_zero] at hi
          simp only [hstarve,hi,WatchdogAt.uncounted,List.countP_cons,marks,marked,hw,
            WatchdogAt.marks,Option.some.injEq,decide_eq_true_eq,Nat.cast_add,Nat.cast_ite,
            Nat.cast_one,Nat.cast_zero]
        · refine Eq.trans ?_ htotal
          exact Finset.sum_congr rfl fun i _ => hstarve i
      | @count j waitMs rest hw =>
        obtain ⟨hcount,htotal⟩ := hc
        rw [hw] at hcount htotal
        refine ⟨fun i => ?_,?_⟩
        · have hi := hcount i
          simp only [WatchdogAt.uncounted,reduceCtorEq,if_false,add_zero,List.countP_cons,marks,
            marked,hw,WatchdogAt.marks,decide_false,Bool.false_eq_true] at hi ⊢
          rw [← hi]
          by_cases hij : i = j
          · subst hij
            simp only [Watched.modify_self,if_true]
          · simp [c.shared.modify_of_ne hij,Ne.symm hij]
        · obtain ⟨r,hr,hr'⟩ := total_split (·.starveCount) c.shared.record j
          simp only [WatchdogAt.owesEvent,if_true,Bool.false_eq_true,if_false,add_zero] at htotal ⊢
          calc total (·.starveCount) (c.shared.modify j fun r =>
                { r with starveCount := r.starveCount+1 }).record
            _ = r+((c.shared.record j).starveCount+1) := hr' _
            _ = c.shared.totalEvents+1 := by rw [← htotal,hr,add_assoc]
      | @event j waitMs rest hw =>
        obtain ⟨hcount,htotal⟩ := hc
        rw [hw] at hcount htotal
        refine ⟨fun i => ?_,?_⟩
        · rw [List.countP_cons_of_neg (by simp [marks,marked,hw,WatchdogAt.marks]),← hcount i]
          rfl
        · simpa only [WatchdogAt.owesEvent,if_true,Bool.false_eq_true,if_false,add_zero]
            using htotal
    · cases he
      exact hc.keep (fun _ => rfl) (fun _ => rfl) rfl rfl rfl

theorem tallied_run {c₀ : Config ι (Watched ι S) (Watchee R W)}
    (hr : Run (watched L starveThresholdMs registry) c₀ h c) (h₀ : Tallied [] c₀) :
    Tallied h c := by
  induction hr with
  | start => exact h₀
  | step _ hn ih => exact tallied_step hn ih

end

section
variable {cfg : Workload} {process : Process} {algo : AlgoType} {starveThresholdMs : Int}
  {registry : List cfg.Tid}
  {h : List (WatchedEvent cfg.Tid (algo.Shared cfg.Tid) algo.ReadPC algo.WritePC)}
  {c : Config cfg.Tid (Watched cfg.Tid (algo.Shared cfg.Tid)) (Watchee algo.ReadPC algo.WritePC)}

/-- While a thread does not store WAITING, the watchdog stores BLOCKED for it once at most.
So no thread is counted as starving more often than it has asked for the lock, and the total
is the sum of the threads' counters whenever the watchdog is not about to update it. -/
theorem charged_once (hr : Run (watched (algo.lock cfg.Tid) starveThresholdMs registry)
      (cfg.watchedStart (algo.lock cfg.Tid) process) h c) :
    (∀ i later between earlier, h = later ++ (between ++ earlier) →
      (∀ e ∈ between, storesWaiting (algo.lock cfg.Tid) i e = false) →
      between.countP (marks i) ≤ 1) ∧
    (∀ i, (c.shared.record i).starveCount ≤ h.countP (storesWaiting (algo.lock cfg.Tid) i)) ∧
    (c.shared.watchdog.owesEvent = false →
      c.shared.totalEvents = ∑ i, (c.shared.record i).starveCount) := by
  have hcharged : ∀ i, Charged (algo.lock cfg.Tid) i []
      (cfg.watchedStart (algo.lock cfg.Tid) process) := fun i =>
    ⟨Nat.zero_le 1,le_refl 0,fun hx => by rcases hx with hx | hx <;> cases hx⟩
  have htallied : Tallied [] (cfg.watchedStart (algo.lock cfg.Tid) process) :=
    ⟨fun i => rfl,by simp [total,Workload.watchedStart,WatchdogAt.owesEvent]⟩
  obtain ⟨hcount,htotal⟩ := tallied_run hr htallied
  refine ⟨fun i later between earlier he hw => ?_,fun i => ?_,fun ho => ?_⟩
  · subst he
    obtain ⟨c',hr',-⟩ := hr.split
    have hone := (charged_run hr' (hcharged i)).once
    rw [chargedSince_append hw] at hone
    omega
  · have hle := (charged_run hr (hcharged i)).requested
    have hi := hcount i
    split at hi <;> omega
  · rw [ho] at htotal
    simpa [total] using htotal.symm

end

/-- The reader waits once and is charged once. -/
theorem charged_once_witness : ∃ h c,
    Run (watched (AlgoType.READER_PRIORITY.lock (oneOfEach 2 false).Tid) 500 [0,1])
      ((oneOfEach 2 false).watchedStart
        (AlgoType.READER_PRIORITY.lock (oneOfEach 2 false).Tid) {}) h c ∧
    (c.shared.record 0).starveCount = 1 ∧ h.countP (marks 0) = 1 ∧
    c.shared.totalEvents = ∑ i, (c.shared.record i).starveCount := by
  have hr := Run.events (m := watched
      (AlgoType.READER_PRIORITY.lock (oneOfEach 2 false).Tid) 500 [0,1])
    (starvingReader ++ List.replicate 2 (.env (.watchdog 500000000)))
    (c := (oneOfEach 2 false).watchedStart
      (AlgoType.READER_PRIORITY.lock (oneOfEach 2 false).Tid) {}) rfl
  exact ⟨_,_,hr,rfl,by decide,(charged_once hr).2.2 rfl⟩

end ReadersWriters
