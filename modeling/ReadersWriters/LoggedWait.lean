import ReadersWriters.StarveCount
set_option autoImplicit false

namespace ReadersWriters
open Interleaving

/-- One wait of a thread: the clock readings of `enterWaiting`, `currentWaitMs` and
`enterActive`, whether BLOCKED was stored before `currentWaitMs` loaded the state, what
`enterActive` added to `totalWaitMs` and what went to the log. -/
structure Wait where
  start : TimePoint
  flagged : Bool
  read : TimePoint
  enter : TimePoint
  added : Int
  logged : Int
  deriving DecidableEq, Repr

/-- The waits of a thread that are over, and what has been seen of the present one. -/
structure Observed where
  start : TimePoint := 0
  flagged : Bool := false
  read : TimePoint := 0
  enter : TimePoint := 0
  before : Int := 0
  waits : List Wait := []

section
variable {ι S R W : Type}

/-- Workers do not store BLOCKED. -/
theorem tracks_ne_blocked {L : RWLockBase ι S R W} {t : Worker R W} (ht : t.Tracks L) :
    t.info.state ≠ .BLOCKED := by
  intro hb
  cases t with
  | reader info pc =>
    cases pc
    case call p => rcases ht with ⟨-,hs | hs⟩ | ⟨-,-,hs⟩ | ⟨-,hs⟩ <;> cases hs.symm.trans hb
    case claim | restore | finish => rcases ht with hs | hs <;> cases hs.symm.trans hb
    all_goals cases ht.symm.trans hb
  | writer info b pc =>
    cases pc
    case call a p => rcases ht with ⟨-,hs | hs⟩ | ⟨-,-,hs⟩ | ⟨-,hs⟩ <;> cases hs.symm.trans hb
    case abortTest | claim | restore | finish => rcases ht with hs | hs <;> cases hs.symm.trans hb
    all_goals cases ht.symm.trans hb

/-- A worker that stores ACTIVE has stored WAITING before. -/
theorem waiting_of_active {L : RWLockBase ι S R W} (hP : L.Publishes) {i w : ι}
    {s s' : SimState S} {t t' : Worker R W} (h : (workers L).act i w s t = some (s',t'))
    (ht : t.Tracks L) (hp : t.publishes L = some .ACTIVE) : t.info.state = .WAITING := by
  obtain ⟨-,⟨-,hst⟩ | hl⟩ := (publishes_step hP h ht).2 _ hp
  · cases hst
  · have hb := tracks_ne_blocked ht
    revert hl hb
    cases t.info.state <;> decide

/-- What a step of the thread itself shows. -/
def Observed.next (L : RWLockBase ι S R W) (o : Observed) (charged : ℕ) (τ : TimePoint)
    (r : ThreadRecord) (t : Watchee R W) : Observed :=
  match t.worker.publishes L, t.transition with
  | some .WAITING, .outside => { o with start := τ }
  | some .ACTIVE, .outside => { o with flagged := 0 < charged }
  | some .ACTIVE, .loaded _ => { o with read := τ }
  | some .ACTIVE, .waited _ => { o with enter := τ, before := r.totalWaitMs }
  | some .ACTIVE, .entered ms => { o with
      waits := ⟨o.start,o.flagged,o.read,o.enter,r.totalWaitMs-o.before,ms⟩ :: o.waits }
  | _, _ => o

variable [DecidableEq ι]

/-- The waits of thread `i` in a run. -/
def observe (L : RWLockBase ι S R W) (i : ι) : List (WatchedEvent ι S R W) → Observed
  | [] => {}
  | e :: h => match e.2 with
    | .thread j k => if j = i then (observe L i h).next L (chargedSince L i h) k.2
        (e.1.shared.record i) (e.1.locals i) else observe L i h
    | .env _ => observe L i h

/-- What the record shows while the thread has stored WAITING last. -/
structure Shown (L : RWLockBase ι S R W) (i : ι) (h : List (WatchedEvent ι S R W))
    (c : Config ι (Watched ι S) (Watchee R W)) : Prop where
  uncharged : chargedSince L i h = 0 → (c.shared.record i).state = (c.locals i).worker.info.state
  charged : 0 < chargedSince L i h → (c.locals i).worker.info.state = .WAITING →
    (c.shared.record i).state = .BLOCKED

variable {L : RWLockBase ι S R W} {starveThresholdMs : Int} {registry : List ι} {i : ι}
  {h : List (WatchedEvent ι S R W)} {c c' : Config ι (Watched ι S) (Watchee R W)}
  {l : Label ι (ι × TimePoint) (Beside ι)}

theorem Shown.keep (hc : Shown L i h c) (hw : storesWaiting L i (c,l) = false)
    (hm : marks i (c,l) = false)
    (hs : (c'.shared.record i).state = (c.shared.record i).state)
    (hl : (c'.locals i).worker = (c.locals i).worker) : Shown L i ((c,l) :: h) c' := by
  have hz : chargedSince L i ((c,l) :: h) = chargedSince L i h := by simp [chargedSince,hw,hm]
  exact ⟨by rw [hz,hs,hl]; exact hc.uncharged,by rw [hz,hs,hl]; exact hc.charged⟩

theorem shown_step (hP : L.Publishes) (hn : (watched L starveThresholdMs registry).next c l = some c')
    (ht : (c.locals i).worker.Tracks L) (hc : Shown L i h c) : Shown L i ((c,l) :: h) c' := by
  rcases l with ⟨j,k⟩ | e
  · obtain ⟨s',t',ha,rfl⟩ := Machine.next_thread.mp hn
    have hm : marks i (c,.thread j k) = false := rfl
    by_cases hij : i = j
    · subst hij
      cases watched_act_cases ha with
      | waitStart hp ht' =>
        exact hc.keep (by simp [storesWaiting,ht']) hm (by simp only [Watched.modify_self])
          (by simp only [Function.update_self])
      | load hp | wait hp =>
        exact hc.keep (by simp [storesWaiting,hp]) hm rfl (by simp only [Function.update_self])
      | enter hp =>
        exact hc.keep (by simp [storesWaiting,hp]) hm (by simp only [Watched.modify_self])
          (by simp only [Function.update_self])
      | @step x u hw _ hx =>
        obtain ⟨hinfo,-⟩ := publishes_step hP hx ht
        cases hp : (c.locals i).worker.publishes L with
        | none =>
          rw [hp] at hinfo
          have hs : storesWaiting L i (c,.thread i k) = false := by simp [storesWaiting,hp]
          have hz : chargedSince L i ((c,.thread i k) :: h) = chargedSince L i h := by
            simp [chargedSince,hs,hm]
          refine ⟨fun h₀ => ?_,fun h₀ hu => ?_⟩
          · simp only [Watched.modify_self,Function.update_self]
            exact (hc.uncharged (hz ▸ h₀)).trans hinfo.symm
          · simp only [Function.update_self] at hu
            simp only [Watched.modify_self]
            exact hc.charged (hz ▸ h₀) (hinfo.symm.trans hu)
        | some st =>
          rw [hp] at hinfo
          refine ⟨fun _ => ?_,fun h₀ hu => ?_⟩
          · simp only [Watched.modify_self,Function.update_self]
            exact hinfo.symm
          · simp only [Function.update_self] at hu
            obtain rfl : st = .WAITING := hinfo.symm.trans hu
            have hs : storesWaiting L i (c,.thread i k) = true := by simp [storesWaiting,hp,hw hp]
            simp [chargedSince,hs] at h₀
    · have hs : storesWaiting L i (c,.thread j k) = false := by
        simp [storesWaiting,Ne.symm hij]
      refine hc.keep hs hm ?_ (by simp only [Function.update_of_ne hij])
      cases watched_act_cases ha with
      | load | wait => rfl
      | waitStart | enter | step => simp only [c.shared.modify_of_ne hij]
  · obtain ⟨s',he,rfl⟩ := Machine.next_env.mp hn
    have hw : storesWaiting L i (c,.env e) = false := rfl
    rcases e with d | τ | _
    · obtain ⟨x,-,rfl⟩ := Option.map_eq_some_iff.mp he
      exact hc.keep hw rfl rfl rfl
    · cases watchdog_cases he with
      | look hm => exact hc.keep hw (by simp [marks,marked,hm]) rfl rfl
      | @flag j waitMs rest hw' =>
        by_cases hij : i = j
        · subst hij
          have hm : marks i (c,.env (.watchdog τ)) = true := by
            simp [marks,marked,hw',WatchdogAt.marks]
          refine ⟨fun h₀ => ?_,fun _ _ => ?_⟩
          · simp [chargedSince,hw,hm] at h₀
          · simp only [Watched.modify_self]
        · refine hc.keep hw ?_ ?_ rfl
          · simp [marks,marked,hw',WatchdogAt.marks,Ne.symm hij]
          · simp only [c.shared.modify_of_ne hij]
      | @count j waitMs rest hw' =>
        refine hc.keep hw (by simp [marks,marked,hw',WatchdogAt.marks]) ?_ rfl
        exact c.shared.modify_keeps (·.state) j i
          (f := fun r => { r with starveCount := r.starveCount+1 }) fun _ => rfl
      | event hw' => exact hc.keep hw (by simp [marks,marked,hw',WatchdogAt.marks]) rfl rfl
    · cases he
      exact hc.keep hw rfl rfl rfl

/-- What `currentWaitMs` returns if it loaded BLOCKED, and if it loaded WAITING. -/
def Observed.current (o : Observed) : Int := if o.flagged then 0 else millisBetween o.start o.read

def Observed.addedSum (o : Observed) : Int := (o.waits.map (·.added)).sum

/-- What has been seen of the present wait fits to where the thread is in its transition. -/
def Observed.Fits (L : RWLockBase ι S R W) (o : Observed) (r : ThreadRecord) (t : Watchee R W) :
    Prop :=
  match t.transition with
  | .outside => r.totalWaitMs = o.addedSum
  | .waitStarted => t.worker.publishes L = some .WAITING ∧ r.totalWaitMs = o.addedSum
  | .loaded waiting => t.worker.publishes L = some .ACTIVE ∧ r.totalWaitMs = o.addedSum ∧
      (t.worker.info.state = .WAITING → waiting = !o.flagged)
  | .waited ms => t.worker.publishes L = some .ACTIVE ∧ r.totalWaitMs = o.addedSum ∧
      (t.worker.info.state = .WAITING → ms = o.current)
  | .entered ms => t.worker.publishes L = some .ACTIVE ∧ o.before = o.addedSum ∧
      r.totalWaitMs = o.before+millisBetween o.start o.enter ∧
      (t.worker.info.state = .WAITING → ms = o.current)

/-- A flagged wait is logged as 0; the sum counts the wait in any case. -/
structure Wait.Kept (w : Wait) : Prop where
  logged : w.logged = if w.flagged then 0 else millisBetween w.start w.read
  added : w.added = millisBetween w.start w.enter

structure Logs (L : RWLockBase ι S R W) (i : ι) (h : List (WatchedEvent ι S R W))
    (c : Config ι (Watched ι S) (Watchee R W)) : Prop where
  start : (c.shared.record i).waitStart = (observe L i h).start
  fits : (observe L i h).Fits L (c.shared.record i) (c.locals i)
  waits : ∀ w ∈ (observe L i h).waits, w.Kept

theorem Logs.keep (hc : Logs L i h c) (ho : observe L i ((c,l) :: h) = observe L i h)
    (hs : (c'.shared.record i).waitStart = (c.shared.record i).waitStart)
    (ht : (c'.shared.record i).totalWaitMs = (c.shared.record i).totalWaitMs)
    (hl : c'.locals i = c.locals i) : Logs L i ((c,l) :: h) c' := by
  refine ⟨by rw [ho,hs,hc.start],?_,by rw [ho]; exact hc.waits⟩
  have hf := hc.fits
  rw [ho,hl]
  unfold Observed.Fits at *
  rwa [ht]

theorem observe_self (k : ι × TimePoint) : observe L i ((c,.thread i k) :: h) =
    (observe L i h).next L (chargedSince L i h) k.2 (c.shared.record i) (c.locals i) := by
  simp only [observe,if_true]

/-- The book after a step that ends a transition, which closes a wait only at the end of
`transitionActive`. -/
theorem next_stored (hP : L.Publishes) {k : ι × TimePoint} {x : SimState S} {u : Worker R W}
    (hw : (c.locals i).worker.publishes L = some .WAITING → (c.locals i).transition ≠ .outside)
    (hl : (c.locals i).worker.publishes L = some .ACTIVE →
      (c.locals i).transition = .waitStarted ∨ ∃ ms, (c.locals i).transition = .entered ms)
    (hx : (workers L).act i k.1 c.shared.sim (c.locals i).worker = some (x,u))
    (ht : (c.locals i).worker.Tracks L) (hc : Logs L i h c) :
    (c.shared.record i).waitStart = (observe L i ((c,.thread i k) :: h)).start ∧
    (c.shared.record i).totalWaitMs = (observe L i ((c,.thread i k) :: h)).addedSum ∧
    ∀ w ∈ (observe L i ((c,.thread i k) :: h)).waits, w.Kept := by
  obtain ⟨hstart,hf,hk⟩ := hc
  rw [observe_self]
  cases hpos : (c.locals i).transition with
  | outside =>
    simp only [Observed.Fits,hpos] at hf
    have ho : (observe L i h).next L (chargedSince L i h) k.2 (c.shared.record i)
        (c.locals i) = observe L i h := by
      rw [Observed.next,hpos]
      cases hp : (c.locals i).worker.publishes L with
      | none => rfl
      | some st =>
        cases st
        case WAITING => exact absurd hpos (hw hp)
        case ACTIVE => rcases hl hp with hl | ⟨ms,hl⟩ <;> cases hpos.symm.trans hl
        all_goals rfl
    rw [ho]
    exact ⟨hstart,hf,hk⟩
  | waitStarted =>
    simp only [Observed.Fits,hpos] at hf
    obtain ⟨hp,htotal⟩ := hf
    rw [Observed.next,hp,hpos]
    exact ⟨hstart,htotal,hk⟩
  | loaded waiting =>
    simp only [Observed.Fits,hpos] at hf
    rcases hl hf.1 with hl | ⟨ms,hl⟩ <;> cases hpos.symm.trans hl
  | waited ms =>
    simp only [Observed.Fits,hpos] at hf
    rcases hl hf.1 with hl | ⟨ms,hl⟩ <;> cases hpos.symm.trans hl
  | entered ms =>
    simp only [Observed.Fits,hpos] at hf
    obtain ⟨hp,hbefore,htotal,hms⟩ := hf
    have hwaiting := waiting_of_active hP hx ht hp
    rw [Observed.next,hp,hpos]
    refine ⟨hstart,?_,List.forall_mem_cons.mpr ⟨⟨hms hwaiting,?_⟩,hk⟩⟩
    · simp only [Observed.addedSum,List.map_cons,List.sum_cons]
      rw [Observed.addedSum] at hbefore
      omega
    · dsimp only
      omega

/-- A step of the thread itself. -/
theorem logs_own (hP : L.Publishes) {k : ι × TimePoint} {s' : Watched ι S} {t' : Watchee R W}
    (ha : WatchedCase L i k c.shared (c.locals i) s' t')
    (ht : (c.locals i).worker.Tracks L) (hS : Shown L i h c) (hc : Logs L i h c) :
    Logs L i ((c,.thread i k) :: h) ⟨s',Function.update c.locals i t'⟩ := by
  obtain ⟨hstart,hf,hk⟩ := hc
  cases ha with
  | waitStart hp hout =>
    have ho : observe L i ((c,.thread i k) :: h) = { observe L i h with start := k.2 } := by
      rw [observe_self,Observed.next,hp,hout]
    simp only [Observed.Fits,hout] at hf
    refine ⟨by rw [ho]; simp only [Watched.modify_self],?_,by rw [ho]; exact hk⟩
    rw [ho]
    simp only [Function.update_self,Watched.modify_self]
    exact ⟨hp,hf⟩
  | load hp hout =>
    have ho : observe L i ((c,.thread i k) :: h) =
        { observe L i h with flagged := 0 < chargedSince L i h } := by
      rw [observe_self,Observed.next,hp,hout]
    simp only [Observed.Fits,hout] at hf
    refine ⟨by rw [ho]; exact hstart,?_,by rw [ho]; exact hk⟩
    rw [ho]
    simp only [Function.update_self]
    refine ⟨hp,hf,fun hw => ?_⟩
    rcases Nat.eq_zero_or_pos (chargedSince L i h) with hz | hpos
    · simp [hS.uncharged hz,hw,hz]
    · simp [hS.charged hpos hw,hpos]
  | @wait waiting hp hl =>
    have ho : observe L i ((c,.thread i k) :: h) = { observe L i h with read := k.2 } := by
      rw [observe_self,Observed.next,hp,hl]
    simp only [Observed.Fits,hl] at hf
    obtain ⟨-,htotal,hw⟩ := hf
    refine ⟨by rw [ho]; exact hstart,?_,by rw [ho]; exact hk⟩
    rw [ho]
    simp only [Function.update_self]
    refine ⟨hp,htotal,fun hi => ?_⟩
    rw [hw hi,hstart,Observed.current]
    cases (observe L i h).flagged <;> rfl
  | @enter ms hp hl =>
    have ho : observe L i ((c,.thread i k) :: h) = { observe L i h with
        enter := k.2, before := (c.shared.record i).totalWaitMs } := by
      rw [observe_self,Observed.next,hp,hl]
    simp only [Observed.Fits,hl] at hf
    obtain ⟨-,htotal,hw⟩ := hf
    refine ⟨by rw [ho]; simpa only [Watched.modify_self] using hstart,?_,by rw [ho]; exact hk⟩
    rw [ho]
    simp only [Function.update_self,Watched.modify_self]
    exact ⟨hp,htotal,by rw [hstart],hw⟩
  | @step x u hw hl hx =>
    obtain ⟨hstart',htotal,hk'⟩ := next_stored hP hw hl hx ht ⟨hstart,hf,hk⟩
    refine ⟨?_,?_,hk'⟩
    · rw [← hstart']
      simp only [Watched.modify_self]
    · simp only [Function.update_self,Watched.modify_self]
      exact htotal

theorem logs_step (hP : L.Publishes) (hn : (watched L starveThresholdMs registry).next c l = some c')
    (ht : (c.locals i).worker.Tracks L) (hS : Shown L i h c) (hc : Logs L i h c) :
    Logs L i ((c,l) :: h) c' := by
  rcases l with ⟨j,k⟩ | e
  · obtain ⟨s',t',ha,rfl⟩ := Machine.next_thread.mp hn
    replace ha := watched_act_cases ha
    by_cases hij : i = j
    · subst hij
      exact logs_own hP ha ht hS hc
    · have ho : observe L i ((c,.thread j k) :: h) = observe L i h := by
        simp only [observe,Ne.symm hij,if_false]
      refine hc.keep ho ?_ ?_ (Function.update_of_ne hij ..) <;> cases ha <;>
        simp only [c.shared.modify_of_ne hij]
  · obtain ⟨s',he,rfl⟩ := Machine.next_env.mp hn
    rcases e with d | τ | _
    · obtain ⟨x,-,rfl⟩ := Option.map_eq_some_iff.mp he
      exact hc.keep rfl rfl rfl rfl
    · refine hc.keep rfl ?_ ?_ rfl
      · exact watchdog_keeps (·.waitStart) (fun _ => rfl) (fun _ => rfl) he i
      · exact watchdog_keeps (·.totalWaitMs) (fun _ => rfl) (fun _ => rfl) he i
    · cases he
      exact hc.keep rfl rfl rfl rfl

end

section
variable {cfg : Workload} {process : Process} {algo : AlgoType} {starveThresholdMs : Int}
  {registry : List cfg.Tid}
  {h : List (WatchedEvent cfg.Tid (algo.Shared cfg.Tid) algo.ReadPC algo.WritePC)}
  {c : Config cfg.Tid (Watched cfg.Tid (algo.Shared cfg.Tid)) (Watchee algo.ReadPC algo.WritePC)}

theorem logs_run (hr : Run (watched (algo.lock cfg.Tid) starveThresholdMs registry)
      (cfg.watchedStart (algo.lock cfg.Tid) process) h c) (i : cfg.Tid) :
    Attended (algo.lock cfg.Tid) c ∧ Shown (algo.lock cfg.Tid) i h c ∧
      Logs (algo.lock cfg.Tid) i h c := by
  have hP := algo.publishes cfg.Tid
  induction hr with
  | start =>
    refine ⟨attended_start cfg _ process,⟨fun _ => ?_,fun h₀ => ?_⟩,⟨rfl,rfl,?_⟩⟩
    · simp only [Workload.watchedStart,Workload.start]
      split <;> rfl
    · exact absurd h₀ (lt_irrefl 0)
    · exact fun w hw => by cases hw
  | step _ hn ih =>
    obtain ⟨hA,hS,hL⟩ := ih
    exact ⟨attended_step hP hn hA,shown_step hP hn (hA.tracks i) hS,
      logs_step hP hn (hA.tracks i) hS hL⟩

/-- What goes to the log is the wait up to that moment, and without a lapse of time the logged
waits add up to `totalWaitMs`, exactly if the watchdog flags no wait of a millisecond or more
before its end. -/
theorem logged_wait (hr : Run (watched (algo.lock cfg.Tid) starveThresholdMs registry)
      (cfg.watchedStart (algo.lock cfg.Tid) process) h c) :
    (∀ i, (∀ w ∈ (observe (algo.lock cfg.Tid) i h).waits,
        w.logged = millisBetween w.start w.read ∧ (w.read = w.enter → w.logged = w.added)) ∧
      ((∀ w ∈ (observe (algo.lock cfg.Tid) i h).waits, w.read = w.enter) →
        (∀ ms, (c.locals i).transition ≠ .entered ms) →
        ((observe (algo.lock cfg.Tid) i h).waits.map (·.logged)).sum =
          (c.shared.record i).totalWaitMs)) ↔
    ∀ i, ∀ w ∈ (observe (algo.lock cfg.Tid) i h).waits,
      w.flagged = false ∨ millisBetween w.start w.read = 0 := by
  constructor
  · intro hall i w hw
    have hl := ((hall i).1 w hw).1
    rw [((logs_run hr i).2.2.waits w hw).logged] at hl
    cases hf : w.flagged with
    | false => exact .inl rfl
    | true => exact .inr (by simpa [hf] using hl.symm)
  · intro hok i
    obtain ⟨-,-,hL⟩ := logs_run hr i
    have hreal : ∀ w ∈ (observe (algo.lock cfg.Tid) i h).waits,
        w.logged = millisBetween w.start w.read := by
      intro w hw
      rw [(hL.waits w hw).logged]
      rcases hok i w hw with hf | hz
      · simp [hf]
      · simp [hz]
    have hadded : ∀ w ∈ (observe (algo.lock cfg.Tid) i h).waits, w.read = w.enter →
        w.logged = w.added := by
      intro w hw he
      rw [hreal w hw,(hL.waits w hw).added,he]
    refine ⟨fun w hw => ⟨hreal w hw,hadded w hw⟩,fun he hn => ?_⟩
    have hsum : (c.shared.record i).totalWaitMs =
        (observe (algo.lock cfg.Tid) i h).addedSum := by
      have hf := hL.fits
      unfold Observed.Fits at hf
      split at hf
      case h_1 => exact hf
      case h_2 => exact hf.2
      case h_3 | h_4 => exact hf.2.1
      case h_5 ms hms => exact absurd hms (hn ms)
    rw [hsum,Observed.addedSum]
    exact congrArg List.sum (List.map_congr_left fun w hw => hadded w hw (he w hw))

end

/-- The reader waits for 300 ms, which go to the log, and the watchdog does not look. -/
theorem logged_wait_witness : ∃ h c,
    Run (watched (AlgoType.READER_PRIORITY.lock (oneOfEach 2 false).Tid) 500 [0,1])
      ((oneOfEach 2 false).watchedStart
        (AlgoType.READER_PRIORITY.lock (oneOfEach 2 false).Tid) {}) h c ∧
    ∃ w ∈ (observe (AlgoType.READER_PRIORITY.lock (oneOfEach 2 false).Tid) 0 h).waits,
      millisBetween w.start w.read = 300 ∧ w.logged = millisBetween w.start w.read := by
  have hr := Run.events (m := watched
      (AlgoType.READER_PRIORITY.lock (oneOfEach 2 false).Tid) 500 [0,1])
    (turns (0,0) [(1,12),(0,6)] ++ turns (0,300000000) [(1,8),(0,6)])
    (c := (oneOfEach 2 false).watchedStart
      (AlgoType.READER_PRIORITY.lock (oneOfEach 2 false).Tid) {}) rfl
  have hreal := (logged_wait hr).mpr (by decide +kernel)
  exact ⟨_,_,hr,⟨0,false,300000000,300000000,300,300⟩,by decide +kernel,by decide,
    ((hreal 0).1 _ (by decide +kernel)).1⟩

/-- The watchdog flags the reader after 500 ms; the log shows 0 for a wait of 600 ms that
`enterActive` counts. -/
theorem flagged_wait_logged_zero : ∃ h c,
    Run (watched (AlgoType.READER_PRIORITY.lock (oneOfEach 2 false).Tid) 500 [0,1])
      ((oneOfEach 2 false).watchedStart
        (AlgoType.READER_PRIORITY.lock (oneOfEach 2 false).Tid) {}) h c ∧
    (observe (AlgoType.READER_PRIORITY.lock (oneOfEach 2 false).Tid) 0 h).waits =
      [⟨0,true,600000000,600000000,600,0⟩] ∧
    millisBetween 0 600000000 = 600 ∧ (c.shared.record 0).totalWaitMs = 600 :=
  ⟨_,_,Run.events (m := watched (AlgoType.READER_PRIORITY.lock (oneOfEach 2 false).Tid) 500 [0,1])
    (starvingReader ++ turns (0,600000000) [(1,8),(0,6)])
    (c := (oneOfEach 2 false).watchedStart
      (AlgoType.READER_PRIORITY.lock (oneOfEach 2 false).Tid) {}) rfl,
    by decide +kernel,by decide,rfl⟩

end ReadersWriters
