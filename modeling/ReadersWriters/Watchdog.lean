import ReadersWriters.Publishing
set_option autoImplicit false

namespace ReadersWriters
open Interleaving

/-- A `TimePoint`, in the nanoseconds of `std::chrono::steady_clock`. -/
abbrev TimePoint := Int

/-- `std::chrono::duration_cast<Ms>(t-start).count()`, which truncates. -/
def millisBetween (start t : TimePoint) : Int := (t-start).tdiv 1000000

/-- The part of a `ThreadInfo` that the watchdog reads or writes, and the clock readings. -/
structure ThreadRecord where
  state : ThreadState := .INIT
  waitStart : TimePoint := 0
  activeStart : TimePoint := 0
  totalWaitMs : Int := 0
  starveCount : Int := 0
  deriving DecidableEq, Repr

/-- The program points of `Watchdog::run`, with the threads of the registry that the poll
has yet to visit. `reload`, `now` and `elapsed` are inside `currentWaitMs`. -/
inductive WatchdogAt (ι : Type) where
  | poll
  | visit (rest : List ι)
  | reload (i : ι) (rest : List ι) | now (i : ι) (rest : List ι)
  | elapsed (i : ι) (now : TimePoint) (rest : List ι)
  | flag (i : ι) (waitMs : Int) (rest : List ι)
  | count (i : ι) (waitMs : Int) (rest : List ι)
  | event (i : ι) (waitMs : Int) (rest : List ι)
  | stopped
  deriving DecidableEq, Repr

/-- The simulation with the threads' records and its watchdog. -/
structure Watched (ι S : Type) where
  sim : SimState S
  record : ι → ThreadRecord := fun _ => {}
  watchdog : WatchdogAt ι := .poll
  running : Bool := true
  totalEvents : Int := 0

/-- How far a worker is in `transitionWaiting` or `transitionActive`; `waited` is after the
return of `currentWaitMs`, `entered` before the store of ACTIVE. -/
inductive Transition where
  | outside
  | waitStarted
  | loaded (waiting : Bool) | waited (ms : Int) | entered (ms : Int)
  deriving DecidableEq, Repr

structure Watchee (R W : Type) where
  worker : Worker R W
  transition : Transition := .outside

/-- What happens besides the steps of the workers; a clock reading comes with each step of
the watchdog. -/
inductive Beside (ι : Type) where
  | disturbance (d : Disturbance ι) | watchdog (t : TimePoint) | stop
  deriving DecidableEq, Repr

section
variable {ι S R W : Type}

/-- The state that the next step of a worker stores. -/
def Worker.publishes (L : RWLockBase ι S R W) : Worker R W → Option ThreadState
  | .reader _ pc => match pc with
      | .start => some .INIT
      | .call p => L.readPublish p
      | .finish => some .DONE
      | _ => none
  | .writer _ _ pc => match pc with
      | .start => some .INIT
      | .call _ p => L.writePublish p
      | .finish => some .DONE
      | _ => none

variable [DecidableEq ι]

def Watched.modify (s : Watched ι S) (i : ι) (f : ThreadRecord → ThreadRecord) : Watched ι S :=
  { s with record := Function.update s.record i (f (s.record i)) }

/-- The end of `currentWaitMs` and the comparison with the threshold. -/
def compareWait (starveThresholdMs : Int) (i : ι) (waitMs : Int) (rest : List ι) : WatchdogAt ι :=
  if waitMs ≥ starveThresholdMs then .flag i waitMs rest else .visit rest

def watchdogRun (starveThresholdMs : Int) (registry : List ι) (t : TimePoint) (s : Watched ι S) :
    Option (Watched ι S) :=
  match s.watchdog with
  | .poll => some { s with watchdog := if s.running then .visit registry else .stopped }
  | .visit [] => some { s with watchdog := .poll }
  | .visit (i :: rest) => some { s with
      watchdog := if (s.record i).state ≠ .WAITING then .visit rest else .reload i rest }
  | .reload i rest => some { s with
      watchdog := if (s.record i).state = .WAITING then .now i rest
        else compareWait starveThresholdMs i 0 rest }
  | .now i rest => some { s with watchdog := .elapsed i t rest }
  | .elapsed i now rest => some { s with
      watchdog := compareWait starveThresholdMs i (millisBetween (s.record i).waitStart now) rest }
  | .flag i waitMs rest =>
      some { s.modify i fun r => { r with state := .BLOCKED } with watchdog := .count i waitMs rest }
  | .count i waitMs rest =>
      some { s.modify i fun r => { r with starveCount := r.starveCount+1 } with
        watchdog := .event i waitMs rest }
  | .event _ _ rest => some { s with totalEvents := s.totalEvents+1, watchdog := .visit rest }
  | .stopped => none

/-- The workers with their clock readings and the loads and stores of their states. A step
that stores a state is the step of `workers` and comes last in its transition. -/
def watched (L : RWLockBase ι S R W) (starveThresholdMs : Int) (registry : List ι) :
    Machine ι (ι × TimePoint) (Beside ι) (Watched ι S) (Watchee R W) where
  act i k s t :=
    match t.worker.publishes L, t.transition with
    | some .WAITING, .outside =>
        some (s.modify i fun r => { r with waitStart := k.2 },⟨t.worker,.waitStarted⟩)
    | some .ACTIVE, .outside => some (s,⟨t.worker,.loaded ((s.record i).state = .WAITING)⟩)
    | some .ACTIVE, .loaded waiting => some (s,⟨t.worker,
        .waited (if waiting then millisBetween (s.record i).waitStart k.2 else 0)⟩)
    | some .ACTIVE, .waited ms =>
        some (s.modify i fun r => { r with
          activeStart := k.2
          totalWaitMs := r.totalWaitMs+millisBetween r.waitStart k.2 },⟨t.worker,.entered ms⟩)
    | st, _ => ((workers L).act i k.1 s.sim t.worker).map fun r =>
        ({ s.modify i fun x => { x with state := st.getD x.state } with sim := r.1 },⟨r.2,.outside⟩)
  env
    | .disturbance d, s => ((workers L).env d s.sim).map fun x => { s with sim := x }
    | .watchdog t, s => watchdogRun starveThresholdMs registry t s
    | .stop, s => some { s with running := false }

end

/-- The watchdog is started before the workers; the registry lists all threads in order. -/
def Workload.watchedStart {S R W : Type} (cfg : Workload) (L : RWLockBase cfg.Tid S R W)
    (process : Process) : Config cfg.Tid (Watched cfg.Tid S) (Watchee R W) where
  shared := { sim := (cfg.start L process).shared }
  locals i := ⟨(cfg.start L process).locals i,.outside⟩

/-- The changes of state in the life of a thread. -/
def lifeCycle : List (ThreadState × ThreadState) :=
  [(.INIT,.WAITING),(.WAITING,.BLOCKED),(.WAITING,.ACTIVE),(.BLOCKED,.ACTIVE),
    (.ACTIVE,.RELEASING),(.RELEASING,.WAITING),(.RELEASING,.DONE),(.INIT,.DONE)]

section
variable {ι S R W : Type} {L : RWLockBase ι S R W} {i w : ι} {s s' : SimState S}
  {t t' : Worker R W}

theorem Published.lifeCycle {P : Type} {locking : P → Bool} {first p : P} {q : Pos P}
    {st : ThreadState} {old : ThreadState} (hf : locking first = true)
    (h : Published locking first p q (some st))
    (hp : (Pos.inside p).Expects locking first old) :
    st ≠ .BLOCKED ∧ (old,st) ∈ lifeCycle := by
  cases h with
  | waiting he hq hn =>
    rcases hp with ⟨-,rfl | rfl⟩ | ⟨hn',-⟩ | ⟨hl,-⟩
    · decide
    · decide
    · exact absurd he hn'
    · rw [he,hf] at hl
      cases hl
  | active hl hn =>
    rcases hp with ⟨he,-⟩ | ⟨-,-,rfl⟩ | ⟨hl',-⟩
    · exact absurd he hn
    · decide
    · cases hl'.symm.trans hl
  | releasing hl =>
    rcases hp with ⟨he,-⟩ | ⟨-,hl',-⟩ | ⟨-,rfl⟩
    · rw [he,hf] at hl
      cases hl
    · cases hl.symm.trans hl'
    · decide

/-- What a worker stores, and that it keeps to the life cycle as the worker knows it. -/
theorem publishes_step (hP : L.Publishes) (h : (workers L).act i w s t = some (s',t'))
    (ht : t.Tracks L) : t'.info.state = (t.publishes L).getD t.info.state ∧
      ∀ st, t.publishes L = some st → st ≠ .BLOCKED ∧
        (t.info.state = .INIT ∧ st = .INIT ∨ (t.info.state,st) ∈ lifeCycle) := by
  replace h := workers_cases h
  cases h with
  | @reader info info' pc pc' _ h =>
    cases h
    case start => exact ⟨rfl,fun st hs => by cases hs; exact ⟨by decide,.inl ⟨ht,rfl⟩⟩⟩
    case call p l q hs =>
      refine ⟨?_,fun st hst => ?_⟩
      · change (info.publish (L.readPublish p)).state = (L.readPublish p).getD info.state
        cases L.readPublish p <;> rfl
      · have hp := hP.read hs
        rw [show L.readPublish p = some st from hst] at hp
        obtain ⟨hb,hl⟩ := hp.lifeCycle L.readLock_locking ht
        exact ⟨hb,.inr hl⟩
    case finish =>
      refine ⟨rfl,fun st hs => ?_⟩
      cases hs
      refine ⟨by decide,.inr ?_⟩
      change (info.state,_) ∈ _
      rcases ht with ht | ht <;> rw [ht] <;> decide
    all_goals exact ⟨rfl,fun st hs => by cases hs⟩
  | @writer info info' b pc pc' _ h =>
    cases h
    case start => exact ⟨rfl,fun st hs => by cases hs; exact ⟨by decide,.inl ⟨ht,rfl⟩⟩⟩
    case call a p l q hs =>
      refine ⟨?_,fun st hst => ?_⟩
      · change (info.publish (L.writePublish p)).state = (L.writePublish p).getD info.state
        cases L.writePublish p <;> rfl
      · have hp := hP.write hs
        rw [show L.writePublish p = some st from hst] at hp
        obtain ⟨hb,hl⟩ := hp.lifeCycle L.writeLock_locking ht
        exact ⟨hb,.inr hl⟩
    case finish =>
      refine ⟨rfl,fun st hs => ?_⟩
      cases hs
      refine ⟨by decide,.inr ?_⟩
      change (info.state,_) ∈ _
      rcases ht with ht | ht <;> rw [ht] <;> decide
    all_goals exact ⟨rfl,fun st hs => by cases hs⟩

end

section
variable {ι : Type}

/-- The thread whose state the watchdog has found to be WAITING. -/
def WatchdogAt.examines : WatchdogAt ι → Option ι
  | .reload i _ | .now i _ | .elapsed i _ _ | .flag i _ _ => some i
  | _ => none

/-- The watchdog is about to store BLOCKED. -/
def WatchdogAt.marks : WatchdogAt ι → Option ι
  | .flag i _ _ => some i
  | _ => none

theorem examines_compareWait {starveThresholdMs waitMs : Int} {i j : ι} {rest : List ι}
    (h : (compareWait starveThresholdMs i waitMs rest).examines = some j) : j = i := by
  simp only [compareWait] at h
  split at h <;> cases h
  rfl

end

section
variable {ι S R W : Type} [DecidableEq ι]

@[simp] theorem Watched.modify_self (s : Watched ι S) (i : ι) (f : ThreadRecord → ThreadRecord) :
    (s.modify i f).record i = f (s.record i) := Function.update_self ..

theorem Watched.modify_of_ne (s : Watched ι S) {i j : ι} (h : j ≠ i)
    (f : ThreadRecord → ThreadRecord) : (s.modify i f).record j = s.record j :=
  Function.update_of_ne h ..

/-- A field that the change keeps is kept for every thread. -/
theorem Watched.modify_keeps {α : Type} (g : ThreadRecord → α) (s : Watched ι S) (i j : ι)
    {f : ThreadRecord → ThreadRecord} (hf : ∀ r, g (f r) = g r) :
    g ((s.modify i f).record j) = g (s.record j) := by
  by_cases hj : j = i
  · subst hj
    rw [modify_self,hf]
  · rw [modify_of_ne s hj]

variable {L : RWLockBase ι S R W} {starveThresholdMs : Int} {registry : List ι} {i : ι}
  {k : ι × TimePoint} {s s' : Watched ι S} {t t' : Watchee R W}

/-- A watched worker reads clocks and states, or it takes a step of its own and stores what
that step publishes. -/
theorem watched_cases (h : (watched L starveThresholdMs registry).act i k s t = some (s',t')) :
    s'.watchdog = s.watchdog ∧
    ((t'.worker = t.worker ∧ ∀ j, (s'.record j).state = (s.record j).state) ∨
    ∃ x, (workers L).act i k.1 s.sim t.worker = some (x,t'.worker) ∧
      (s'.record i).state = (t.worker.publishes L).getD (s.record i).state ∧
      ∀ j, j ≠ i → (s'.record j).state = (s.record j).state) := by
  simp only [watched] at h
  split at h
  case h_1 | h_4 =>
    cases h
    exact ⟨rfl,.inl ⟨rfl,fun j => s.modify_keeps (·.state) i j fun _ => rfl⟩⟩
  case h_2 | h_3 =>
    cases h
    exact ⟨rfl,.inl ⟨rfl,fun _ => rfl⟩⟩
  case h_5 =>
    obtain ⟨⟨x,u⟩,ha,he⟩ := Option.map_eq_some_iff.mp h
    cases he
    refine ⟨rfl,.inr ⟨x,ha,?_,fun j hj => ?_⟩⟩
    · simp only [Watched.modify_self]
    · simp only [Watched.modify_of_ne s hj]

/-- A step of the watchdog leaves the states alone and examines a thread that it has just
found WAITING or was examining before, or it stores BLOCKED. -/
theorem watchdogRun_cases {τ : TimePoint}
    (h : watchdogRun starveThresholdMs registry τ s = some s') :
    (s.watchdog.marks = none ∧ (∀ j, (s'.record j).state = (s.record j).state) ∧
      ∀ j, s'.watchdog.examines = some j →
        (s.record j).state = .WAITING ∨ s.watchdog.examines = some j) ∨
    ∃ j, s.watchdog.marks = some j ∧ (s'.record j).state = .BLOCKED ∧
      (∀ j', j' ≠ j → (s'.record j').state = (s.record j').state) ∧
      s'.watchdog.examines = none := by
  simp only [watchdogRun] at h
  split at h <;> rename_i hw <;> cases h <;> rw [hw]
  case h_7 =>
    exact .inr ⟨_,rfl,by simp only [Watched.modify_self],
      fun j hj => by simp only [Watched.modify_of_ne s hj],rfl⟩
  case h_8 i waitMs rest =>
    refine .inl ⟨rfl,fun j => ?_,fun j hj => by cases hj⟩
    exact s.modify_keeps (·.state) i j (f := fun r => { r with starveCount := r.starveCount+1 })
      fun _ => rfl
  case h_1 =>
    refine .inl ⟨rfl,fun _ => rfl,fun j hj => ?_⟩
    cases hr : s.running <;> simp [hr,WatchdogAt.examines] at hj
  case h_3 i rest =>
    refine .inl ⟨rfl,fun _ => rfl,fun j hj => ?_⟩
    by_cases hs : (s.record i).state = .WAITING
    · simp only [hs,ne_eq,not_true_eq_false,if_false] at hj
      cases hj
      exact .inl hs
    · simp only [hs,ne_eq,not_false_eq_true,if_true] at hj
      cases hj
  case h_4 =>
    refine .inl ⟨rfl,fun _ => rfl,fun j hj => ?_⟩
    dsimp only at hj
    split at hj
    · exact .inr hj
    · exact .inr (congrArg some (examines_compareWait hj).symm)
  case h_6 =>
    exact .inl ⟨rfl,fun _ => rfl,fun j hj =>
      .inr (congrArg some (examines_compareWait hj).symm)⟩
  case h_5 => exact .inl ⟨rfl,fun _ => rfl,fun j hj => .inr hj⟩
  all_goals exact .inl ⟨rfl,fun _ => rfl,fun j hj => by cases hj⟩

end

/-- A record shows the state that its worker stored last, or BLOCKED in place of WAITING. -/
def ThreadState.Shows (shown st : ThreadState) : Prop :=
  shown = st ∨ st = .WAITING ∧ shown = .BLOCKED

theorem ThreadState.Shows.lifeCycle {shown old st : ThreadState} (hs : shown.Shows old)
    (hb : st ≠ .BLOCKED) (h : (old,st) ∈ lifeCycle) : (shown,st) ∈ lifeCycle := by
  rcases hs with rfl | ⟨rfl,rfl⟩
  · exact h
  · revert hb h
    cases st <;> decide

/-- The store of a worker, seen from the record. -/
theorem ThreadState.Shows.publish {shown old : ThreadState} {p : Option ThreadState}
    (hs : shown.Shows old) (hp : ∀ st, p = some st → st ≠ .BLOCKED ∧
      (old = .INIT ∧ st = .INIT ∨ (old,st) ∈ ReadersWriters.lifeCycle)) :
    (p.getD shown).Shows (p.getD old) ∧
      (p.getD shown ≠ shown → (shown,p.getD shown) ∈ ReadersWriters.lifeCycle) := by
  cases p with
  | none => exact ⟨hs,fun hne => absurd rfl hne⟩
  | some st =>
    refine ⟨.inl rfl,fun hne => ?_⟩
    obtain ⟨hb,⟨rfl,rfl⟩ | hl⟩ := hp st rfl
    · rcases hs with rfl | ⟨hs,-⟩
      · exact absurd rfl hne
      · cases hs
    · exact hs.lifeCycle hb hl

namespace RWLockBase

section
variable {ι S R W : Type} (L : RWLockBase ι S R W)

/-- In the lock call and not admitted yet. -/
def Requests : Client R W → Prop
  | .reader (.inside p) => L.readLocking p = true ∧ L.readAdmitted p = false
  | .writer (.inside p) => L.writeLocking p = true ∧ L.writeAdmitted p = false
  | _ => False

instance : DecidablePred L.HoldsRead
  | .reader (.inside p) => inferInstanceAs (Decidable (L.readAdmitted p = true))
  | .reader .holding => isTrue trivial
  | .reader .idle | .writer _ => isFalse id

instance : DecidablePred L.HoldsWrite
  | .writer (.inside p) => inferInstanceAs (Decidable (L.writeAdmitted p = true))
  | .writer .holding => isTrue trivial
  | .writer .idle | .reader _ => isFalse id

instance : DecidablePred L.Holds :=
  fun t => inferInstanceAs (Decidable (L.HoldsRead t ∨ L.HoldsWrite t))

end

end RWLockBase

theorem RWLockBase.not_holds_of_requests {ι S R W : Type} {L : RWLockBase ι S R W}
    {t : Client R W} (h : L.Requests t) : ¬ L.Holds t := by
  rintro (hh | hh)
  · cases t with
    | reader q =>
      cases q with
      | inside p => cases h.2.symm.trans hh
      | idle | holding => cases h
    | writer q => cases hh
  · cases t with
    | reader q => cases hh
    | writer q =>
      cases q with
      | inside p => cases h.2.symm.trans hh
      | idle | holding => cases h

/-- A thread that stored WAITING last is in the lock call. -/
theorem requests_of_waiting {ι S R W : Type} {L : RWLockBase ι S R W} {t : Worker R W}
    (ht : t.Tracks L) (hw : t.info.state = .WAITING) (hn : ¬ L.Holds t.client) :
    L.Requests t.client := by
  cases t with
  | reader info pc =>
    cases pc
    case call p =>
      rcases ht with ⟨-,hs | hs⟩ | ⟨-,hl,-⟩ | ⟨-,hs⟩
      case inr.inl => exact ⟨hl,eq_false_of_ne_true fun hp => hn (.inl hp)⟩
      all_goals cases hs.symm.trans hw
    case start | done | read | loadReadCount | storeReadCount | work => cases ht.symm.trans hw
    all_goals rcases ht with hs | hs <;> cases hs.symm.trans hw
  | writer info b pc =>
    cases pc
    case call a p =>
      rcases ht with ⟨-,hs | hs⟩ | ⟨-,hl,-⟩ | ⟨-,hs⟩
      case inr.inl => exact ⟨hl,eq_false_of_ne_true fun hp => hn (.inr hp)⟩
      all_goals cases hs.symm.trans hw
    case abortTest | claim | restore | finish => rcases ht with hs | hs <;> cases hs.symm.trans hw
    all_goals cases ht.symm.trans hw

section
variable {ι S R W : Type}

/-- The thread for which the step, one of the watchdog, stores BLOCKED. -/
def marked (e : Event ι (ι × TimePoint) (Beside ι) (Watched ι S) (Watchee R W)) : Option ι :=
  match e.2 with
  | .env (.watchdog _) => e.1.shared.watchdog.marks
  | _ => none

/-- The watchdog stores BLOCKED although the thread has meanwhile stored another state or
has been admitted. -/
def MarksLate (L : RWLockBase ι S R W)
    (e : Event ι (ι × TimePoint) (Beside ι) (Watched ι S) (Watchee R W)) : Prop :=
  ∃ i ∈ marked e, (e.1.shared.record i).state ≠ .WAITING ∨ L.Holds (e.1.locals i).worker.client

instance (L : RWLockBase ι S R W)
    (e : Event ι (ι × TimePoint) (Beside ι) (Watched ι S) (Watchee R W)) :
    Decidable (MarksLate L e) :=
  match h : marked e with
  | none => isFalse fun ⟨_,hi,_⟩ => by cases h.symm.trans hi
  | some i => decidable_of_iff
      ((e.1.shared.record i).state ≠ .WAITING ∨ L.Holds (e.1.locals i).worker.client)
      ⟨fun hl => ⟨i,h,hl⟩,fun ⟨j,hj,hl⟩ => by cases h.symm.trans hj; exact hl⟩

/-- Each worker knows what it has stored, and the watchdog examines no thread that is BLOCKED. -/
structure Attended (L : RWLockBase ι S R W) (c : Config ι (Watched ι S) (Watchee R W)) : Prop where
  tracks : ∀ i, (c.locals i).worker.Tracks L
  examined : ∀ i, c.shared.watchdog.examines = some i → (c.shared.record i).state ≠ .BLOCKED

/-- The records show what the workers have stored. -/
def Truthful (c : Config ι (Watched ι S) (Watchee R W)) : Prop :=
  ∀ i, (c.shared.record i).state.Shows (c.locals i).worker.info.state

variable [DecidableEq ι] {L : RWLockBase ι S R W} {starveThresholdMs : Int} {registry : List ι}
  {c c' : Config ι (Watched ι S) (Watchee R W)} {l : Label ι (ι × TimePoint) (Beside ι)}

theorem attended_step (hP : L.Publishes)
    (hn : (watched L starveThresholdMs registry).next c l = some c') (hc : Attended L c) :
    Attended L c' := by
  rcases l with ⟨i,k⟩ | e
  · obtain ⟨s',t',ha,rfl⟩ := Machine.next_thread.mp hn
    obtain ⟨hw,⟨ht,hs⟩ | ⟨x,hx,hi,hj⟩⟩ := watched_cases ha
    · refine ⟨fun j => ?_,fun j hj => ?_⟩
      · by_cases hij : j = i
        · subst hij
          simpa only [Function.update_self,ht] using hc.tracks j
        · simpa only [Function.update_of_ne hij] using hc.tracks j
      · rw [hs j]
        exact hc.examined j (hw ▸ hj)
    · obtain ⟨-,hst⟩ := publishes_step hP hx (hc.tracks i)
      refine ⟨fun j => ?_,fun j hj' => ?_⟩
      · by_cases hij : j = i
        · subst hij
          simpa only [Function.update_self] using tracks_step hP hx (hc.tracks j)
        · simpa only [Function.update_of_ne hij] using hc.tracks j
      · have he := hc.examined j (hw ▸ hj')
        by_cases hij : j = i
        · subst hij
          simp only [hi]
          cases hp : (c.locals j).worker.publishes L with
          | none => exact he
          | some st => exact (hst st hp).1
        · simpa only [hj j hij] using he
  · obtain ⟨s',he,rfl⟩ := Machine.next_env.mp hn
    refine ⟨hc.tracks,fun j hj => ?_⟩
    rcases e with d | τ | _
    · obtain ⟨x,-,rfl⟩ := Option.map_eq_some_iff.mp he
      exact hc.examined j hj
    · rcases watchdogRun_cases he with ⟨-,hs,hx⟩ | ⟨i,-,-,-,hx⟩
      · simp only [hs j]
        rcases hx j hj with hw | hx
        · simp only [hw]
          decide
        · exact hc.examined j hx
      · cases hx.symm.trans hj
    · cases he
      exact hc.examined j hj

/-- The step changes states along the life cycle only. -/
def Follows (c c' : Config ι (Watched ι S) (Watchee R W)) : Prop :=
  ∀ i, (c'.shared.record i).state ≠ (c.shared.record i).state →
    ((c.shared.record i).state,(c'.shared.record i).state) ∈ lifeCycle

theorem truthful_step (hP : L.Publishes)
    (hn : (watched L starveThresholdMs registry).next c l = some c') (hc : Attended L c)
    (ht : Truthful c) (hl : ¬ MarksLate L (c,l)) : Truthful c' ∧ Follows c c' := by
  rcases l with ⟨i,k⟩ | e
  · obtain ⟨s',t',ha,rfl⟩ := Machine.next_thread.mp hn
    obtain ⟨-,⟨hw,hs⟩ | ⟨x,hx,hi,hj⟩⟩ := watched_cases ha
    · refine ⟨fun j => ?_,fun j hne => absurd (hs j) hne⟩
      simp only [hs j]
      by_cases hij : j = i
      · subst hij
        simpa only [Function.update_self,hw] using ht j
      · simpa only [Function.update_of_ne hij] using ht j
    · obtain ⟨hinfo,hst⟩ := publishes_step hP hx (hc.tracks i)
      obtain ⟨hshow,hlife⟩ := (ht i).publish hst
      rw [← hi] at hshow hlife
      rw [← hinfo] at hshow
      refine ⟨fun j => ?_,fun j => ?_⟩
      · by_cases hij : j = i
        · subst hij
          simpa only [Function.update_self] using hshow
        · simpa only [Function.update_of_ne hij,hj j hij] using ht j
      · by_cases hij : j = i
        · subst hij
          exact hlife
        · exact fun hne => absurd (hj j hij) hne
  · obtain ⟨s',he,rfl⟩ := Machine.next_env.mp hn
    rcases e with d | τ | _
    · obtain ⟨x,-,rfl⟩ := Option.map_eq_some_iff.mp he
      exact ⟨ht,fun j hne => absurd rfl hne⟩
    · rcases watchdogRun_cases he with ⟨-,hs,-⟩ | ⟨i,hm,hb,hj,-⟩
      · exact ⟨fun j => by simpa only [hs j] using ht j,fun j hne => absurd (hs j) hne⟩
      · have hw : (c.shared.record i).state = .WAITING :=
          not_not.mp fun hne => hl ⟨i,hm,.inl hne⟩
        have hinfo : (c.locals i).worker.info.state = .WAITING :=
          (ht i).elim (fun hs => hs.symm.trans hw) And.left
        refine ⟨fun j => ?_,fun j hne => ?_⟩
        · by_cases hij : j = i
          · subst hij
            exact .inr ⟨hinfo,hb⟩
          · simpa only [hj j hij] using ht j
        · by_cases hij : j = i
          · subst hij
            simp only [hb,hw]
            decide
          · exact absurd (hj j hij) hne
    · cases he
      exact ⟨ht,fun j hne => absurd rfl hne⟩

/-- A watchdog that comes too late breaks the life cycle or marks a thread that holds the lock. -/
theorem not_follows_of_marksLate (hn : (watched L starveThresholdMs registry).next c l = some c')
    (hc : Attended L c) (hl : MarksLate L (c,l)) :
    ¬ Follows c c' ∨ ∃ i ∈ marked (c,l), L.Holds (c.locals i).worker.client := by
  obtain ⟨i,hm,hne | hh⟩ := hl
  · refine .inl fun hf => ?_
    rcases l with ⟨j,k⟩ | d | τ | _
    case env.watchdog =>
      obtain ⟨s',he,rfl⟩ := Machine.next_env.mp hn
      replace hm : c.shared.watchdog.marks = some i := hm
      have hx : c.shared.watchdog.examines = some i := by
        cases hw : c.shared.watchdog <;> simp only [hw,WatchdogAt.marks] at hm <;> cases hm
        rfl
      have hnb := hc.examined i hx
      rcases watchdogRun_cases he with ⟨hm',-⟩ | ⟨j,hm',hb,-⟩
      · cases hm'.symm.trans hm
      · cases hm'.symm.trans hm
        have hfi := hf i
        simp only [hb] at hfi
        have h := hfi hnb.symm
        revert h hne
        cases (c.shared.record i).state <;> decide
    all_goals cases hm
  · exact .inr ⟨i,hm,hh⟩

end

section
variable {cfg : Workload} {process : Process} {algo : AlgoType} {starveThresholdMs : Int}
  {registry : List cfg.Tid}
  {h : List (Event cfg.Tid (cfg.Tid × TimePoint) (Beside cfg.Tid)
    (Watched cfg.Tid (algo.Shared cfg.Tid)) (Watchee algo.ReadPC algo.WritePC))}
  {c : Config cfg.Tid (Watched cfg.Tid (algo.Shared cfg.Tid)) (Watchee algo.ReadPC algo.WritePC)}

theorem attended_start (cfg : Workload) {S R W : Type} (L : RWLockBase cfg.Tid S R W)
    (process : Process) : Attended L (cfg.watchedStart L process) :=
  ⟨tracks_start cfg L process,fun _ hi => by cases hi⟩

theorem truthful_start (cfg : Workload) {S R W : Type} (L : RWLockBase cfg.Tid S R W)
    (process : Process) : Truthful (cfg.watchedStart L process) := by
  refine fun i => .inl ?_
  simp only [Workload.watchedStart,Workload.start]
  split <;> rfl

theorem done_state {S R W : Type} {L : RWLockBase cfg.Tid S R W} {t : Worker R W}
    (ht : t.Tracks L) (hd : t.Done) : t.info.state = .DONE := by
  cases t with
  | reader | writer =>
    cases hd
    exact ht

/-- The threads keep to their life cycle, only threads that still wait are marked BLOCKED
and in the end all threads read DONE, exactly when the watchdog never comes too late. -/
theorem life_cycle (hr : Run (watched (algo.lock cfg.Tid) starveThresholdMs registry)
      (cfg.watchedStart (algo.lock cfg.Tid) process) h c) :
    ((∀ e ∈ h, (∀ c', (watched (algo.lock cfg.Tid) starveThresholdMs registry).next e.1 e.2 =
          some c' → Follows e.1 c') ∧
        ∀ i ∈ marked e, (algo.lock cfg.Tid).Requests (e.1.locals i).worker.client) ∧
      ∀ i, (c.locals i).worker.Done → (c.shared.record i).state = .DONE) ↔
    ∀ e ∈ h, ¬ MarksLate (algo.lock cfg.Tid) e := by
  have hP := algo.publishes cfg.Tid
  have hA : ∀ e ∈ h, Attended (algo.lock cfg.Tid) e.1 :=
    hr.always_events (attended_start cfg _ process) fun _ _ _ hc hn => attended_step hP hn hc
  refine ⟨fun ⟨hs,_⟩ e he hl => ?_,fun hok => ?_⟩
  · obtain ⟨c',hn⟩ := hr.next_of_mem he
    rcases not_follows_of_marksLate hn (hA e he) hl with hf | ⟨i,hi,hh⟩
    · exact hf ((hs e he).1 c' hn)
    · exact RWLockBase.not_holds_of_requests ((hs e he).2 i hi) hh
  · have hstart := And.intro (attended_start cfg (algo.lock cfg.Tid) process)
      (truthful_start cfg (algo.lock cfg.Tid) process)
    have hstep : ∀ c l c', Attended (algo.lock cfg.Tid) c ∧ Truthful c →
        ¬ MarksLate (algo.lock cfg.Tid) (c,l) →
        (watched (algo.lock cfg.Tid) starveThresholdMs registry).next c l = some c' →
        Attended (algo.lock cfg.Tid) c' ∧ Truthful c' :=
      fun c l c' hc hl hn => ⟨attended_step hP hn hc.1,(truthful_step hP hn hc.1 hc.2 hl).1⟩
    refine ⟨fun e he => ⟨fun c' hn => ?_,fun i hi => ?_⟩,fun i hd => ?_⟩
    · obtain ⟨ha,ht⟩ := hr.invariant_events hstart hstep hok e he
      exact (truthful_step hP hn ha ht (hok e he)).2
    · obtain ⟨ha,ht⟩ := hr.invariant_events hstart hstep hok e he
      have hw : (e.1.shared.record i).state = .WAITING :=
        not_not.mp fun hne => hok e he ⟨i,hi,.inl hne⟩
      exact requests_of_waiting (ha.tracks i) ((ht i).elim (fun hs => hs.symm.trans hw) And.left)
        fun hh => hok e he ⟨i,hi,.inr hh⟩
    · obtain ⟨ha,ht⟩ := hr.invariant hstart hstep hok
      have hinfo := done_state (ha.tracks i) hd
      rcases ht i with hs | ⟨hs,-⟩
      · exact hs.trans hinfo
      · cases hinfo.symm.trans hs

end

/-- The watchdog finds the reader waiting for the writer and marks it. -/
def starvingReader : List (Label (oneOfEach 2 false).Tid ((oneOfEach 2 false).Tid × TimePoint)
    (Beside (oneOfEach 2 false).Tid)) :=
  List.replicate 12 (.thread 1 (0,0)) ++ List.replicate 6 (.thread 0 (0,0)) ++
    List.replicate 6 (.env (.watchdog 500000000))

theorem life_cycle_witness : ∃ h c,
    Run (watched (AlgoType.READER_PRIORITY.lock (oneOfEach 2 false).Tid) 500 [0,1])
      ((oneOfEach 2 false).watchedStart
        (AlgoType.READER_PRIORITY.lock (oneOfEach 2 false).Tid) {}) h c ∧
    (c.shared.record 0).state = .BLOCKED ∧
    ∀ e ∈ h, ∀ i ∈ marked e,
      (AlgoType.READER_PRIORITY.lock (oneOfEach 2 false).Tid).Requests
        (e.1.locals i).worker.client := by
  obtain ⟨h,c,hr,hb,hok⟩ : ∃ h c,
      Run (watched (AlgoType.READER_PRIORITY.lock (oneOfEach 2 false).Tid) 500 [0,1])
        ((oneOfEach 2 false).watchedStart
          (AlgoType.READER_PRIORITY.lock (oneOfEach 2 false).Tid) {}) h c ∧
      (c.shared.record 0).state = .BLOCKED ∧
      ∀ e ∈ h, ¬ MarksLate (AlgoType.READER_PRIORITY.lock (oneOfEach 2 false).Tid) e := by
    refine ⟨_,_,Run.events (m := watched
      (AlgoType.READER_PRIORITY.lock (oneOfEach 2 false).Tid) 500 [0,1]) starvingReader rfl,rfl,?_⟩
    decide
  exact ⟨h,c,hr,hb,fun e he => (((life_cycle hr).mpr hok).1 e he).2⟩

/-- The watchdog that has found a thread waiting stores BLOCKED after the thread's DONE. -/
theorem blocked_after_done : ∃ h c,
    Run (watched (AlgoType.READER_PRIORITY.lock (oneOfEach 1 false).Tid) 500 [0,1])
      ((oneOfEach 1 false).watchedStart
        (AlgoType.READER_PRIORITY.lock (oneOfEach 1 false).Tid) {}) h c ∧
    (∀ i, (c.locals i).worker.Done) ∧ c.shared.watchdog = .stopped ∧
    (c.shared.record 1).state = .BLOCKED := by
  obtain ⟨h,hr,-⟩ := Run.of_exec
    (m := watched (AlgoType.READER_PRIORITY.lock (oneOfEach 1 false).Tid) 500 [0,1])
    (c := (oneOfEach 1 false).watchedStart
      (AlgoType.READER_PRIORITY.lock (oneOfEach 1 false).Tid) {})
    (turns (0,0) [(1,6)] ++ (List.replicate 6 (.env (.watchdog 500000000)) ++
      (turns (0,500000000) [(1,19),(0,4)] ++ (List.replicate 4 (.env (.watchdog 500000000)) ++
        [.env .stop,.env (.watchdog 500000000)])))) rfl
  exact ⟨h,_,hr,Fin.forall_fin_two.mpr ⟨rfl,rfl⟩,rfl,rfl⟩

end ReadersWriters
