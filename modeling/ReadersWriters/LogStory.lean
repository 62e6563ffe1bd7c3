import ReadersWriters.LoggedSimulation
import ReadersWriters.LoggedWait
set_option autoImplicit false

namespace ReadersWriters
open Interleaving Text

/-- An operation of a worker: the wait that `currentWaitMs` gave, and the count of readers after
the worker's own change of it, at the admission and at the release. -/
structure Round where
  waited : Int
  acquired : Int
  released : Int
  deriving DecidableEq, Repr

/-- The operations of a worker that are over, and what has been seen of the present one. -/
structure Seen where
  rounds : List Round := []
  waited : Int := 0
  acquired : Int := 0
  deriving DecidableEq, Repr

/-- A step that stores a state, or none, with the wait so far and the last count. -/
def Seen.next (o : Seen) (waited rc : Int) : Option ThreadState → Seen
  | some .ACTIVE => { o with waited, acquired := rc }
  | some .RELEASING => { o with rounds := o.rounds ++ [⟨o.waited,o.acquired,rc⟩] }
  | _ => o

@[simp] theorem Seen.next_none (o : Seen) (waited rc : Int) : o.next waited rc none = o := rfl

section
variable {n : ℕ} {S R W : Type} (L : RWLockBase (Fin n) S R W) (i : Fin n)

/-- The count of readers after the last change of it by worker `i`, in a run that ends in the
given configuration. -/
def lastCount : List (WatchedEvent (Fin n) S R W) →
    Config (Fin n) (Watched (Fin n) S) (Watchee R W) → Int
  | [],_ => 0
  | (c,.thread j _) :: h,c' =>
      if j = i ∧ L.readerCount c'.shared.sim.lock ≠ L.readerCount c.shared.sim.lock then
        L.readerCount c'.shared.sim.lock
      else lastCount h c
  | (c,.env _) :: h,_ => lastCount h c

/-- The operations of worker `i` in a run that ends in the given configuration. -/
def see : List (WatchedEvent (Fin n) S R W) →
    Config (Fin n) (Watched (Fin n) S) (Watchee R W) → Seen
  | [],_ => {}
  | (c,.thread j _) :: h,_ =>
      if j = i ∧ (c.locals i).stores L = true then
        (see h c).next (observe L i h).current (lastCount L i h c) ((c.locals i).worker.publishes L)
      else see h c
  | (c,.env _) :: h,_ => see h c

end

section
variable (cfg : Workload) (algo : AlgoType) (starveThresholdMs : Int) (i : cfg.Tid)
  (h : List (Event cfg.Tid (cfg.Tid × TimePoint) (Around cfg.Tid)
    (Simulated cfg.Tid (algo.Shared cfg.Tid)) (Watchee algo.ReadPC algo.WritePC)))
  (c : Config cfg.Tid (Simulated cfg.Tid (algo.Shared cfg.Tid))
    (Watchee algo.ReadPC algo.WritePC))

/-- What a run of a simulation shows of the operations of a worker. -/
def Workload.seen : Seen :=
  see (algo.lock cfg.Tid) i ((watchedView (algo.lock cfg.Tid) starveThresholdMs none).history h)
    ((watchedView (algo.lock cfg.Tid) starveThresholdMs none).view c)

def Workload.lastCount : Int :=
  ReadersWriters.lastCount (algo.lock cfg.Tid) i
    ((watchedView (algo.lock cfg.Tid) starveThresholdMs none).history h)
    ((watchedView (algo.lock cfg.Tid) starveThresholdMs none).view c)

end

section
variable {cfg : Workload} {algo : AlgoType} {starveThresholdMs : Int} {i j : cfg.Tid}
  {h : List (Event cfg.Tid (cfg.Tid × TimePoint) (Around cfg.Tid)
    (Simulated cfg.Tid (algo.Shared cfg.Tid)) (Watchee algo.ReadPC algo.WritePC))}
  {c c' : Config cfg.Tid (Simulated cfg.Tid (algo.Shared cfg.Tid))
    (Watchee algo.ReadPC algo.WritePC)} {k : cfg.Tid × TimePoint} {e : Around cfg.Tid}

theorem Workload.seen_thread : cfg.seen algo starveThresholdMs i ((c,.thread j k) :: h) c' =
    if j = i ∧ (c.locals i).stores (algo.lock cfg.Tid) = true then
      (cfg.seen algo starveThresholdMs i h c).next (observe (algo.lock cfg.Tid) i
          ((watchedView (algo.lock cfg.Tid) starveThresholdMs none).history h)).current
        (cfg.lastCount algo starveThresholdMs i h c)
        ((c.locals i).worker.publishes (algo.lock cfg.Tid))
    else cfg.seen algo starveThresholdMs i h c := rfl

theorem Workload.lastCount_thread :
    cfg.lastCount algo starveThresholdMs i ((c,.thread j k) :: h) c' =
    if j = i ∧ (algo.lock cfg.Tid).readerCount c'.shared.watched.sim.lock ≠
        (algo.lock cfg.Tid).readerCount c.shared.watched.sim.lock then
      (algo.lock cfg.Tid).readerCount c'.shared.watched.sim.lock
    else cfg.lastCount algo starveThresholdMs i h c := rfl

theorem env_of_watchedLabel {n : ℕ} {S R W : Type}
    {c : Config (Fin n) (Simulated (Fin n) S) (Watchee R W)} {e : Around (Fin n)}
    {l : Label (Fin n) (Fin n × TimePoint) (Beside (Fin n))}
    (h : watchedLabel c (.env e) = some l) : ∃ e', l = .env e' := by
  cases e with
  | main =>
    simp only [watchedLabel] at h
    split at h <;> cases h
    exact ⟨_,rfl⟩
  | watchdog | disturbance =>
    cases h
    exact ⟨_,rfl⟩

/-- What goes on beside the workers is not among their operations. -/
theorem Workload.seen_env
    (hn : (simulated (algo.lock cfg.Tid) starveThresholdMs none).next c (.env e) = some c') :
    cfg.seen algo starveThresholdMs i ((c,.env e) :: h) c' =
      cfg.seen algo starveThresholdMs i h c ∧
    cfg.lastCount algo starveThresholdMs i ((c,.env e) :: h) c' =
      cfg.lastCount algo starveThresholdMs i h c := by
  simp only [Workload.seen,Workload.lastCount]
  cases hl : (watchedView (algo.lock cfg.Tid) starveThresholdMs none).label (c,.env e) with
  | none =>
    rw [Simulation.history_silent _ hl,Simulation.silent _ hn hl]
    exact ⟨rfl,rfl⟩
  | some l =>
    obtain ⟨e',rfl⟩ := env_of_watchedLabel hl
    rw [Simulation.history_visible _ hl]
    exact ⟨rfl,rfl⟩

end

section
variable {ι : Type} (i : ι) (message : Int → ThreadState → List Char) (opening : List (Call ι))

def Round.calls (r : Round) : List (Call ι) :=
  [.record i .WAITING 0 (message 0 .WAITING),
    .record i .ACTIVE r.waited (message r.acquired .ACTIVE),
    .record i .RELEASING (-1) (message r.released .RELEASING)]

/-- What is there of an operation that is not over, by the state that was stored last. -/
def Seen.unfinished (o : Seen) : ThreadState → List (Call ι)
  | .WAITING => [.record i .WAITING 0 (message 0 .WAITING)]
  | .ACTIVE => [.record i .WAITING 0 (message 0 .WAITING),
      .record i .ACTIVE o.waited (message o.acquired .ACTIVE)]
  | _ => []

/-- The calls of a worker that has completed `n` operations: the opening, the operations one
after the other, and the one that is not over. -/
def Story (o : Seen) (st : ThreadState) (n : Int) (cs : List (Call ι)) : Prop :=
  (o.rounds.length : Int) = n ∧
    cs = opening ++ o.rounds.flatMap (Round.calls i message) ++ o.unfinished i message st

variable {i message opening}

theorem Story.opened {o : Seen} (ho : o.rounds = []) :
    Story i message opening o .INIT 0 opening := by
  refine ⟨by rw [ho]; rfl,?_⟩
  rw [ho,List.flatMap_nil,List.append_nil]
  exact (List.append_nil _).symm

/-- Between two operations. -/
theorem Story.rounds {o : Seen} {st : ThreadState} {n : Int} {cs : List (Call ι)}
    (h : Story i message opening o st n cs) (hst : st = .INIT ∨ st = .RELEASING) :
    (o.rounds.length : Int) = n ∧ cs = opening ++ o.rounds.flatMap (Round.calls i message) := by
  obtain ⟨hn,rfl⟩ := h
  refine ⟨hn,?_⟩
  rcases hst with rfl | rfl <;> exact List.append_nil _

/-- The operations that end with a step to this position. -/
def Pos.completed {P : Type} : Pos P → Int
  | .idle => 1
  | _ => 0

/-- The call behind a store, or none behind another step. -/
theorem Published.story {P : Type} {locking : P → Bool} {first p : P} {q : Pos P}
    {st : Option ThreadState} {info : ThreadInfo} {o : Seen} {n waited : Int}
    {cs : List (Call ι)} {tr : Transition} (rc : Int)
    (hf : locking first = true) (hm : ∀ rc, message rc .WAITING = message 0 .WAITING)
    (h : Published locking first p q st) (hp : (Pos.inside p).Expects locking first info.state)
    (hw : st = some .ACTIVE → shownWait .ACTIVE tr = waited)
    (hs : Story i message opening o info.state n cs) :
    Story i message opening (o.next waited rc st) (info.publish st).state (n+q.completed)
      (cs ++ (st.map (transitionRecord i (message rc) tr)).toList) := by
  cases h with
  | waiting he hq hne =>
    rcases hp with ⟨-,hst⟩ | ⟨hne',-⟩ | ⟨hl',-⟩
    · obtain ⟨hn,rfl⟩ := hs.rounds hst
      refine ⟨by simp [Seen.next,Pos.completed,hn],?_⟩
      simp [transitionRecord,shownWait,Seen.next,Seen.unfinished,ThreadInfo.publish,hm rc]
    · exact absurd he hne'
    · rw [he,hf] at hl'
      cases hl'
  | active hl' hne =>
    rcases hp with ⟨he,-⟩ | ⟨-,-,hst⟩ | ⟨hl'',-⟩
    · exact absurd he hne
    · obtain ⟨hn,rfl⟩ := hs
      refine ⟨by simp [Seen.next,Pos.completed,hn],?_⟩
      simp [transitionRecord,hw rfl,Seen.next,Seen.unfinished,ThreadInfo.publish,hst]
    · cases hl''.symm.trans hl'
  | releasing hl' =>
    rcases hp with ⟨he,-⟩ | ⟨-,hl'',-⟩ | ⟨-,hst⟩
    · rw [he,hf] at hl'
      cases hl'
    · cases hl'.symm.trans hl''
    · obtain ⟨hn,rfl⟩ := hs
      refine ⟨by simp [Seen.next,Pos.completed,hn],?_⟩
      simp [transitionRecord,shownWait,Seen.next,Seen.unfinished,ThreadInfo.publish,hst,
        Round.calls]
  | quiet => simpa [Pos.completed,ThreadInfo.publish] using hs

end

section
variable {ι S R W : Type} (algo : AlgoType) (L : RWLockBase ι S R W) (i : ι)

def readerOpening : List (Call ι) := [.record i .INIT 0 "Reader thread started".toList]

/-- The abort target reports its handler first. -/
def writerOpening (isAbortTarget : Bool) : List (Call ι) :=
  (if isAbortTarget then
    [.record i .INIT 0 "Writer TC-12 abort target: SIGUSR1 handler installed".toList] else []) ++
    [.record i .INIT 0 "Writer thread started".toList]

abbrev ReaderStory : Seen → ThreadState → Int → List (Call ι) → Prop :=
  Story i (fun rc => algo.readMessage rc) (readerOpening i)

abbrev WriterStory (isAbortTarget : Bool) : Seen → ThreadState → Int → List (Call ι) → Prop :=
  Story i (fun _ => algo.writeMessage) (writerOpening i isAbortTarget)

/-- The last calls of a writer, with the number of operations that it has not counted. -/
inductive WriterEnding (isAbortTarget : Bool) : List (Call ι) → Int → Prop where
  | finished : WriterEnding isAbortTarget
      [.record i .DONE (-1) "Writer thread finished".toList,.summary i] 0
  | abort : isAbortTarget = true → WriterEnding isAbortTarget
      [.record i .DONE (-1) "Writer TC-12: abort signal received, exiting cleanly".toList,
        .record i .DONE (-1) "Writer thread finished".toList,.summary i] 0
  | abortHeld : isAbortTarget = true → WriterEnding isAbortTarget [.record i .DONE (-1)
      "Writer TC-12: abort signal received mid-operation, lock released cleanly".toList,
        .summary i] 1

/-- All that a worker logs that has counted `n` operations, with its operations. -/
def ReaderLife (n : Int) (rounds : List Round) (cs : List (Call ι)) : Prop :=
  (rounds.length : Int) = n ∧
    cs = readerOpening i ++ rounds.flatMap (Round.calls i fun rc => algo.readMessage rc) ++
      [.record i .DONE (-1) "Reader thread finished".toList,.summary i]

def WriterLife (isAbortTarget : Bool) (n : Int) (rounds : List Round) (cs : List (Call ι)) : Prop :=
  ∃ (ending : List (Call ι)) (uncounted : Int),
    WriterEnding i isAbortTarget ending uncounted ∧ (rounds.length : Int) = n+uncounted ∧
    cs = writerOpening i isAbortTarget ++
      rounds.flatMap (Round.calls i fun _ => algo.writeMessage) ++ ending

/-- What a worker has been told to log, by its program point. -/
def Worker.Told (n : Notes) (o : Seen) (cs : List (Call ι)) : Worker R W → Prop
  | .reader info pc => match pc with
      | .start => cs = [] ∧ info.opsCompleted = 0 ∧ o.rounds = []
      | .call p => ReaderStory algo i o info.state
          (if L.readLocking p then info.opsCompleted else info.opsCompleted-1) cs
      | .done => ReaderLife algo i info.opsCompleted o.rounds cs
      | _ => ReaderStory algo i o info.state info.opsCompleted cs
  | .writer info b pc => match pc with
      | .sigaction => cs = [] ∧ n.aborted = false ∧ info.opsCompleted = 0 ∧ o.rounds = []
      | .start => cs ++ [.record i .INIT 0 "Writer thread started".toList] = writerOpening i b ∧
          n.aborted = false ∧ info.opsCompleted = 0 ∧ o.rounds = []
      | .call a p => WriterStory algo i b o info.state
          (if a || L.writeLocking p then info.opsCompleted else info.opsCompleted-1) cs ∧
          n.aborted = a ∧ (a = true → b = true ∧ L.writeLocking p = false)
      | .finish => ∃ cs₁ cs₂ k, cs = cs₁ ++ cs₂ ∧
          WriterStory algo i b o info.state (info.opsCompleted+k) cs₁ ∧
          WriterEnding i b (cs₂ ++ (Worker.writer (R := R) (W := W) info b .finish).logs algo L i {}
            .outside n) k
      | .done => WriterLife algo i b info.opsCompleted o.rounds cs
      | _ => WriterStory algo i b o info.state info.opsCompleted cs ∧ n.aborted = false

end

theorem readMessage_waiting (algo : AlgoType) (rc : Int) :
    algo.readMessage rc .WAITING = algo.readMessage 0 .WAITING := by cases algo <;> rfl

section
variable {ι S R W : Type} {algo : AlgoType} {L : RWLockBase ι S R W} {i w : ι} {s s' : SimState S}
  {t t' : Worker R W} {n : Notes} {o : Seen} {waited : Int} {tr : Transition}
  {cs : List (Call ι)}

theorem told_reader (hP : L.Publishes) {info info' : ThreadInfo} {pc pc' : ReaderAt R}
    (h : ReaderCase L i w s info pc s' info' pc') (ht : (Worker.reader (W := W) info pc).Tracks L)
    (hT : (Worker.reader (W := W) info pc).Told algo L i n o cs)
    (hw : (Worker.reader (W := W) info pc).publishes L = some .ACTIVE →
      shownWait .ACTIVE tr = waited) (n' : Notes) :
    (Worker.reader (W := W) info' pc').Told algo L i n'
      (o.next waited n.rc ((Worker.reader (W := W) info pc).publishes L))
      (cs ++ (Worker.reader (W := W) info pc).logs algo L i s.process tr n) := by
  cases h
  case start =>
    obtain ⟨rfl,ho,hrounds⟩ := hT
    change ReaderStory algo i o .INIT info.opsCompleted (readerOpening i)
    rw [ho]
    exact .opened hrounds
  case call p l q hs =>
    have hl := L.readStep_locking hs
    have hq := (hP.read hs).story n.rc L.readLock_locking (readMessage_waiting algo) ht hw
      hT
    rw [← info.publish_opsCompleted (L.readPublish p)] at hq
    cases q with
    | idle =>
      have hp : L.readLocking p = false := hl.symm
      simpa [Worker.Told,ReaderAt.resume,Worker.logs,Worker.publishes,Pos.completed,hp] using hq
    | inside p' =>
      have hp : L.readLocking p' = L.readLocking p := hl
      simpa [Worker.Told,ReaderAt.resume,Worker.logs,Worker.publishes,Pos.completed,hp] using hq
    | holding =>
      have hp : L.readLocking p = true := hl.symm
      simpa [Worker.Told,ReaderAt.resume,Worker.logs,Worker.publishes,Pos.completed,hp] using hq
  case claim => simpa [Worker.Told,Worker.logs,Worker.publishes,L.readLock_locking] using hT
  case work => simpa [Worker.Told,Worker.logs,Worker.publishes,L.readUnlock_locking] using hT
  case finish =>
    obtain ⟨hn,rfl⟩ := hT.rounds ht
    exact ⟨hn,rfl⟩
  all_goals simpa [Worker.Told,Worker.logs,Worker.publishes] using hT

theorem told_writer (hP : L.Publishes) {info info' : ThreadInfo} {b : Bool} {pc pc' : WriterAt W}
    (h : WriterCase L i w s info b pc s' info' pc')
    (ht : (Worker.writer (R := R) info b pc).Tracks L)
    (hT : (Worker.writer (R := R) info b pc).Told algo L i n o cs)
    (hw : (Worker.writer (R := R) info b pc).publishes L = some .ACTIVE →
      shownWait .ACTIVE tr = waited) :
    (Worker.writer (R := R) info' b pc').Told algo L i
      (note L s.lock s'.lock (Worker.writer (R := R) info' b pc') n)
      (o.next waited n.rc ((Worker.writer (R := R) info b pc).publishes L))
      (cs ++ (Worker.writer (R := R) info b pc).logs algo L i s.process tr n) := by
  cases h
  case sigaction hb =>
    obtain ⟨rfl,hn,ho⟩ := hT
    subst hb
    exact ⟨rfl,hn,ho⟩
  case noSigaction hb =>
    obtain ⟨rfl,hn,ho⟩ := hT
    subst hb
    exact ⟨rfl,hn,ho⟩
  case start =>
    obtain ⟨hcs,hn,ho,hrounds⟩ := hT
    have hcs' : cs ++ (Worker.writer (R := R) info b .start).logs algo L i s.process tr n =
        writerOpening i b := hcs
    refine ⟨?_,hn⟩
    change WriterStory algo i b o .INIT info.opsCompleted _
    rw [ho,hcs']
    exact .opened hrounds
  case abort hb hp =>
    obtain ⟨hS,hn⟩ := hT
    refine ⟨cs,_,0,rfl,?_,?_⟩
    · rw [Int.add_zero]
      exact hS
    · rw [show (Worker.writer (R := R) info b .abortTest).logs algo L i s.process tr n =
        [.record i .DONE (-1) "Writer TC-12: abort signal received, exiting cleanly".toList]
        from if_pos ⟨hb,hp⟩]
      simp only [Worker.logs,note,hn,Bool.false_eq_true,if_false]
      exact .abort hb
  case abortTest hb =>
    have hnil : (Worker.writer (R := R) info b .abortTest).logs algo L i s.process tr n = [] :=
      if_neg (by simpa using hb)
    rw [hnil,List.append_nil]
    exact hT
  case call a p l q hs =>
    obtain ⟨hS,hn,ha⟩ := hT
    have hl := L.writeStep_locking hs
    have hq := (hP.write hs).story n.rc L.writeLock_locking (fun _ => rfl) ht hw hS
    rw [← info.publish_opsCompleted (L.writePublish p)] at hq
    cases q with
    | idle =>
      have hp : L.writeLocking p = false := hl.symm
      simp only [hp,Bool.or_false,Pos.completed] at hq
      cases a with
      | false =>
        simp only [Bool.false_eq_true,if_false,Int.sub_add_cancel] at hq
        exact ⟨hq,hn⟩
      | true =>
        simp only [if_true] at hq
        refine ⟨_,[],1,(List.append_nil _).symm,hq,?_⟩
        simp only [Worker.logs,note,WriterAt.resume,hn,if_true]
        exact .abortHeld (ha rfl).1
    | inside p' =>
      have hp : L.writeLocking p' = L.writeLocking p := hl
      refine ⟨?_,?_,fun h => ⟨(ha h).1,hp.trans (ha h).2⟩⟩
      · simp only [Pos.completed,Int.add_zero] at hq
        simp only [hp]
        exact hq
      · cases a with
        | true => rfl
        | false => exact hn
    | holding =>
      have hp : L.writeLocking p = true := hl.symm
      have haf : a = false := by
        cases a with
        | false => rfl
        | true => cases (ha rfl).2.symm.trans hp
      subst haf
      simp only [hp,Bool.or_true,if_true,Pos.completed,Int.add_zero] at hq
      exact ⟨hq,hn⟩
  case claim =>
    obtain ⟨hS,hn⟩ := hT
    refine ⟨?_,hn,fun h => by cases h⟩
    simp only [Worker.logs,List.append_nil,L.writeLock_locking,Bool.or_true,if_true]
    exact hS
  case restore =>
    obtain ⟨hS,hn⟩ := hT
    refine ⟨cs,[],0,rfl,?_,?_⟩
    · rw [Int.add_zero]
      exact hS
    · simp only [Worker.logs,note,hn,Bool.false_eq_true,if_false]
      exact .finished
  case work =>
    obtain ⟨hS,hn⟩ := hT
    refine ⟨?_,hn,fun h => by cases h⟩
    simp only [Worker.logs,List.append_nil,L.writeUnlock_locking,Bool.or_self,Bool.false_eq_true,
      if_false,Int.add_sub_cancel]
    exact hS
  case abortHeld hb hp =>
    obtain ⟨hS,hn⟩ := hT
    refine ⟨?_,rfl,fun _ => ⟨hb,L.writeUnlock_locking⟩⟩
    simp only [Worker.logs,List.append_nil,Bool.true_or,if_true]
    exact hS
  case finish =>
    obtain ⟨cs₁,cs₂,k,rfl,hS,hE⟩ := hT
    obtain ⟨hn,rfl⟩ := hS.rounds ht
    refine ⟨_,k,hE,hn,?_⟩
    rw [List.append_assoc]
    rfl
  all_goals
    rw [show (Worker.writer (R := R) info b _).logs algo L i s.process tr n = [] from rfl,
      List.append_nil]
    exact hT

/-- A step of the worker, with what it notes and what it is told to log. -/
theorem told_step (hP : L.Publishes) (h : (workers L).act i w s t = some (s',t'))
    (ht : t.Tracks L) (hT : t.Told algo L i n o cs)
    (hw : t.publishes L = some .ACTIVE → shownWait .ACTIVE tr = waited) :
    t'.Told algo L i (note L s.lock s'.lock t' n) (o.next waited n.rc (t.publishes L))
      (cs ++ t.logs algo L i s.process tr n) := by
  replace h := workers_cases h
  cases h with
  | reader h => exact told_reader hP h ht hT hw _
  | writer h => exact told_writer hP h ht hT hw

/-- The other steps change nothing that is noted. -/
theorem note_eq (hT : t.Told algo L i n o cs) (l : S) : note L l l t n = n := by
  have ha : (note L l l t n).aborted = n.aborted := by
    cases t with
    | reader => rfl
    | writer info b pc =>
      cases pc
      case call a p =>
        cases a with
        | false => rfl
        | true => exact hT.2.1.symm
      all_goals rfl
  have hr : (note L l l t n).rc = n.rc := if_pos rfl
  calc note L l l t n = ⟨(note L l l t n).rc,(note L l l t n).aborted⟩ := rfl
    _ = n := by rw [ha,hr]

end

section
variable {cfg : Workload} {algo : AlgoType} {w : LogSetup} {starveThresholdMs : Int}
  {process : Process} {i : cfg.Tid}

theorem WatchedCase.stores_cases {S R W : Type} {L : RWLockBase cfg.Tid S R W}
    {k : cfg.Tid × TimePoint} {s s' : Watched cfg.Tid S} {t t' : Watchee R W}
    (h : WatchedCase L i k s t s' t') : t.stores L = false ∧ s'.sim = s.sim ∧ t'.worker = t.worker ∨
    t.stores L = true ∧ (workers L).act i k.1 s.sim t.worker = some (s'.sim,t'.worker) := by
  cases h with
  | waitStart hp hq | load hp hq | wait hp hq | enter hp hq =>
    exact .inl ⟨by simp [Watchee.stores,hp,hq],rfl,rfl⟩
  | step hw hl ha =>
    refine .inr ⟨?_,ha⟩
    simp only [Watchee.stores]
    split <;> rename_i hp hq
    · exact absurd hq (hw hp)
    · rcases hl hp with hl | ⟨ms,hl⟩ <;> cases hq.symm.trans hl
    · rcases hl hp with hl | ⟨ms,hl⟩ <;> cases hq.symm.trans hl
    · rcases hl hp with hl | ⟨ms,hl⟩ <;> cases hq.symm.trans hl
    · rfl

/-- What `transitionActive` logs is the wait that `currentWaitMs` gave. -/
theorem shown_wait {registry : List cfg.Tid}
    {h : List (WatchedEvent cfg.Tid (algo.Shared cfg.Tid) algo.ReadPC algo.WritePC)}
    {c : Config cfg.Tid (Watched cfg.Tid (algo.Shared cfg.Tid))
      (Watchee algo.ReadPC algo.WritePC)} {j : cfg.Tid} {s' : SimState (algo.Shared cfg.Tid)}
    {t' : Worker algo.ReadPC algo.WritePC}
    (hr : Run (watched (algo.lock cfg.Tid) starveThresholdMs registry)
      (cfg.watchedStart (algo.lock cfg.Tid) process) h c)
    (ha : (workers (algo.lock cfg.Tid)).act i j c.shared.sim (c.locals i).worker = some (s',t'))
    (hst : (c.locals i).stores (algo.lock cfg.Tid) = true)
    (hp : (c.locals i).worker.publishes (algo.lock cfg.Tid) = some .ACTIVE) :
    shownWait .ACTIVE (c.locals i).transition = (observe (algo.lock cfg.Tid) i h).current := by
  obtain ⟨hA,-,hL⟩ := logs_run hr i
  have hf := hL.fits
  have hw := waiting_of_active (algo.publishes cfg.Tid) ha (hA.tracks i) hp
  cases hq : (c.locals i).transition with
  | outside | loaded | waited => simp [Watchee.stores,hp,hq] at hst
  | waitStarted =>
    simp only [Observed.Fits,hq] at hf
    cases hp.symm.trans hf.1
  | entered ms =>
    simp only [Observed.Fits,hq] at hf
    exact hf.2.2.2 hw

/-- What a worker has been told to log fits its program point and what has been seen of it, in
every run. -/
theorem told_run {h c} (hr : Run (noted cfg algo starveThresholdMs)
      ((cfg.simulatedStart (algo.lock cfg.Tid) process).noting fun _ => {}) h c) (i : cfg.Tid) :
    (c.locals i).1.worker.Told algo (algo.lock cfg.Tid) i (c.locals i).2
      (cfg.seen algo starveThresholdMs i ((unnoted cfg algo starveThresholdMs).history h)
        ((unnoted cfg algo starveThresholdMs).view c)) ((talk cfg algo w).issued (.inl i) h) ∧
    (c.locals i).2.rc = cfg.lastCount algo starveThresholdMs i
      ((unnoted cfg algo starveThresholdMs).history h)
      ((unnoted cfg algo starveThresholdMs).view c) := by
  induction hr with
  | start =>
    refine ⟨?_,rfl⟩
    simp only [Config.noting,Workload.simulatedStart,Workload.watchedStart,Workload.start]
    split
    · exact ⟨rfl,rfl,rfl,rfl⟩
    · exact ⟨rfl,rfl,rfl⟩
  | @step h c c' l hr hn ih =>
    obtain ⟨hT,hrc⟩ := ih
    have hr₁ := (unnoted cfg algo starveThresholdMs).run hr
    have hcons : (unnoted cfg algo starveThresholdMs).history ((c,l) :: h) =
      ((unnoted cfg algo starveThresholdMs).view c,l) ::
        (unnoted cfg algo starveThresholdMs).history h := by cases l <;> rfl
    rw [hcons]
    cases l with
    | thread j k =>
      obtain ⟨s,t,ha,rfl⟩ := noting_cases hn
      obtain ⟨-,hw,-⟩ := simulated_act ha
      rw [Workload.seen_thread,Workload.lastCount_thread,← hrc]
      by_cases hij : j = i
      · subst hij
        simp only [Talk.issued,Function.update_self,if_true,talk,true_and,unnoted_shared,
          unnoted_locals]
        refine ⟨?_,?_⟩
        · rcases hw.stores_cases with ⟨hst,hsim,hwk⟩ | ⟨hst,ha'⟩
          · simp only [hwk,hst,hsim,note_eq hT,Bool.false_eq_true,if_false,List.append_nil]
            exact hT
          · simp only [hst,if_true]
            exact told_step (algo.publishes cfg.Tid) ha' (tracks_run (algo.publishes cfg.Tid)
              ((workersView (algo.lock cfg.Tid) starveThresholdMs none).run hr₁) j) hT fun hp =>
              shown_wait ((watchedView (algo.lock cfg.Tid) starveThresholdMs none).run hr₁) ha'
                hst hp
        · simp only [note,ne_eq,ite_not]
      · have hji : i ≠ j := Ne.symm hij
        simp only [Talk.issued,Function.update_of_ne hji,Sum.inl.injEq,hji,hij,false_and,if_false,
          List.append_nil,and_true]
        exact hT
    | env e =>
      obtain ⟨hsee,hcount⟩ := Workload.seen_env (i := i)
        (h := (unnoted cfg algo starveThresholdMs).history h)
        ((unnoted cfg algo starveThresholdMs).visible hn rfl)
      rw [hsee,hcount]
      obtain ⟨s,-,rfl⟩ := Machine.next_env.mp hn
      simp only [Talk.issued]
      rw [if_neg (by cases (talk cfg algo w).actor e <;> simp),List.append_nil]
      exact ⟨hT,hrc⟩

end

end ReadersWriters
