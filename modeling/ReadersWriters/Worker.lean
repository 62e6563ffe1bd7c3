import ReadersWriters.LockBase
set_option autoImplicit false

namespace ReadersWriters
open Interleaving

/-- The part of the configuration that decides which threads run and what they do.
`runSimulation` computes the number of threads as an `int`. -/
structure Workload where
  numReaders : ℕ := 5
  numWriters : ℕ := 3
  totalOps : Int := 100
  enableAbortTest : Bool := false
  totalThreads_int : numReaders+numWriters ≤ 2147483647 := by decide

/-- A reader and a writer, the smallest workload with a conflict. -/
abbrev oneOfEach (totalOps : Int) (enableAbortTest : Bool) : Workload :=
  { numReaders := 1, numWriters := 1, totalOps, enableAbortTest }

/-- Indices into `args`: the readers first. -/
abbrev Workload.Tid (cfg : Workload) := Fin (cfg.numReaders+cfg.numWriters)

def Workload.isWriter (cfg : Workload) (i : cfg.Tid) : Bool := cfg.numReaders ≤ i.val

def Workload.isAbortTarget (cfg : Workload) (i : cfg.Tid) : Bool :=
  i.val = cfg.numReaders && cfg.enableAbortTest

structure SharedResource where
  data : Int := 0
  readCount : Int := 0
  writeCount : Int := 0
  deriving DecidableEq, Repr

/-- What outlives a simulation: `g_abortSignalReceived` and the disposition of `SIGUSR1`. -/
structure Process where
  abortSignalReceived : Bool := false
  handlerInstalled : Bool := false
  deriving DecidableEq, Repr

structure SimState (S : Type) where
  lock : S
  /-- From a budget that is not negative the counter stays in the range of `int`. -/
  opsRemaining : Int
  resource : SharedResource := {}
  process : Process := {}

/-- The program points of `readerThread`. `++readCount_` is a load and a store; `read`
leaves the value that `res->read()` returned. -/
inductive ReaderAt (R : Type) where
  | start | claim | restore
  | call (p : R)
  | read | loadReadCount (value : Int) | storeReadCount (n : Int) | work
  | finish | done
  deriving DecidableEq, Repr

/-- The program points of `writerThread`. A call that was left by the abort exit ends in
`finish` and not at the head of the loop. -/
inductive WriterAt (W : Type) where
  | sigaction | start | abortTest | claim | restore
  | call (aborted : Bool) (p : W)
  | abortTestHeld | loadData | storeData (n : Int) | loadWriteCount | storeWriteCount (n : Int)
  | work
  | finish | done
  deriving DecidableEq, Repr

inductive Worker (R W : Type) where
  | reader (info : ThreadInfo) (pc : ReaderAt R)
  | writer (info : ThreadInfo) (isAbortTarget : Bool) (pc : WriterAt W)
  deriving DecidableEq, Repr

def ReaderAt.resume {R : Type} : Pos R → ReaderAt R
  | .inside p => .call p
  | .holding => .read
  | .idle => .claim

def WriterAt.resume {W : Type} (aborted : Bool) : Pos W → WriterAt W
  | .inside p => .call aborted p
  | .holding => .abortTestHeld
  | .idle => if aborted then .finish else .abortTest

section
variable {ι S R W : Type} (L : RWLockBase ι S R W)

def readerThread (i w : ι) (s : SimState S) (info : ThreadInfo) :
    ReaderAt R → Option (SimState S × ThreadInfo × ReaderAt R)
  | .start => some (s,{ info with state := .INIT },.claim)
  | .claim =>
      let remaining := s.opsRemaining
      some ({ s with opsRemaining := remaining-1 },info,
        if remaining ≤ 0 then .restore else .call L.readLock)
  | .restore => some ({ s with opsRemaining := s.opsRemaining+1 },info,.finish)
  | .call p => (L.readStep i w s.lock p).map fun r =>
      ({ s with lock := r.1 },info.publish (L.readPublish p),.resume r.2)
  | .read => some (s,info,.loadReadCount s.resource.data)
  | .loadReadCount _ => some (s,info,.storeReadCount s.resource.readCount)
  | .storeReadCount n =>
      some ({ s with resource := { s.resource with readCount := n+1 } },info,.work)
  | .work => some (s,{ info with opsCompleted := info.opsCompleted+1 },.call L.readUnlock)
  | .finish => some (s,{ info with state := .DONE },.done)
  | .done => none

def writerThread (i w : ι) (s : SimState S) (info : ThreadInfo) (isAbortTarget : Bool) :
    WriterAt W → Option (SimState S × ThreadInfo × WriterAt W)
  | .sigaction =>
      some (if isAbortTarget then { s with process.handlerInstalled := true } else s,info,.start)
  | .start => some (s,{ info with state := .INIT },.abortTest)
  | .abortTest =>
      some (s,info,if isAbortTarget ∧ s.process.abortSignalReceived then .finish else .claim)
  | .claim =>
      let remaining := s.opsRemaining
      some ({ s with opsRemaining := remaining-1 },info,
        if remaining ≤ 0 then .restore else .call false L.writeLock)
  | .restore => some ({ s with opsRemaining := s.opsRemaining+1 },info,.finish)
  | .call aborted p => (L.writeStep i w s.lock p).map fun r =>
      ({ s with lock := r.1 },info.publish (L.writePublish p),.resume aborted r.2)
  | .abortTestHeld =>
      some (s,info,if isAbortTarget ∧ s.process.abortSignalReceived then .call true L.writeUnlock
        else .loadData)
  | .loadData => some (s,info,.storeData s.resource.data)
  | .storeData n =>
      some ({ s with resource := { s.resource with data := n+1 } },info,.loadWriteCount)
  | .loadWriteCount => some (s,info,.storeWriteCount s.resource.writeCount)
  | .storeWriteCount n =>
      some ({ s with resource := { s.resource with writeCount := n+1 } },info,.work)
  | .work =>
      some (s,{ info with opsCompleted := info.opsCompleted+1 },.call false L.writeUnlock)
  | .finish => some (s,{ info with state := .DONE },.done)
  | .done => none

/-- What happens to the workers from outside. -/
inductive Disturbance (ι : Type) where
  | spuriousWake (i : ι) | sigusr1
  deriving DecidableEq, Repr

/-- The worker threads over a lock. Without its handler `SIGUSR1` ends the process, so
there is no state after it. -/
def workers : Machine ι ι (Disturbance ι) (SimState S) (Worker R W) where
  act i w s
    | .reader info pc => (readerThread L i w s info pc).map fun r => (r.1,.reader r.2.1 r.2.2)
    | .writer info isAbortTarget pc => (writerThread L i w s info isAbortTarget pc).map fun r =>
        (r.1,.writer r.2.1 isAbortTarget r.2.2)
  env
    | .spuriousWake i, s => (L.spuriousWake i s.lock).map fun l => { s with lock := l }
    | .sigusr1, s =>
        if s.process.handlerInstalled then some { s with process.abortSignalReceived := true }
        else none

/-- All threads created, in a process that earlier simulations may have left a mark on. -/
def Workload.start (cfg : Workload) (L : RWLockBase cfg.Tid S R W) (process : Process) :
    Config cfg.Tid (SimState S) (Worker R W) where
  shared := { lock := L.init, opsRemaining := cfg.totalOps, process := process }
  locals i :=
    if cfg.isWriter i then .writer {} (cfg.isAbortTarget i) .sigaction else .reader {} .start

end

namespace Worker

variable {R W : Type}

def info : Worker R W → ThreadInfo
  | .reader info _ => info
  | .writer info _ _ => info

def Done : Worker R W → Prop
  | .reader _ pc => pc = .done
  | .writer _ _ pc => pc = .done

/-- The worker as its lock sees it. -/
def client : Worker R W → Client R W
  | .reader _ pc => .reader <| match pc with
      | .call p => .inside p
      | .read | .loadReadCount _ | .storeReadCount _ | .work => .holding
      | _ => .idle
  | .writer _ _ pc => .writer <| match pc with
      | .call _ p => .inside p
      | .abortTestHeld | .loadData | .storeData _ | .loadWriteCount | .storeWriteCount _
      | .work => .holding
      | _ => .idle

/-- The steps that enter a member function of the lock or are inside one. -/
def callsLock {S : Type} (s : SimState S) : Worker R W → Bool
  | .reader _ pc => match pc with
      | .claim => 0 < s.opsRemaining
      | .call _ | .work => true
      | _ => false
  | .writer _ isAbortTarget pc => match pc with
      | .claim => 0 < s.opsRemaining
      | .call _ _ | .work => true
      | .abortTestHeld => isAbortTarget && s.process.abortSignalReceived
      | _ => false

end Worker

/-- One case for each branch of `readerThread`. -/
inductive ReaderCase {ι S R W : Type} (L : RWLockBase ι S R W) (i w : ι) (s : SimState S)
    (info : ThreadInfo) : ReaderAt R → SimState S → ThreadInfo → ReaderAt R → Prop where
  | start : ReaderCase L i w s info .start s { info with state := .INIT } .claim
  | claim : 0 < s.opsRemaining →
      ReaderCase L i w s info .claim { s with opsRemaining := s.opsRemaining-1 } info
        (.call L.readLock)
  | claimFailed : s.opsRemaining ≤ 0 →
      ReaderCase L i w s info .claim { s with opsRemaining := s.opsRemaining-1 } info .restore
  | restore : ReaderCase L i w s info .restore { s with opsRemaining := s.opsRemaining+1 } info
      .finish
  | call {p : R} {l : S} {q : Pos R} : L.readStep i w s.lock p = some (l,q) →
      ReaderCase L i w s info (.call p) { s with lock := l } (info.publish (L.readPublish p))
        (.resume q)
  | read : ReaderCase L i w s info .read s info (.loadReadCount s.resource.data)
  | loadReadCount {v : Int} :
      ReaderCase L i w s info (.loadReadCount v) s info (.storeReadCount s.resource.readCount)
  | storeReadCount {n : Int} : ReaderCase L i w s info (.storeReadCount n)
      { s with resource := { s.resource with readCount := n+1 } } info .work
  | work : ReaderCase L i w s info .work s { info with opsCompleted := info.opsCompleted+1 }
      (.call L.readUnlock)
  | finish : ReaderCase L i w s info .finish s { info with state := .DONE } .done

/-- The same for `writerThread`. -/
inductive WriterCase {ι S R W : Type} (L : RWLockBase ι S R W) (i w : ι) (s : SimState S)
    (info : ThreadInfo) (b : Bool) : WriterAt W → SimState S → ThreadInfo → WriterAt W → Prop where
  | sigaction : b = true →
      WriterCase L i w s info b .sigaction { s with process.handlerInstalled := true } info .start
  | noSigaction : b = false → WriterCase L i w s info b .sigaction s info .start
  | start : WriterCase L i w s info b .start s { info with state := .INIT } .abortTest
  | abort : b = true → s.process.abortSignalReceived = true →
      WriterCase L i w s info b .abortTest s info .finish
  | abortTest : (b && s.process.abortSignalReceived) = false →
      WriterCase L i w s info b .abortTest s info .claim
  | claim : 0 < s.opsRemaining →
      WriterCase L i w s info b .claim { s with opsRemaining := s.opsRemaining-1 } info
        (.call false L.writeLock)
  | claimFailed : s.opsRemaining ≤ 0 →
      WriterCase L i w s info b .claim { s with opsRemaining := s.opsRemaining-1 } info .restore
  | restore : WriterCase L i w s info b .restore { s with opsRemaining := s.opsRemaining+1 } info
      .finish
  | call {a : Bool} {p : W} {l : S} {q : Pos W} : L.writeStep i w s.lock p = some (l,q) →
      WriterCase L i w s info b (.call a p) { s with lock := l } (info.publish (L.writePublish p))
        (.resume a q)
  | abortHeld : b = true → s.process.abortSignalReceived = true →
      WriterCase L i w s info b .abortTestHeld s info (.call true L.writeUnlock)
  | abortTestHeld : (b && s.process.abortSignalReceived) = false →
      WriterCase L i w s info b .abortTestHeld s info .loadData
  | loadData : WriterCase L i w s info b .loadData s info (.storeData s.resource.data)
  | storeData {n : Int} : WriterCase L i w s info b (.storeData n)
      { s with resource := { s.resource with data := n+1 } } info .loadWriteCount
  | loadWriteCount :
      WriterCase L i w s info b .loadWriteCount s info (.storeWriteCount s.resource.writeCount)
  | storeWriteCount {n : Int} : WriterCase L i w s info b (.storeWriteCount n)
      { s with resource := { s.resource with writeCount := n+1 } } info .work
  | work : WriterCase L i w s info b .work s { info with opsCompleted := info.opsCompleted+1 }
      (.call false L.writeUnlock)
  | finish : WriterCase L i w s info b .finish s { info with state := .DONE } .done

/-- A step of either worker. -/
inductive WorkerCase {ι S R W : Type} (L : RWLockBase ι S R W) (i w : ι) (s : SimState S) :
    Worker R W → SimState S → Worker R W → Prop where
  | reader {info info' : ThreadInfo} {pc pc' : ReaderAt R} {s' : SimState S} :
      ReaderCase L i w s info pc s' info' pc' →
      WorkerCase L i w s (.reader info pc) s' (.reader info' pc')
  | writer {info info' : ThreadInfo} {b : Bool} {pc pc' : WriterAt W} {s' : SimState S} :
      WriterCase L i w s info b pc s' info' pc' →
      WorkerCase L i w s (.writer info b pc) s' (.writer info' b pc')

section
variable {ι S R W : Type} {L : RWLockBase ι S R W} {i w : ι} {s s' : SimState S}
  {t t' : Worker R W}

theorem readerThread_cases {info info' : ThreadInfo} {pc pc' : ReaderAt R}
    (h : readerThread L i w s info pc = some (s',info',pc')) :
    ReaderCase L i w s info pc s' info' pc' := by
  cases pc
  case claim =>
    simp only [readerThread] at h
    split at h <;> rename_i hc <;> cases h
    · exact .claimFailed hc
    · exact .claim (by omega)
  case call p =>
    obtain ⟨⟨l,q⟩,hs,he⟩ := Option.map_eq_some_iff.mp h
    cases he
    exact .call hs
  all_goals cases h <;> constructor

theorem writerThread_cases {info info' : ThreadInfo} {b : Bool} {pc pc' : WriterAt W}
    (h : writerThread L i w s info b pc = some (s',info',pc')) :
    WriterCase L i w s info b pc s' info' pc' := by
  cases pc
  case sigaction =>
    simp only [writerThread] at h
    split at h <;> rename_i hb <;> cases h
    · exact .sigaction hb
    · exact .noSigaction (by simpa using hb)
  case abortTest =>
    simp only [writerThread] at h
    split at h <;> rename_i hb <;> cases h
    · exact .abort hb.1 hb.2
    · exact .abortTest (by simpa using hb)
  case claim =>
    simp only [writerThread] at h
    split at h <;> rename_i hc <;> cases h
    · exact .claimFailed hc
    · exact .claim (by omega)
  case call a p =>
    obtain ⟨⟨l,q⟩,hs,he⟩ := Option.map_eq_some_iff.mp h
    cases he
    exact .call hs
  case abortTestHeld =>
    simp only [writerThread] at h
    split at h <;> rename_i hb <;> cases h
    · exact .abortHeld hb.1 hb.2
    · exact .abortTestHeld (by simpa using hb)
  all_goals cases h <;> constructor

theorem workers_cases (h : (workers L).act i w s t = some (s',t')) :
    WorkerCase L i w s t s' t' := by
  cases t with
  | reader info pc =>
    obtain ⟨⟨s₁,info',pc'⟩,hs,he⟩ := Option.map_eq_some_iff.mp h
    cases he
    exact .reader (readerThread_cases hs)
  | writer info b pc =>
    obtain ⟨⟨s₁,info',pc'⟩,hs,he⟩ := Option.map_eq_some_iff.mp h
    cases he
    exact .writer (writerThread_cases hs)

/-- One case for each disturbance. -/
inductive DisturbanceCase {ι S R W : Type} (L : RWLockBase ι S R W) (s : SimState S) :
    Disturbance ι → SimState S → Prop where
  | spuriousWake {i : ι} {l : S} : L.spuriousWake i s.lock = some l →
      DisturbanceCase L s (.spuriousWake i) { s with lock := l }
  | sigusr1 : s.process.handlerInstalled = true →
      DisturbanceCase L s .sigusr1 { s with process.abortSignalReceived := true }

theorem disturbance_cases {e : Disturbance ι} (h : (workers L).env e s = some s') :
    DisturbanceCase L s e s' := by
  cases e with
  | spuriousWake i =>
    obtain ⟨l,hl,rfl⟩ := Option.map_eq_some_iff.mp h
    exact .spuriousWake hl
  | sigusr1 =>
    obtain ⟨hi,hs⟩ := Option.ite_none_right_eq_some.mp h
    cases hs
    exact .sigusr1 hi

/-- The disturbances touch neither the budget nor the resource. -/
theorem disturbance_keeps {e : Disturbance ι} (h : (workers L).env e s = some s') :
    s'.opsRemaining = s.opsRemaining ∧ s'.resource = s.resource := by
  cases disturbance_cases h <;> exact ⟨rfl,rfl⟩

theorem lockView_silent (h : (workers L).act i w s t = some (s',t'))
    (hc : t.callsLock s = false) : s'.lock = s.lock ∧ t'.client = t.client := by
  replace h := workers_cases h
  cases h with
  | reader h =>
    cases h
    case claim hr =>
      simp only [Worker.callsLock,decide_eq_false_iff_not] at hc
      omega
    case call | work => cases hc
    all_goals exact ⟨rfl,rfl⟩
  | writer h =>
    cases h
    case claim hr =>
      simp only [Worker.callsLock,decide_eq_false_iff_not] at hc
      omega
    case call | work => cases hc
    case abortHeld hb hs => simp [Worker.callsLock,hb,hs] at hc
    all_goals exact ⟨rfl,rfl⟩

theorem lockView_visible (h : (workers L).act i w s t = some (s',t'))
    (hc : t.callsLock s = true) :
    L.client.act i w s.lock t.client = some (s'.lock,t'.client) := by
  replace h := workers_cases h
  cases h with
  | reader h =>
    cases h
    case claim | work => rfl
    case claimFailed hr =>
      simp only [Worker.callsLock,decide_eq_true_eq] at hc
      omega
    case call p l q hs =>
      simp only [Worker.client,RWLockBase.client,hs,Option.map_some]
      cases q <;> rfl
    all_goals cases hc
  | writer h =>
    cases h
    case claim | work | abortHeld => rfl
    case claimFailed hr =>
      simp only [Worker.callsLock,decide_eq_true_eq] at hc
      omega
    case call a p l q hs =>
      simp only [Worker.client,RWLockBase.client,hs,Option.map_some]
      cases a <;> cases q <;> rfl
    case abortTestHeld hb => simp [Worker.callsLock,hb] at hc
    all_goals cases hc

theorem total_start {M : Type} [AddCommMonoid M] {cfg : Workload} {L : RWLockBase cfg.Tid S R W}
    {process : Process} {f : Worker R W → M} (hr : f (.reader {} .start) = 0)
    (hw : ∀ b, f (.writer {} b .sigaction) = 0) : total f (cfg.start L process).locals = 0 := by
  refine Finset.sum_eq_zero fun i _ => ?_
  simp only [Workload.start]
  split
  · exact hw _
  · exact hr

theorem not_enabled_of_done {c : Config ι (SimState S) (Worker R W)} {i : ι}
    (h : (c.locals i).Done) : ¬ (workers L).Enabled c i := by
  rintro ⟨w,hw⟩
  cases hc : c.locals i with
  | reader info pc =>
    rw [hc] at h hw
    cases h
    cases hw
  | writer info b pc =>
    rw [hc] at h hw
    cases h
    cases hw

end

section
variable {ι S R W : Type} [DecidableEq ι]

/-- What the lock sees of its workers is a run of clients. -/
def lockView (L : RWLockBase ι S R W) : Simulation (workers L) L.client :=
  .ofThreads SimState.lock Worker.client (fun w s t => if t.callsLock s then some w else none)
    (fun | .spuriousWake i => some i | .sigusr1 => none)
    (fun h hc => lockView_silent h (by simpa using hc))
    (fun h hc => by
      obtain ⟨hv,he⟩ := Option.ite_none_right_eq_some.mp hc
      cases he
      exact lockView_visible h hv)
    (by
      intro e s s' h he
      cases e with
      | spuriousWake i => cases he
      | sigusr1 =>
        obtain ⟨-,hs⟩ := Option.ite_none_right_eq_some.mp h
        cases hs
        rfl)
    (by
      intro e s s' e' h he
      cases e with
      | spuriousWake i =>
        cases he
        obtain ⟨l,hl,rfl⟩ := Option.map_eq_some_iff.mp h
        exact hl
      | sigusr1 => cases he)

variable {L : RWLockBase ι S R W}

theorem lockView_locals (c : Config ι (SimState S) (Worker R W)) (i : ι) :
    ((lockView L).view c).locals i = (c.locals i).client := rfl

theorem lockView_start (cfg : Workload) (L : RWLockBase cfg.Tid S R W) (process : Process) :
    (lockView L).view (cfg.start L process) = L.fresh cfg.isWriter := by
  have hl : ∀ i, ((cfg.start L process).locals i).client = (L.fresh cfg.isWriter).locals i := by
    intro i
    simp only [Workload.start,RWLockBase.fresh]
    split <;> rfl
  exact congrArg (Config.mk L.init) (funext hl)

/-- A worker with no step is done, or it is blocked in the lock. -/
theorem blocked_of_not_enabled {c : Config ι (SimState S) (Worker R W)} {i : ι}
    (h : ¬ (workers L).Enabled c i) :
    (c.locals i).Done ∨ L.Blocked ((lockView L).view c) i := by
  have h : ∀ w, (workers L).act i w c.shared (c.locals i) = none := by
    simpa [Machine.Enabled] using h
  generalize ht : c.locals i = t at h
  have hv : ((lockView L).view c).locals i = t.client := congrArg Worker.client ht
  cases t with
  | reader info pc =>
    cases pc
    case done => exact .inl rfl
    case call p =>
      refine .inr (.inl ⟨p,hv,fun w => ?_⟩)
      exact Option.map_eq_none_iff.mp (Option.map_eq_none_iff.mp (h w))
    all_goals cases h i
  | writer info b pc =>
    cases pc
    case done => exact .inl rfl
    case call a p =>
      refine .inr (.inr ⟨p,hv,fun w => ?_⟩)
      exact Option.map_eq_none_iff.mp (Option.map_eq_none_iff.mp (h w))
    all_goals cases h i

theorem not_blocked_of_done {c : Config ι (SimState S) (Worker R W)} {i : ι}
    (h : (c.locals i).Done) : ((lockView L).view c).locals i = .reader .idle ∨
      ((lockView L).view c).locals i = .writer .idle := by
  rw [lockView_locals]
  cases hc : c.locals i with
  | reader info pc =>
    rw [hc] at h
    cases h
    exact .inl rfl
  | writer info b pc =>
    rw [hc] at h
    cases h
    exact .inr rfl

/-- Over a lock that is never the reason that nothing moves, a worker can step until all
are done. -/
theorem enabled_of_progress {c : Config ι (SimState S) (Worker R W)}
    (hP : L.Progress ((lockView L).view c)) (h : ∃ i, ¬ (c.locals i).Done) :
    ∃ i, (workers L).Enabled c i := by
  by_contra hn
  have hb : ∀ i, (c.locals i).Done ∨ L.Blocked ((lockView L).view c) i :=
    fun i => blocked_of_not_enabled fun he => hn ⟨i,he⟩
  have hs : L.Stuck ((lockView L).view c) :=
    fun i => (hb i).elim (fun hd => .inr (not_blocked_of_done hd)) .inl
  obtain ⟨i,hi⟩ := h
  exact hP hs i ((hb i).resolve_left hi)

end

end ReadersWriters
