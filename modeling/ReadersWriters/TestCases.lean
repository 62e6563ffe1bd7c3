import ReadersWriters.Worker
set_option autoImplicit false

namespace ReadersWriters
open Interleaving

/-- The program points of `testReaderFn`. It claims an operation with a load of
`opsRemaining` and a `compare_exchange_weak` from the loaded value `rem`. -/
inductive TestReaderAt (R : Type) where
  | start | load | compareExchange (rem : Int)
  | call (p : R)
  | read | loadReadCount | storeReadCount (n : Int) | work
  | finish | done
  deriving DecidableEq, Repr

/-- The program points of `testWriterFn`. -/
inductive TestWriterAt (W : Type) where
  | start | abortTest | load | compareExchange (rem : Int)
  | call (aborted : Bool) (p : W)
  | abortTestHeld | loadData | storeData (n : Int) | loadWriteCount | storeWriteCount (n : Int)
  | work
  | finish | done
  deriving DecidableEq, Repr

inductive TestWorker (R W : Type) where
  | reader (info : ThreadInfo) (pc : TestReaderAt R)
  | writer (info : ThreadInfo) (isAbortTarget : Bool) (pc : TestWriterAt W)
  deriving DecidableEq, Repr

def TestReaderAt.resume {R : Type} : Pos R → TestReaderAt R
  | .inside p => .call p
  | .holding => .read
  | .idle => .load

def TestWriterAt.resume {W : Type} (aborted : Bool) : Pos W → TestWriterAt W
  | .inside p => .call aborted p
  | .holding => .abortTestHeld
  | .idle => if aborted then .finish else .abortTest

section
variable {ι S R W : Type} (L : RWLockBase ι S R W)

/-- With `fails` the exchange fails although the counter still has the value `rem`. -/
def testReaderFn (i w : ι) (fails : Bool) (s : SimState S) (info : ThreadInfo) :
    TestReaderAt R → Option (SimState S × ThreadInfo × TestReaderAt R)
  | .start => some (s,{ info with state := .INIT },.load)
  | .load =>
      let rem := s.opsRemaining
      some (s,info,if rem ≤ 0 then .finish else .compareExchange rem)
  | .compareExchange rem =>
      if s.opsRemaining = rem ∧ fails = false then
        some ({ s with opsRemaining := rem-1 },info,.call L.readLock)
      else some (s,info,.load)
  | .call p => (L.readStep i w s.lock p).map fun r =>
      ({ s with lock := r.1 },info.publish (L.readPublish p),.resume r.2)
  | .read => some (s,info,.loadReadCount)
  | .loadReadCount => some (s,info,.storeReadCount s.resource.readCount)
  | .storeReadCount n =>
      some ({ s with resource := { s.resource with readCount := n+1 } },info,.work)
  | .work => some (s,{ info with opsCompleted := info.opsCompleted+1 },.call L.readUnlock)
  | .finish => some (s,{ info with state := .DONE },.done)
  | .done => none

def testWriterFn (i w : ι) (fails : Bool) (s : SimState S) (info : ThreadInfo)
    (isAbortTarget : Bool) : TestWriterAt W → Option (SimState S × ThreadInfo × TestWriterAt W)
  | .start => some (s,{ info with state := .INIT },.abortTest)
  | .abortTest =>
      some (s,info,if isAbortTarget ∧ s.process.abortSignalReceived then .finish else .load)
  | .load =>
      let rem := s.opsRemaining
      some (s,info,if rem ≤ 0 then .finish else .compareExchange rem)
  | .compareExchange rem =>
      if s.opsRemaining = rem ∧ fails = false then
        some ({ s with opsRemaining := rem-1 },info,.call false L.writeLock)
      else some (s,info,.load)
  | .call aborted p => (L.writeStep i w s.lock p).map fun r =>
      ({ s with lock := r.1 },info.publish (L.writePublish p),.resume aborted r.2)
  | .abortTestHeld =>
      some (s,info,if isAbortTarget ∧ s.process.abortSignalReceived then .call true L.writeUnlock
        else .loadData)
  | .loadData => some (s,info,.storeData s.resource.data)
  | .storeData n =>
      some ({ s with resource := { s.resource with data := n+1 } },info,.loadWriteCount)
  | .loadWriteCount => some (s,info,.storeWriteCount s.resource.writeCount)
  | .storeWriteCount n =>
      some ({ s with resource := { s.resource with writeCount := n+1 } },info,.work)
  | .work =>
      some (s,{ info with opsCompleted := info.opsCompleted+1 },.call false L.writeUnlock)
  | .finish => some (s,{ info with state := .DONE },.done)
  | .done => none

/-- The test threads over a lock. The choice in a step is the waiter that a signal in it
would wake and whether an exchange in it fails spuriously. -/
def testWorkers : Machine ι (ι × Bool) (Disturbance ι) (SimState S) (TestWorker R W) where
  act i k s
    | .reader info pc => (testReaderFn L i k.1 k.2 s info pc).map fun r =>
        (r.1,.reader r.2.1 r.2.2)
    | .writer info isAbortTarget pc =>
        (testWriterFn L i k.1 k.2 s info isAbortTarget pc).map fun r =>
          (r.1,.writer r.2.1 isAbortTarget r.2.2)
  env
    | .spuriousWake i, s => (L.spuriousWake i s.lock).map fun l => { s with lock := l }
    | .sigusr1, s =>
        if s.process.handlerInstalled then some { s with process.abortSignalReceived := true }
        else none

/-- All threads of `runScenario` created. It installs the handler itself; the flag of
`process` is `g_testAbortSignal`, which no scenario resets. -/
def Workload.startScenario (cfg : Workload) (L : RWLockBase cfg.Tid S R W) (process : Process) :
    Config cfg.Tid (SimState S) (TestWorker R W) where
  shared := {
    lock := L.init
    opsRemaining := cfg.totalOps
    process := { process with handlerInstalled := true } }
  locals i :=
    if cfg.isWriter i then .writer {} (cfg.isAbortTarget i) .start else .reader {} .start

end

namespace TestWorker

variable {R W : Type}

def info : TestWorker R W → ThreadInfo
  | .reader info _ => info
  | .writer info _ _ => info

def Done : TestWorker R W → Prop
  | .reader _ pc => pc = .done
  | .writer _ _ pc => pc = .done

/-- The worker as its lock sees it. -/
def client : TestWorker R W → Client R W
  | .reader _ pc => .reader <| match pc with
      | .call p => .inside p
      | .read | .loadReadCount | .storeReadCount _ | .work => .holding
      | _ => .idle
  | .writer _ _ pc => .writer <| match pc with
      | .call _ p => .inside p
      | .abortTestHeld | .loadData | .storeData _ | .loadWriteCount | .storeWriteCount _
      | .work => .holding
      | _ => .idle

end TestWorker

/-- One case for each branch of `testReaderFn`. -/
inductive TestReaderCase {ι S R W : Type} (L : RWLockBase ι S R W) (i w : ι) (s : SimState S)
    (info : ThreadInfo) : TestReaderAt R → SimState S → ThreadInfo → TestReaderAt R → Prop where
  | start : TestReaderCase L i w s info .start s { info with state := .INIT } .load
  | load : 0 < s.opsRemaining →
      TestReaderCase L i w s info .load s info (.compareExchange s.opsRemaining)
  | exhausted : s.opsRemaining ≤ 0 → TestReaderCase L i w s info .load s info .finish
  | claim {rem : Int} : s.opsRemaining = rem → TestReaderCase L i w s info (.compareExchange rem)
      { s with opsRemaining := rem-1 } info (.call L.readLock)
  | retry {rem : Int} : TestReaderCase L i w s info (.compareExchange rem) s info .load
  | call {p : R} {l : S} {q : Pos R} : L.readStep i w s.lock p = some (l,q) →
      TestReaderCase L i w s info (.call p) { s with lock := l }
        (info.publish (L.readPublish p)) (.resume q)
  | read : TestReaderCase L i w s info .read s info .loadReadCount
  | loadReadCount : TestReaderCase L i w s info .loadReadCount s info
      (.storeReadCount s.resource.readCount)
  | storeReadCount {n : Int} : TestReaderCase L i w s info (.storeReadCount n)
      { s with resource := { s.resource with readCount := n+1 } } info .work
  | work : TestReaderCase L i w s info .work s { info with opsCompleted := info.opsCompleted+1 }
      (.call L.readUnlock)
  | finish : TestReaderCase L i w s info .finish s { info with state := .DONE } .done

/-- The same for `testWriterFn`. -/
inductive TestWriterCase {ι S R W : Type} (L : RWLockBase ι S R W) (i w : ι) (s : SimState S)
    (info : ThreadInfo) (b : Bool) :
    TestWriterAt W → SimState S → ThreadInfo → TestWriterAt W → Prop where
  | start : TestWriterCase L i w s info b .start s { info with state := .INIT } .abortTest
  | abort : b = true → s.process.abortSignalReceived = true →
      TestWriterCase L i w s info b .abortTest s info .finish
  | abortTest : TestWriterCase L i w s info b .abortTest s info .load
  | load : 0 < s.opsRemaining →
      TestWriterCase L i w s info b .load s info (.compareExchange s.opsRemaining)
  | exhausted : s.opsRemaining ≤ 0 → TestWriterCase L i w s info b .load s info .finish
  | claim {rem : Int} : s.opsRemaining = rem →
      TestWriterCase L i w s info b (.compareExchange rem) { s with opsRemaining := rem-1 } info
        (.call false L.writeLock)
  | retry {rem : Int} : TestWriterCase L i w s info b (.compareExchange rem) s info .load
  | call {a : Bool} {p : W} {l : S} {q : Pos W} : L.writeStep i w s.lock p = some (l,q) →
      TestWriterCase L i w s info b (.call a p) { s with lock := l }
        (info.publish (L.writePublish p)) (.resume a q)
  | abortHeld : b = true → s.process.abortSignalReceived = true →
      TestWriterCase L i w s info b .abortTestHeld s info (.call true L.writeUnlock)
  | abortTestHeld : TestWriterCase L i w s info b .abortTestHeld s info .loadData
  | loadData : TestWriterCase L i w s info b .loadData s info (.storeData s.resource.data)
  | storeData {n : Int} : TestWriterCase L i w s info b (.storeData n)
      { s with resource := { s.resource with data := n+1 } } info .loadWriteCount
  | loadWriteCount : TestWriterCase L i w s info b .loadWriteCount s info
      (.storeWriteCount s.resource.writeCount)
  | storeWriteCount {n : Int} : TestWriterCase L i w s info b (.storeWriteCount n)
      { s with resource := { s.resource with writeCount := n+1 } } info .work
  | work : TestWriterCase L i w s info b .work s { info with opsCompleted := info.opsCompleted+1 }
      (.call false L.writeUnlock)
  | finish : TestWriterCase L i w s info b .finish s { info with state := .DONE } .done

/-- A step of either test thread. -/
inductive TestWorkerCase {ι S R W : Type} (L : RWLockBase ι S R W) (i w : ι) (s : SimState S) :
    TestWorker R W → SimState S → TestWorker R W → Prop where
  | reader {info info' : ThreadInfo} {pc pc' : TestReaderAt R} {s' : SimState S} :
      TestReaderCase L i w s info pc s' info' pc' →
      TestWorkerCase L i w s (.reader info pc) s' (.reader info' pc')
  | writer {info info' : ThreadInfo} {b : Bool} {pc pc' : TestWriterAt W} {s' : SimState S} :
      TestWriterCase L i w s info b pc s' info' pc' →
      TestWorkerCase L i w s (.writer info b pc) s' (.writer info' b pc')

section
variable {ι S R W : Type} {L : RWLockBase ι S R W} {i w : ι} {fails : Bool} {s s' : SimState S}

theorem testReaderFn_cases {info info' : ThreadInfo} {pc pc' : TestReaderAt R}
    (h : testReaderFn L i w fails s info pc = some (s',info',pc')) :
    TestReaderCase L i w s info pc s' info' pc' := by
  cases pc
  case load =>
    simp only [testReaderFn] at h
    split at h <;> rename_i hc <;> cases h
    · exact .exhausted hc
    · exact .load (by omega)
  case compareExchange rem =>
    simp only [testReaderFn] at h
    split at h <;> rename_i hc <;> cases h
    · exact .claim hc.1
    · exact .retry
  case call p =>
    obtain ⟨⟨l,q⟩,hs,he⟩ := Option.map_eq_some_iff.mp h
    cases he
    exact .call hs
  all_goals cases h <;> constructor

theorem testWriterFn_cases {info info' : ThreadInfo} {b : Bool} {pc pc' : TestWriterAt W}
    (h : testWriterFn L i w fails s info b pc = some (s',info',pc')) :
    TestWriterCase L i w s info b pc s' info' pc' := by
  cases pc
  case abortTest =>
    simp only [testWriterFn] at h
    split at h <;> rename_i hb <;> cases h
    · exact .abort hb.1 hb.2
    · exact .abortTest
  case load =>
    simp only [testWriterFn] at h
    split at h <;> rename_i hc <;> cases h
    · exact .exhausted hc
    · exact .load (by omega)
  case compareExchange rem =>
    simp only [testWriterFn] at h
    split at h <;> rename_i hc <;> cases h
    · exact .claim hc.1
    · exact .retry
  case call a p =>
    obtain ⟨⟨l,q⟩,hs,he⟩ := Option.map_eq_some_iff.mp h
    cases he
    exact .call hs
  case abortTestHeld =>
    simp only [testWriterFn] at h
    split at h <;> rename_i hb <;> cases h
    · exact .abortHeld hb.1 hb.2
    · exact .abortTestHeld
  all_goals cases h <;> constructor

theorem testWorkers_cases {k : ι × Bool} {t t' : TestWorker R W}
    (h : (testWorkers L).act i k s t = some (s',t')) : TestWorkerCase L i k.1 s t s' t' := by
  cases t with
  | reader info pc =>
    obtain ⟨⟨s₁,info',pc'⟩,hs,he⟩ := Option.map_eq_some_iff.mp h
    cases he
    exact .reader (testReaderFn_cases hs)
  | writer info b pc =>
    obtain ⟨⟨s₁,info',pc'⟩,hs,he⟩ := Option.map_eq_some_iff.mp h
    cases he
    exact .writer (testWriterFn_cases hs)

end

end ReadersWriters
