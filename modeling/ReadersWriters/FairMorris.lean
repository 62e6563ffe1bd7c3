import ReadersWriters.LockBase
import ReadersWriters.Primitives
set_option autoImplicit false

namespace ReadersWriters.FairMorrisLock
open Interleaving

structure Shared (ι : Type) where
  mtx : Mutex := ⟨false⟩
  readCond : CondVar ι := []
  writeCond : CondVar ι := []
  activeReaders : Int := 0
  activeWriter : Bool := false
  waitingReaders : Int := 0
  waitingWriters : Int := 0
  deriving DecidableEq, Repr

/-- The program points of `readLock` and `readUnlock`. A thread at `lockCondWait` is in
`pthread_cond_wait`: asleep while it is in the queue, else woken and after the mutex.
`lockTest` is the first test of the loop, `lockRetest` each further one. -/
inductive ReadPC where
  | lockWaiting | lockMutexLock | lockTest | lockCondWait | lockWake | lockRetest | lockFetchAdd
  | lockMutexUnlock | lockActive
  | unlockMutexLock | unlockFetchSub | unlockNotify | unlockMutexUnlock | unlockReleasing
  deriving DecidableEq, Repr

/-- The program points of `writeLock` and `writeUnlock`. -/
inductive WritePC where
  | lockWaiting | lockMutexLock | lockTest | lockCondWait | lockWake | lockRetest | lockStore
  | lockMutexUnlock | lockActive
  | unlockMutexLock | unlockStore | unlockNotify | unlockMutexUnlock | unlockReleasing
  deriving DecidableEq, Repr

section
variable {ι : Type} [DecidableEq ι]

def readStep (i w : ι) (s : Shared ι) : ReadPC → Option (Shared ι × Pos ReadPC)
  | .lockWaiting => some (s,.inside .lockMutexLock)
  | .lockMutexLock => s.mtx.lock.map fun m => ({ s with mtx := m },.inside .lockTest)
  | .lockTest | .lockRetest =>
      if s.activeWriter ∨ s.waitingWriters > 0 then
        some ({ s with
          waitingReaders := s.waitingReaders+1
          readCond := s.readCond.sleep i
          mtx := s.mtx.unlock },.inside .lockCondWait)
      else some (s,.inside .lockFetchAdd)
  | .lockCondWait =>
      if i ∈ s.readCond then none
      else s.mtx.lock.map fun m => ({ s with mtx := m },.inside .lockWake)
  | .lockWake => some ({ s with waitingReaders := s.waitingReaders-1 },.inside .lockRetest)
  | .lockFetchAdd => some ({ s with activeReaders := s.activeReaders+1 },.inside .lockMutexUnlock)
  | .lockMutexUnlock => some ({ s with mtx := s.mtx.unlock },.inside .lockActive)
  | .lockActive => some (s,.holding)
  | .unlockMutexLock => s.mtx.lock.map fun m => ({ s with mtx := m },.inside .unlockFetchSub)
  | .unlockFetchSub =>
      let rc := s.activeReaders-1
      some ({ s with activeReaders := rc },
        .inside (if rc = 0 then .unlockNotify else .unlockMutexUnlock))
  | .unlockNotify =>
      if s.waitingWriters > 0 then
        (s.writeCond.signal w).map fun q => ({ s with writeCond := q },.inside .unlockMutexUnlock)
      else if s.waitingReaders > 0 then
        some ({ s with readCond := s.readCond.broadcast },.inside .unlockMutexUnlock)
      else some (s,.inside .unlockMutexUnlock)
  | .unlockMutexUnlock => some ({ s with mtx := s.mtx.unlock },.inside .unlockReleasing)
  | .unlockReleasing => some (s,.idle)

def writeStep (i w : ι) (s : Shared ι) : WritePC → Option (Shared ι × Pos WritePC)
  | .lockWaiting => some (s,.inside .lockMutexLock)
  | .lockMutexLock => s.mtx.lock.map fun m => ({ s with mtx := m },.inside .lockTest)
  | .lockTest | .lockRetest =>
      if s.activeReaders > 0 ∨ s.activeWriter then
        some ({ s with
          waitingWriters := s.waitingWriters+1
          writeCond := s.writeCond.sleep i
          mtx := s.mtx.unlock },.inside .lockCondWait)
      else some (s,.inside .lockStore)
  | .lockCondWait =>
      if i ∈ s.writeCond then none
      else s.mtx.lock.map fun m => ({ s with mtx := m },.inside .lockWake)
  | .lockWake => some ({ s with waitingWriters := s.waitingWriters-1 },.inside .lockRetest)
  | .lockStore => some ({ s with activeWriter := true },.inside .lockMutexUnlock)
  | .lockMutexUnlock => some ({ s with mtx := s.mtx.unlock },.inside .lockActive)
  | .lockActive => some (s,.holding)
  | .unlockMutexLock => s.mtx.lock.map fun m => ({ s with mtx := m },.inside .unlockStore)
  | .unlockStore => some ({ s with activeWriter := false },.inside .unlockNotify)
  | .unlockNotify =>
      if s.waitingReaders > 0 then
        some ({ s with readCond := s.readCond.broadcast },.inside .unlockMutexUnlock)
      else if s.waitingWriters > 0 then
        (s.writeCond.signal w).map fun q => ({ s with writeCond := q },.inside .unlockMutexUnlock)
      else some (s,.inside .unlockMutexUnlock)
  | .unlockMutexUnlock => some ({ s with mtx := s.mtx.unlock },.inside .unlockReleasing)
  | .unlockReleasing => some (s,.idle)

def spuriousWake (i : ι) (s : Shared ι) : Option (Shared ι) :=
  if i ∈ s.readCond then some { s with readCond := s.readCond.erase i }
  else (s.writeCond.wake i).map fun q => { s with writeCond := q }

end

def readPublish : ReadPC → Option ThreadState
  | .lockWaiting => some .WAITING
  | .lockActive => some .ACTIVE
  | .unlockReleasing => some .RELEASING
  | _ => none

def writePublish : WritePC → Option ThreadState
  | .lockWaiting => some .WAITING
  | .lockActive => some .ACTIVE
  | .unlockReleasing => some .RELEASING
  | _ => none

/-- What a step of a reader can do, one case for each branch of `readStep`. -/
inductive ReadCase {ι : Type} [DecidableEq ι] (i w : ι) (s : Shared ι) :
    ReadPC → Shared ι → Pos ReadPC → Prop where
  | lockWaiting : ReadCase i w s .lockWaiting s (.inside .lockMutexLock)
  | lockMutexLock : s.mtx.locked = false →
      ReadCase i w s .lockMutexLock { s with mtx := ⟨true⟩ } (.inside .lockTest)
  | sleep : s.activeWriter = true ∨ s.waitingWriters > 0 →
      ReadCase i w s .lockTest { s with
        waitingReaders := s.waitingReaders+1
        readCond := s.readCond ++ [i]
        mtx := ⟨false⟩ } (.inside .lockCondWait)
  | pass : s.activeWriter = false → s.waitingWriters ≤ 0 →
      ReadCase i w s .lockTest s (.inside .lockFetchAdd)
  | sleepAgain : s.activeWriter = true ∨ s.waitingWriters > 0 →
      ReadCase i w s .lockRetest { s with
        waitingReaders := s.waitingReaders+1
        readCond := s.readCond ++ [i]
        mtx := ⟨false⟩ } (.inside .lockCondWait)
  | passAgain : s.activeWriter = false → s.waitingWriters ≤ 0 →
      ReadCase i w s .lockRetest s (.inside .lockFetchAdd)
  | lockCondWait : i ∉ s.readCond → s.mtx.locked = false →
      ReadCase i w s .lockCondWait { s with mtx := ⟨true⟩ } (.inside .lockWake)
  | lockWake : ReadCase i w s .lockWake { s with waitingReaders := s.waitingReaders-1 }
      (.inside .lockRetest)
  | lockFetchAdd : ReadCase i w s .lockFetchAdd { s with activeReaders := s.activeReaders+1 }
      (.inside .lockMutexUnlock)
  | lockMutexUnlock : ReadCase i w s .lockMutexUnlock { s with mtx := ⟨false⟩ }
      (.inside .lockActive)
  | lockActive : ReadCase i w s .lockActive s .holding
  | unlockMutexLock : s.mtx.locked = false →
      ReadCase i w s .unlockMutexLock { s with mtx := ⟨true⟩ } (.inside .unlockFetchSub)
  | unlockLast : s.activeReaders = 1 →
      ReadCase i w s .unlockFetchSub { s with activeReaders := s.activeReaders-1 }
        (.inside .unlockNotify)
  | unlockFetchSub : s.activeReaders ≠ 1 →
      ReadCase i w s .unlockFetchSub { s with activeReaders := s.activeReaders-1 }
        (.inside .unlockMutexUnlock)
  | signal : s.waitingWriters > 0 → w ∈ s.writeCond →
      ReadCase i w s .unlockNotify { s with writeCond := s.writeCond.erase w }
        (.inside .unlockMutexUnlock)
  | signalNobody : s.waitingWriters > 0 → s.writeCond = [] →
      ReadCase i w s .unlockNotify s (.inside .unlockMutexUnlock)
  | broadcast : s.waitingWriters ≤ 0 → s.waitingReaders > 0 →
      ReadCase i w s .unlockNotify { s with readCond := [] } (.inside .unlockMutexUnlock)
  | quiet : s.waitingWriters ≤ 0 → s.waitingReaders ≤ 0 →
      ReadCase i w s .unlockNotify s (.inside .unlockMutexUnlock)
  | unlockMutexUnlock : ReadCase i w s .unlockMutexUnlock { s with mtx := ⟨false⟩ }
      (.inside .unlockReleasing)
  | unlockReleasing : ReadCase i w s .unlockReleasing s .idle

/-- The same for a writer and `writeStep`. -/
inductive WriteCase {ι : Type} [DecidableEq ι] (i w : ι) (s : Shared ι) :
    WritePC → Shared ι → Pos WritePC → Prop where
  | lockWaiting : WriteCase i w s .lockWaiting s (.inside .lockMutexLock)
  | lockMutexLock : s.mtx.locked = false →
      WriteCase i w s .lockMutexLock { s with mtx := ⟨true⟩ } (.inside .lockTest)
  | sleep : s.activeReaders > 0 ∨ s.activeWriter = true →
      WriteCase i w s .lockTest { s with
        waitingWriters := s.waitingWriters+1
        writeCond := s.writeCond ++ [i]
        mtx := ⟨false⟩ } (.inside .lockCondWait)
  | pass : s.activeReaders ≤ 0 → s.activeWriter = false →
      WriteCase i w s .lockTest s (.inside .lockStore)
  | sleepAgain : s.activeReaders > 0 ∨ s.activeWriter = true →
      WriteCase i w s .lockRetest { s with
        waitingWriters := s.waitingWriters+1
        writeCond := s.writeCond ++ [i]
        mtx := ⟨false⟩ } (.inside .lockCondWait)
  | passAgain : s.activeReaders ≤ 0 → s.activeWriter = false →
      WriteCase i w s .lockRetest s (.inside .lockStore)
  | lockCondWait : i ∉ s.writeCond → s.mtx.locked = false →
      WriteCase i w s .lockCondWait { s with mtx := ⟨true⟩ } (.inside .lockWake)
  | lockWake : WriteCase i w s .lockWake { s with waitingWriters := s.waitingWriters-1 }
      (.inside .lockRetest)
  | lockStore : WriteCase i w s .lockStore { s with activeWriter := true }
      (.inside .lockMutexUnlock)
  | lockMutexUnlock : WriteCase i w s .lockMutexUnlock { s with mtx := ⟨false⟩ }
      (.inside .lockActive)
  | lockActive : WriteCase i w s .lockActive s .holding
  | unlockMutexLock : s.mtx.locked = false →
      WriteCase i w s .unlockMutexLock { s with mtx := ⟨true⟩ } (.inside .unlockStore)
  | unlockStore : WriteCase i w s .unlockStore { s with activeWriter := false }
      (.inside .unlockNotify)
  | broadcast : s.waitingReaders > 0 →
      WriteCase i w s .unlockNotify { s with readCond := [] } (.inside .unlockMutexUnlock)
  | signal : s.waitingReaders ≤ 0 → s.waitingWriters > 0 → w ∈ s.writeCond →
      WriteCase i w s .unlockNotify { s with writeCond := s.writeCond.erase w }
        (.inside .unlockMutexUnlock)
  | signalNobody : s.waitingReaders ≤ 0 → s.waitingWriters > 0 → s.writeCond = [] →
      WriteCase i w s .unlockNotify s (.inside .unlockMutexUnlock)
  | quiet : s.waitingReaders ≤ 0 → s.waitingWriters ≤ 0 →
      WriteCase i w s .unlockNotify s (.inside .unlockMutexUnlock)
  | unlockMutexUnlock : WriteCase i w s .unlockMutexUnlock { s with mtx := ⟨false⟩ }
      (.inside .unlockReleasing)
  | unlockReleasing : WriteCase i w s .unlockReleasing s .idle

section
variable {ι : Type} [DecidableEq ι] {i w : ι} {s s' : Shared ι}

theorem readStep_cases {p : ReadPC} {q : Pos ReadPC} (h : readStep i w s p = some (s',q)) :
    ReadCase i w s p s' q := by
  cases p
  case lockMutexLock | unlockMutexLock =>
    obtain ⟨hu,he⟩ := Mutex.lock_map_eq_some.mp h
    cases he
    constructor
    exact hu
  case lockCondWait =>
    obtain ⟨hi,h⟩ := Option.ite_none_left_eq_some.mp h
    obtain ⟨hu,he⟩ := Mutex.lock_map_eq_some.mp h
    cases he
    exact .lockCondWait hi hu
  case lockTest =>
    simp only [readStep] at h
    split at h <;> rename_i ht <;> cases h
    · exact .sleep ht
    · simp only [not_or,Bool.not_eq_true,not_lt] at ht
      exact .pass ht.1 ht.2
  case lockRetest =>
    simp only [readStep] at h
    split at h <;> rename_i ht <;> cases h
    · exact .sleepAgain ht
    · simp only [not_or,Bool.not_eq_true,not_lt] at ht
      exact .passAgain ht.1 ht.2
  case unlockFetchSub =>
    simp only [readStep] at h
    split at h <;> rename_i hc <;> cases h
    · exact .unlockLast (by omega)
    · exact .unlockFetchSub (by omega)
  case unlockNotify =>
    simp only [readStep] at h
    split at h <;> rename_i hw
    · obtain ⟨q,hq,he⟩ := Option.map_eq_some_iff.mp h
      cases he
      rcases CondVar.signal_eq_some.mp hq with ⟨hn,rfl⟩ | ⟨hm,rfl⟩
      · rw [← hn]
        exact .signalNobody hw hn
      · exact .signal hw hm
    · split at h <;> rename_i hr <;> cases h
      · exact .broadcast (by omega) hr
      · exact .quiet (by omega) (by omega)
  all_goals
    cases h
    constructor

theorem writeStep_cases {p : WritePC} {q : Pos WritePC} (h : writeStep i w s p = some (s',q)) :
    WriteCase i w s p s' q := by
  cases p
  case lockMutexLock | unlockMutexLock =>
    obtain ⟨hu,he⟩ := Mutex.lock_map_eq_some.mp h
    cases he
    constructor
    exact hu
  case lockCondWait =>
    obtain ⟨hi,h⟩ := Option.ite_none_left_eq_some.mp h
    obtain ⟨hu,he⟩ := Mutex.lock_map_eq_some.mp h
    cases he
    exact .lockCondWait hi hu
  case lockTest =>
    simp only [writeStep] at h
    split at h <;> rename_i ht <;> cases h
    · exact .sleep ht
    · simp only [not_or,Bool.not_eq_true,not_lt] at ht
      exact .pass ht.1 ht.2
  case lockRetest =>
    simp only [writeStep] at h
    split at h <;> rename_i ht <;> cases h
    · exact .sleepAgain ht
    · simp only [not_or,Bool.not_eq_true,not_lt] at ht
      exact .passAgain ht.1 ht.2
  case unlockNotify =>
    simp only [writeStep] at h
    split at h <;> rename_i hr
    · cases h
      exact .broadcast hr
    · split at h <;> rename_i hw
      · obtain ⟨q,hq,he⟩ := Option.map_eq_some_iff.mp h
        cases he
        rcases CondVar.signal_eq_some.mp hq with ⟨hn,rfl⟩ | ⟨hm,rfl⟩
        · rw [← hn]
          exact .signalNobody (by omega) hw hn
        · exact .signal (by omega) hw hm
      · cases h
        exact .quiet (by omega) (by omega)
  all_goals
    cases h
    constructor

def readLocking (p : ReadPC) : Bool := p ∈ [.lockWaiting,.lockMutexLock,.lockTest,.lockCondWait,
  .lockWake,.lockRetest,.lockFetchAdd,.lockMutexUnlock,.lockActive]

def writeLocking (p : WritePC) : Bool := p ∈ [.lockWaiting,.lockMutexLock,.lockTest,.lockCondWait,
  .lockWake,.lockRetest,.lockStore,.lockMutexUnlock,.lockActive]

theorem readStep_locking {p : ReadPC} {q : Pos ReadPC} (h : readStep i w s p = some (s',q)) :
    q.locking readLocking = readLocking p := by cases readStep_cases h <;> rfl

theorem writeStep_locking {p : WritePC} {q : Pos WritePC} (h : writeStep i w s p = some (s',q)) :
    q.locking writeLocking = writeLocking p := by cases writeStep_cases h <;> rfl

end

def lock (ι : Type) [DecidableEq ι] : RWLockBase ι (Shared ι) ReadPC WritePC where
  init := {}
  readLock := .lockWaiting
  readUnlock := .unlockMutexLock
  writeLock := .lockWaiting
  writeUnlock := .unlockMutexLock
  readStep := readStep
  writeStep := writeStep
  spuriousWake := spuriousWake
  readPublish := readPublish
  writePublish := writePublish
  readerCount s := s.activeReaders
  writerActive s := s.activeWriter
  readAdmitted p := p ∈ [.lockMutexUnlock,.lockActive,.unlockMutexLock,.unlockFetchSub]
  writeAdmitted p := p ∈ [.lockMutexUnlock,.lockActive,.unlockMutexLock,.unlockStore]
  readLocking := readLocking
  writeLocking := writeLocking
  readLock_locking := rfl
  readUnlock_locking := rfl
  writeLock_locking := rfl
  writeUnlock_locking := rfl
  readStep_locking := readStep_locking
  writeStep_locking := writeStep_locking

abbrev Thread := Client ReadPC WritePC

abbrev reading (p : ReadPC) : Thread := .reader (.inside p)
abbrev writing (p : WritePC) : Thread := .writer (.inside p)

/-- What a thread can count for; one thread can count for several of these. -/
inductive Role where
  | mutex | fetchAdd | store | activeReader | activeWriter | waitingReader | waitingWriter
  deriving DecidableEq, Repr

/-- The places of a role. `mutex` has the other places with `mtx_` held, besides the two
where a thread has left its loop and is yet to admit itself. -/
def places : Role → List Thread
  | .mutex => [reading .lockTest,reading .lockWake,reading .lockRetest,reading .lockMutexUnlock,
      reading .unlockFetchSub,reading .unlockNotify,reading .unlockMutexUnlock,
      writing .lockTest,writing .lockWake,writing .lockRetest,writing .lockMutexUnlock,
      writing .unlockStore,writing .unlockNotify,writing .unlockMutexUnlock]
  | .fetchAdd => [reading .lockFetchAdd]
  | .store => [writing .lockStore]
  | .activeReader => [reading .lockMutexUnlock,reading .lockActive,.reader .holding,
      reading .unlockMutexLock,reading .unlockFetchSub]
  | .activeWriter => [writing .lockMutexUnlock,writing .lockActive,.writer .holding,
      writing .unlockMutexLock,writing .unlockStore]
  | .waitingReader => [reading .lockCondWait,reading .lockWake]
  | .waitingWriter => [writing .lockCondWait,writing .lockWake]

/-- The counters against the threads they count. A thread that has left its loop finds
the lock as its test found it, since both happen under `mtx_`. -/
structure Counts {ι : Type} (s : Shared ι) (n : Role → ℕ) : Prop where
  mutex : s.mtx.locked.toNat = n .mutex+n .fetchAdd+n .store
  readers : s.activeReaders = n .activeReader
  writers : s.activeWriter.toNat = n .activeWriter
  waitingReaders : s.waitingReaders = n .waitingReader
  waitingWriters : s.waitingWriters = n .waitingWriter
  exclusive : n .activeWriter = 0 ∨ n .activeReader = 0
  fetchAdd : n .fetchAdd = 0 ∨ n .activeWriter = 0 ∧ n .waitingWriter = 0
  store : n .store = 0 ∨ n .activeWriter = 0 ∧ n .activeReader = 0

section
variable {ι : Type} [DecidableEq ι] {i w : ι} {s s' : Shared ι} {r : Role → ℕ}

theorem counts_readStep {p : ReadPC} {q : Pos ReadPC} (h : readStep i w s p = some (s',q))
    (hI : Counts s (r+roles places (reading p))) : Counts s' (r+roles places (.reader q)) := by
  obtain ⟨hm,hr,hw,hwr,hww,he,hf,hs⟩ := hI
  have hl := Bool.toNat_le s.mtx.locked
  simp only [Pi.add_apply,roles,presence] at hm hr hw hwr hww he hf hs
  cases readStep_cases h <;> simp +decide only [if_true,if_false] at hm hr hw hwr hww he hf hs
  case lockMutexLock hu | lockCondWait hu | unlockMutexLock hu =>
    rw [hu,Bool.toNat_false] at hm
    constructor <;>
      simp +decide only [Pi.add_apply,roles,presence,if_true,if_false,Bool.toNat_true] <;> omega
  case pass ha _ | passAgain ha _ =>
    rw [ha,Bool.toNat_false] at hw
    constructor <;>
      simp +decide only [Pi.add_apply,roles,presence,if_true,if_false,ha,Bool.toNat_false] <;> omega
  all_goals
    constructor <;>
      simp +decide only [Pi.add_apply,roles,presence,if_true,if_false,Bool.toNat_false] <;> omega

theorem counts_writeStep {p : WritePC} {q : Pos WritePC} (h : writeStep i w s p = some (s',q))
    (hI : Counts s (r+roles places (writing p))) : Counts s' (r+roles places (.writer q)) := by
  obtain ⟨hm,hr,hw,hwr,hww,he,hf,hs⟩ := hI
  have hl := Bool.toNat_le s.mtx.locked
  have ha := Bool.toNat_le s.activeWriter
  simp only [Pi.add_apply,roles,presence] at hm hr hw hwr hww he hf hs
  cases writeStep_cases h <;> simp +decide only [if_true,if_false] at hm hr hw hwr hww he hf hs
  case lockMutexLock hu | lockCondWait hu | unlockMutexLock hu =>
    rw [hu,Bool.toNat_false] at hm
    constructor <;>
      simp +decide only [Pi.add_apply,roles,presence,if_true,if_false,Bool.toNat_true] <;> omega
  case pass _ ha | passAgain _ ha =>
    rw [ha,Bool.toNat_false] at hw
    constructor <;>
      simp +decide only [Pi.add_apply,roles,presence,if_true,if_false,ha,Bool.toNat_false] <;> omega
  all_goals
    constructor <;> simp +decide only [Pi.add_apply,roles,presence,if_true,if_false,
      Bool.toNat_true,Bool.toNat_false] <;> omega

theorem counts_call {t t' : Thread} (h : (lock ι).Call t t')
    (hI : Counts s (r+roles places t)) : Counts s (r+roles places t') := by
  have hp : roles places t' = roles places t := by
    funext x
    cases h <;> cases x <;> rfl
  rwa [hp]

theorem counts_spuriousWake (h : spuriousWake i s = some s') (hI : Counts s r) : Counts s' r := by
  simp only [spuriousWake] at h
  split at h
  · cases h
    exact ⟨hI.mutex,hI.readers,hI.writers,hI.waitingReaders,hI.waitingWriters,hI.exclusive,
      hI.fetchAdd,hI.store⟩
  · obtain ⟨q,-,rfl⟩ := Option.map_eq_some_iff.mp h
    exact ⟨hI.mutex,hI.readers,hI.writers,hI.waitingReaders,hI.waitingWriters,hI.exclusive,
      hI.fetchAdd,hI.store⟩

theorem holdsRead_iff {t : Thread} : (lock ι).HoldsRead t ↔ t ∈ places .activeReader := by
  match t with
  | .reader (.inside p) => cases p <;> simp [RWLockBase.HoldsRead,lock,places]
  | .reader .idle | .reader .holding | .writer _ => simp [RWLockBase.HoldsRead,places]

theorem holdsWrite_iff {t : Thread} : (lock ι).HoldsWrite t ↔ t ∈ places .activeWriter := by
  match t with
  | .writer (.inside p) => cases p <;> simp [RWLockBase.HoldsWrite,lock,places]
  | .writer .idle | .writer .holding | .reader _ => simp [RWLockBase.HoldsWrite,places]

end

section
variable {ι : Type} [Fintype ι] {c : Config ι (Shared ι) Thread}

abbrev Counted (c : Config ι (Shared ι) Thread) : Prop :=
  Counts c.shared fun x => headcount c.locals (places x)

/-- Nobody is between locking and unlocking a free `mtx_`. -/
theorem not_in_mutex (hI : Counted c) (hm : c.shared.mtx.locked = false) {x : Role}
    (hx : x = .mutex ∨ x = .fetchAdd ∨ x = .store) (i : ι) : c.locals i ∉ places x := by
  have h := hI.mutex
  rw [hm,Bool.toNat_false] at h
  refine headcount_eq_zero.mp ?_ i
  rcases hx with rfl | rfl | rfl <;> omega

variable [DecidableEq ι] {isWriter : ι → Bool}

theorem counted_run {h : List (Event ι ι ι (Shared ι) Thread)}
    (hr : Run (lock ι).client ((lock ι).fresh isWriter) h c) : Counted c := by
  have h₀ : Counts (lock ι).init (total (roles places) ((lock ι).fresh isWriter).locals) := by
    have hz : total (roles places) ((lock ι).fresh isWriter).locals = fun _ => 0 := by
      funext x
      rw [total_roles]
      cases x <;> exact RWLockBase.headcount_fresh isWriter (by decide) (by decide)
    rw [hz]
    constructor <;> simp [lock]
  have hc := RWLockBase.run_invariant (I := Counts) h₀ (fun _ _ _ _ _ _ _ => counts_readStep)
    (fun _ _ _ _ _ _ _ => counts_writeStep) (fun _ _ _ _ => counts_call)
    (fun _ _ _ _ => counts_spuriousWake) hr
  simpa only [funext (total_roles places c.locals)] using hc

theorem exclusive (hI : Counted c) : (lock ι).Exclusive c := by
  intro i j hij hi
  have hu := Bool.toNat_le c.shared.activeWriter
  rw [hI.writers] at hu
  rw [holdsWrite_iff] at hi
  have hp := headcount_pos hi
  refine ⟨fun hj => ?_,fun hj => ?_⟩
  · exact hij (headcount_unique hu hi (holdsWrite_iff.mp hj))
  · have hq := headcount_pos (holdsRead_iff.mp hj)
    have he := hI.exclusive
    omega

/-- The counters while `mtx_` is free, for any number of clients, whatever waiter a signal
wakes and with spurious wake-ups at any moment. -/
theorem fairMorris_exclusion {h : List (Event ι ι ι (Shared ι) Thread)}
    (hr : Run (lock ι).client ((lock ι).fresh isWriter) h c) (hm : c.shared.mtx.locked = false) :
    c.shared.activeReaders = headcount c.locals (places .activeReader) ∧
    (c.shared.activeWriter = true ↔ headcount c.locals (places .activeWriter) = 1) ∧
    headcount c.locals (places .activeWriter) ≤ 1 ∧
    ¬ (0 < c.shared.activeReaders ∧ c.shared.activeWriter = true) ∧
    c.shared.waitingReaders = headcount c.locals [reading .lockCondWait] ∧
    c.shared.waitingWriters = headcount c.locals [writing .lockCondWait] := by
  have hI := counted_run hr
  have hw := hI.writers
  have hu := Bool.toNat_le c.shared.activeWriter
  have hn := not_in_mutex hI hm (.inl rfl)
  refine ⟨hI.readers,?_,by omega,?_,?_,?_⟩
  · rw [← hw]
    cases c.shared.activeWriter <;> decide
  · rintro ⟨hpos,ha⟩
    have hr := hI.readers
    have he := hI.exclusive
    rw [ha,Bool.toNat_true] at hw
    omega
  · rw [hI.waitingReaders]
    congr 1
    refine headcount_congr fun i => ?_
    have hi : c.locals i ≠ reading .lockWake := fun hc => hn i (by rw [hc]; decide)
    simp [places,hi]
  · rw [hI.waitingWriters]
    congr 1
    refine headcount_congr fun i => ?_
    have hi : c.locals i ≠ writing .lockWake := fun hc => hn i (by rw [hc]; decide)
    simp [places,hi]

end

/-- A writer holds the lock, a second one sleeps and a reader was woken spuriously. -/
theorem fairMorris_exclusion_witness : ∃ h c,
    Run (lock (Fin 3)).client ((lock (Fin 3)).fresh (· ≠ 0)) h c ∧ c.shared.mtx.locked = false ∧
    c.locals 1 = .writer .holding ∧ c.shared.readCond = [] ∧ c.shared.writeCond = [2] ∧
    c.shared.waitingReaders = headcount c.locals [reading .lockCondWait] ∧
    c.shared.waitingWriters = headcount c.locals [writing .lockCondWait] := by
  obtain ⟨h,hr,-⟩ := Run.of_exec (m := (lock (Fin 3)).client) (c := (lock (Fin 3)).fresh (· ≠ 0))
    [.thread 1 1,.thread 1 1,.thread 1 1,.thread 1 1,.thread 1 1,.thread 1 1,.thread 1 1,
      .thread 0 0,.thread 0 0,.thread 0 0,.thread 0 0,.thread 2 2,.thread 2 2,.thread 2 2,
      .thread 2 2,.env 0] rfl
  obtain ⟨-,-,-,-,hwr,hww⟩ := fairMorris_exclusion hr rfl
  exact ⟨h,_,hr,rfl,rfl,rfl,rfl,hwr,hww⟩

end ReadersWriters.FairMorrisLock
