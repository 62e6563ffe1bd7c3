import ReadersWriters.Interleaving.Lightswitch
import ReadersWriters.LockBase
import ReadersWriters.Primitives
set_option autoImplicit false

namespace ReadersWriters.WriterPriorityLock
open Interleaving

structure Shared where
  readCount : Int := 0
  writeCount : Int := 0
  writerActive : Bool := false
  mutex1 : Semaphore := ⟨1⟩
  mutex2 : Semaphore := ⟨1⟩
  rsem : Semaphore := ⟨1⟩
  wrt : Semaphore := ⟨1⟩
  readTry : Semaphore := ⟨1⟩
  deriving DecidableEq, Repr

/-- The program points of `readLock` and `readUnlock`. -/
inductive ReadPC where
  | lockWaiting | lockReadTryWait | lockRsemWait | lockMutex1Wait | lockCount | lockWrtWait
  | lockMutex1Post | lockRsemPost | lockReadTryPost | lockActive
  | unlockMutex1Wait | unlockCount | unlockWrtPost | unlockMutex1Post | unlockReleasing
  deriving DecidableEq, Repr

/-- The program points of `writeLock` and `writeUnlock`. -/
inductive WritePC where
  | lockWaiting | lockMutex2Wait | lockCount | lockRsemWait | lockMutex2Post | lockWrtWait
  | lockSetActive | lockActive
  | unlockClearActive | unlockWrtPost | unlockMutex2Wait | unlockCount | unlockRsemPost
  | unlockMutex2Post | unlockReleasing
  deriving DecidableEq, Repr

def readStep (s : Shared) : ReadPC → Option (Shared × Pos ReadPC)
  | .lockWaiting => some (s,.inside .lockReadTryWait)
  | .lockReadTryWait => s.readTry.wait.map fun m => ({ s with readTry := m },.inside .lockRsemWait)
  | .lockRsemWait => s.rsem.wait.map fun m => ({ s with rsem := m },.inside .lockMutex1Wait)
  | .lockMutex1Wait => s.mutex1.wait.map fun m => ({ s with mutex1 := m },.inside .lockCount)
  | .lockCount =>
      let rc := s.readCount+1
      some ({ s with readCount := rc },
        .inside (if rc = 1 then .lockWrtWait else .lockMutex1Post))
  | .lockWrtWait => s.wrt.wait.map fun m => ({ s with wrt := m },.inside .lockMutex1Post)
  | .lockMutex1Post => some ({ s with mutex1 := s.mutex1.post },.inside .lockRsemPost)
  | .lockRsemPost => some ({ s with rsem := s.rsem.post },.inside .lockReadTryPost)
  | .lockReadTryPost => some ({ s with readTry := s.readTry.post },.inside .lockActive)
  | .lockActive => some (s,.holding)
  | .unlockMutex1Wait => s.mutex1.wait.map fun m => ({ s with mutex1 := m },.inside .unlockCount)
  | .unlockCount =>
      let rc := s.readCount-1
      some ({ s with readCount := rc },
        .inside (if rc = 0 then .unlockWrtPost else .unlockMutex1Post))
  | .unlockWrtPost => some ({ s with wrt := s.wrt.post },.inside .unlockMutex1Post)
  | .unlockMutex1Post => some ({ s with mutex1 := s.mutex1.post },.inside .unlockReleasing)
  | .unlockReleasing => some (s,.idle)

def writeStep (s : Shared) : WritePC → Option (Shared × Pos WritePC)
  | .lockWaiting => some (s,.inside .lockMutex2Wait)
  | .lockMutex2Wait => s.mutex2.wait.map fun m => ({ s with mutex2 := m },.inside .lockCount)
  | .lockCount =>
      let wc := s.writeCount+1
      some ({ s with writeCount := wc },
        .inside (if wc = 1 then .lockRsemWait else .lockMutex2Post))
  | .lockRsemWait => s.rsem.wait.map fun m => ({ s with rsem := m },.inside .lockMutex2Post)
  | .lockMutex2Post => some ({ s with mutex2 := s.mutex2.post },.inside .lockWrtWait)
  | .lockWrtWait => s.wrt.wait.map fun m => ({ s with wrt := m },.inside .lockSetActive)
  | .lockSetActive => some ({ s with writerActive := true },.inside .lockActive)
  | .lockActive => some (s,.holding)
  | .unlockClearActive => some ({ s with writerActive := false },.inside .unlockWrtPost)
  | .unlockWrtPost => some ({ s with wrt := s.wrt.post },.inside .unlockMutex2Wait)
  | .unlockMutex2Wait => s.mutex2.wait.map fun m => ({ s with mutex2 := m },.inside .unlockCount)
  | .unlockCount =>
      let wc := s.writeCount-1
      some ({ s with writeCount := wc },
        .inside (if wc = 0 then .unlockRsemPost else .unlockMutex2Post))
  | .unlockRsemPost => some ({ s with rsem := s.rsem.post },.inside .unlockMutex2Post)
  | .unlockMutex2Post => some ({ s with mutex2 := s.mutex2.post },.inside .unlockReleasing)
  | .unlockReleasing => some (s,.idle)

def readPublish : ReadPC → Option ThreadState
  | .lockWaiting => some .WAITING
  | .lockActive => some .ACTIVE
  | .unlockReleasing => some .RELEASING
  | _ => none

def writePublish : WritePC → Option ThreadState
  | .lockWaiting => some .WAITING
  | .lockActive => some .ACTIVE
  | .unlockReleasing => some .RELEASING
  | _ => none

def readLocking (p : ReadPC) : Bool := p ∈ [.lockWaiting,.lockReadTryWait,.lockRsemWait,
  .lockMutex1Wait,.lockCount,.lockWrtWait,.lockMutex1Post,.lockRsemPost,.lockReadTryPost,
  .lockActive]

def writeLocking (p : WritePC) : Bool := p ∈ [.lockWaiting,.lockMutex2Wait,.lockCount,
  .lockRsemWait,.lockMutex2Post,.lockWrtWait,.lockSetActive,.lockActive]

/-- What a step of a reader can do, one case for each branch of `readStep`. -/
inductive ReadCase (s : Shared) : ReadPC → Shared → Pos ReadPC → Prop where
  | lockWaiting : ReadCase s .lockWaiting s (.inside .lockReadTryWait)
  | lockReadTryWait {n : ℕ} : s.readTry.value = n+1 →
      ReadCase s .lockReadTryWait { s with readTry := ⟨n⟩ } (.inside .lockRsemWait)
  | lockRsemWait {n : ℕ} : s.rsem.value = n+1 →
      ReadCase s .lockRsemWait { s with rsem := ⟨n⟩ } (.inside .lockMutex1Wait)
  | lockMutex1Wait {n : ℕ} : s.mutex1.value = n+1 →
      ReadCase s .lockMutex1Wait { s with mutex1 := ⟨n⟩ } (.inside .lockCount)
  | lockFirst : s.readCount+1 = 1 →
      ReadCase s .lockCount { s with readCount := s.readCount+1 } (.inside .lockWrtWait)
  | lockCount : s.readCount+1 ≠ 1 →
      ReadCase s .lockCount { s with readCount := s.readCount+1 } (.inside .lockMutex1Post)
  | lockWrtWait {n : ℕ} : s.wrt.value = n+1 →
      ReadCase s .lockWrtWait { s with wrt := ⟨n⟩ } (.inside .lockMutex1Post)
  | lockMutex1Post :
      ReadCase s .lockMutex1Post { s with mutex1 := s.mutex1.post } (.inside .lockRsemPost)
  | lockRsemPost :
      ReadCase s .lockRsemPost { s with rsem := s.rsem.post } (.inside .lockReadTryPost)
  | lockReadTryPost :
      ReadCase s .lockReadTryPost { s with readTry := s.readTry.post } (.inside .lockActive)
  | lockActive : ReadCase s .lockActive s .holding
  | unlockMutex1Wait {n : ℕ} : s.mutex1.value = n+1 →
      ReadCase s .unlockMutex1Wait { s with mutex1 := ⟨n⟩ } (.inside .unlockCount)
  | unlockLast : s.readCount-1 = 0 →
      ReadCase s .unlockCount { s with readCount := s.readCount-1 } (.inside .unlockWrtPost)
  | unlockCount : s.readCount-1 ≠ 0 →
      ReadCase s .unlockCount { s with readCount := s.readCount-1 } (.inside .unlockMutex1Post)
  | unlockWrtPost :
      ReadCase s .unlockWrtPost { s with wrt := s.wrt.post } (.inside .unlockMutex1Post)
  | unlockMutex1Post :
      ReadCase s .unlockMutex1Post { s with mutex1 := s.mutex1.post } (.inside .unlockReleasing)
  | unlockReleasing : ReadCase s .unlockReleasing s .idle

/-- The same for a writer and `writeStep`. -/
inductive WriteCase (s : Shared) : WritePC → Shared → Pos WritePC → Prop where
  | lockWaiting : WriteCase s .lockWaiting s (.inside .lockMutex2Wait)
  | lockMutex2Wait {n : ℕ} : s.mutex2.value = n+1 →
      WriteCase s .lockMutex2Wait { s with mutex2 := ⟨n⟩ } (.inside .lockCount)
  | lockFirst : s.writeCount+1 = 1 →
      WriteCase s .lockCount { s with writeCount := s.writeCount+1 } (.inside .lockRsemWait)
  | lockCount : s.writeCount+1 ≠ 1 →
      WriteCase s .lockCount { s with writeCount := s.writeCount+1 } (.inside .lockMutex2Post)
  | lockRsemWait {n : ℕ} : s.rsem.value = n+1 →
      WriteCase s .lockRsemWait { s with rsem := ⟨n⟩ } (.inside .lockMutex2Post)
  | lockMutex2Post :
      WriteCase s .lockMutex2Post { s with mutex2 := s.mutex2.post } (.inside .lockWrtWait)
  | lockWrtWait {n : ℕ} : s.wrt.value = n+1 →
      WriteCase s .lockWrtWait { s with wrt := ⟨n⟩ } (.inside .lockSetActive)
  | lockSetActive :
      WriteCase s .lockSetActive { s with writerActive := true } (.inside .lockActive)
  | lockActive : WriteCase s .lockActive s .holding
  | unlockClearActive :
      WriteCase s .unlockClearActive { s with writerActive := false } (.inside .unlockWrtPost)
  | unlockWrtPost :
      WriteCase s .unlockWrtPost { s with wrt := s.wrt.post } (.inside .unlockMutex2Wait)
  | unlockMutex2Wait {n : ℕ} : s.mutex2.value = n+1 →
      WriteCase s .unlockMutex2Wait { s with mutex2 := ⟨n⟩ } (.inside .unlockCount)
  | unlockLast : s.writeCount-1 = 0 →
      WriteCase s .unlockCount { s with writeCount := s.writeCount-1 } (.inside .unlockRsemPost)
  | unlockCount : s.writeCount-1 ≠ 0 →
      WriteCase s .unlockCount { s with writeCount := s.writeCount-1 } (.inside .unlockMutex2Post)
  | unlockRsemPost :
      WriteCase s .unlockRsemPost { s with rsem := s.rsem.post } (.inside .unlockMutex2Post)
  | unlockMutex2Post :
      WriteCase s .unlockMutex2Post { s with mutex2 := s.mutex2.post } (.inside .unlockReleasing)
  | unlockReleasing : WriteCase s .unlockReleasing s .idle

theorem readStep_cases {s s' : Shared} {p : ReadPC} {q : Pos ReadPC}
    (h : readStep s p = some (s',q)) : ReadCase s p s' q := by
  cases p
  case lockReadTryWait | lockRsemWait | lockMutex1Wait | lockWrtWait | unlockMutex1Wait =>
    obtain ⟨n,hn,he⟩ := Semaphore.wait_map_eq_some.mp h
    cases he
    constructor
    exact hn
  case lockCount =>
    cases h
    split <;> rename_i hc
    · exact .lockFirst hc
    · exact .lockCount hc
  case unlockCount =>
    cases h
    split <;> rename_i hc
    · exact .unlockLast hc
    · exact .unlockCount hc
  all_goals
    cases h
    constructor

theorem writeStep_cases {s s' : Shared} {p : WritePC} {q : Pos WritePC}
    (h : writeStep s p = some (s',q)) : WriteCase s p s' q := by
  cases p
  case lockMutex2Wait | lockRsemWait | lockWrtWait | unlockMutex2Wait =>
    obtain ⟨n,hn,he⟩ := Semaphore.wait_map_eq_some.mp h
    cases he
    constructor
    exact hn
  case lockCount =>
    cases h
    split <;> rename_i hc
    · exact .lockFirst hc
    · exact .lockCount hc
  case unlockCount =>
    cases h
    split <;> rename_i hc
    · exact .unlockLast hc
    · exact .unlockCount hc
  all_goals
    cases h
    constructor

theorem readStep_locking {s s' : Shared} {p : ReadPC} {q : Pos ReadPC}
    (h : readStep s p = some (s',q)) : q.locking readLocking = readLocking p := by
  cases readStep_cases h <;> rfl

theorem writeStep_locking {s s' : Shared} {p : WritePC} {q : Pos WritePC}
    (h : writeStep s p = some (s',q)) : q.locking writeLocking = writeLocking p := by
  cases writeStep_cases h <;> rfl

def lock (ι : Type) : RWLockBase ι Shared ReadPC WritePC where
  init := {}
  readLock := .lockWaiting
  readUnlock := .unlockMutex1Wait
  writeLock := .lockWaiting
  writeUnlock := .unlockClearActive
  readStep _ _ := readStep
  writeStep _ _ := writeStep
  spuriousWake _ _ := none
  readPublish := readPublish
  writePublish := writePublish
  readerCount s := s.readCount
  writerActive s := s.writerActive
  readAdmitted p := p ∈ [.lockMutex1Post,.lockRsemPost,.lockReadTryPost,.lockActive,
    .unlockMutex1Wait,.unlockCount]
  writeAdmitted p := p ∈ [.lockSetActive,.lockActive,.unlockClearActive,.unlockWrtPost]
  readLocking := readLocking
  writeLocking := writeLocking
  readLock_locking := rfl
  readUnlock_locking := rfl
  writeLock_locking := rfl
  writeUnlock_locking := rfl
  readStep_locking := readStep_locking
  writeStep_locking := writeStep_locking

abbrev Thread := Client ReadPC WritePC

abbrev reading (p : ReadPC) : Thread := .reader (.inside p)
abbrev writing (p : WritePC) : Thread := .writer (.inside p)

/-- Readers between `readTry_.wait` and `readTry_.post`. -/
def inReadTry : List Thread := [reading .lockRsemWait,reading .lockMutex1Wait,reading .lockCount,
  reading .lockWrtWait,reading .lockMutex1Post,reading .lockRsemPost,reading .lockReadTryPost]

/-- Readers between their increment and their decrement of `readCount_`. -/
def counted : List Thread := [reading .lockWrtWait,reading .lockMutex1Post,reading .lockRsemPost,
  reading .lockReadTryPost,reading .lockActive,.reader .holding,reading .unlockMutex1Wait,
  reading .unlockCount]

/-- Writers between their increment and their decrement of `writeCount_`. -/
def countedWriters : List Thread := [writing .lockRsemWait,writing .lockMutex2Post,
  writing .lockWrtWait,writing .lockSetActive,writing .lockActive,.writer .holding,
  writing .unlockClearActive,writing .unlockWrtPost,writing .unlockMutex2Wait,
  writing .unlockCount]

/-- Writers between `wrt_.wait` and `wrt_.post`. -/
def inWrt : List Thread := [writing .lockSetActive,writing .lockActive,.writer .holding,
  writing .unlockClearActive,writing .unlockWrtPost]

/-- The readers are the members of a lightswitch on `wrt_`, the writers its opponents. -/
def readPhase : Thread → Lightswitch.Phase
  | .reader .holding => .inside
  | .reader (.inside p) => match p with
      | .lockCount => .entering
      | .lockWrtWait => .first
      | .lockMutex1Post => .admitted
      | .lockRsemPost | .lockReadTryPost | .lockActive | .unlockMutex1Wait => .inside
      | .unlockCount => .leaving
      | .unlockWrtPost => .last
      | .unlockMutex1Post => .left
      | _ => .outside
  | .writer .holding => .opponent
  | .writer (.inside p) => match p with
      | .lockSetActive | .lockActive | .unlockClearActive | .unlockWrtPost => .opponent
      | _ => .outside
  | _ => .outside

/-- The writers are the members of a second lightswitch, on `rsem_`; its opponents are
the readers that have passed `rsem_`. -/
def writePhase : Thread → Lightswitch.Phase
  | .writer .holding => .inside
  | .writer (.inside p) => match p with
      | .lockCount => .entering
      | .lockRsemWait => .first
      | .lockMutex2Post => .admitted
      | .lockWrtWait | .lockSetActive | .lockActive | .unlockClearActive | .unlockWrtPost
      | .unlockMutex2Wait => .inside
      | .unlockCount => .leaving
      | .unlockRsemPost => .last
      | .unlockMutex2Post => .left
      | _ => .outside
  | .reader (.inside p) => match p with
      | .lockMutex1Wait | .lockCount | .lockWrtWait | .lockMutex1Post | .lockRsemPost => .opponent
      | _ => .outside
  | _ => .outside

/-- The steps that the readers' lightswitch makes as well. -/
def readMove : Thread → Option Lightswitch.Move
  | .reader (.inside p) =>
      if p ∈ [.lockMutex1Wait,.lockCount,.lockWrtWait,.lockMutex1Post,.unlockMutex1Wait,
        .unlockCount,.unlockWrtPost,.unlockMutex1Post] then some .member else none
  | .writer (.inside p) => if p ∈ [.lockWrtWait,.unlockWrtPost] then some .opponent else none
  | _ => none

def writeMove : Thread → Option Lightswitch.Move
  | .writer (.inside p) =>
      if p ∈ [.lockMutex2Wait,.lockCount,.lockRsemWait,.lockMutex2Post,.unlockMutex2Wait,
        .unlockCount,.unlockRsemPost,.unlockMutex2Post] then some .member else none
  | .reader (.inside p) => if p ∈ [.lockRsemWait,.lockRsemPost] then some .opponent else none
  | _ => none

def readStore (s : Shared) : Lightswitch.Store := ⟨s.mutex1.value,s.readCount,s.wrt.value⟩

def writeStore (s : Shared) : Lightswitch.Store := ⟨s.mutex2.value,s.writeCount,s.rsem.value⟩

section
variable {ι : Type} {i w : ι} {s s' : Shared} {t t' : Thread} {k : Lightswitch.Move}

theorem readSwitch_silent (h : (lock ι).client.act i w s t = some (s',t'))
    (hm : readMove t = none) : readStore s' = readStore s ∧ readPhase t' = readPhase t := by
  match t with
  | .reader (.inside p) =>
    obtain ⟨q,hs,rfl⟩ := RWLockBase.client_reader h
    cases readStep_cases hs <;> first | exact ⟨rfl,rfl⟩ | cases hm
  | .writer (.inside p) =>
    obtain ⟨q,hs,rfl⟩ := RWLockBase.client_writer h
    cases writeStep_cases hs <;> first | exact ⟨rfl,rfl⟩ | cases hm
  | .reader .idle | .reader .holding | .writer .idle | .writer .holding =>
    cases h
    exact ⟨rfl,rfl⟩

theorem readSwitch_visible (h : (lock ι).client.act i w s t = some (s',t'))
    (hm : readMove t = some k) :
    Lightswitch.act k (readStore s) (readPhase t) = some (readStore s',readPhase t') := by
  match t with
  | .reader (.inside p) =>
    obtain ⟨q,hs,rfl⟩ := RWLockBase.client_reader h
    cases readStep_cases hs <;> cases hm
    case lockMutex1Wait hn | lockWrtWait hn | unlockMutex1Wait hn =>
      simp [Lightswitch.act,readStore,readPhase,hn]
    case lockFirst hc | lockCount hc | unlockLast hc | unlockCount hc =>
      simp only [readPhase,Lightswitch.act,readStore,hc,if_true,if_false]
    all_goals rfl
  | .writer (.inside p) =>
    obtain ⟨q,hs,rfl⟩ := RWLockBase.client_writer h
    cases writeStep_cases hs <;> cases hm
    case lockWrtWait hn => simp [Lightswitch.act,readStore,readPhase,hn]
    case unlockWrtPost => rfl

theorem writeSwitch_silent (h : (lock ι).client.act i w s t = some (s',t'))
    (hm : writeMove t = none) : writeStore s' = writeStore s ∧ writePhase t' = writePhase t := by
  match t with
  | .reader (.inside p) =>
    obtain ⟨q,hs,rfl⟩ := RWLockBase.client_reader h
    cases readStep_cases hs <;> first | exact ⟨rfl,rfl⟩ | cases hm
  | .writer (.inside p) =>
    obtain ⟨q,hs,rfl⟩ := RWLockBase.client_writer h
    cases writeStep_cases hs <;> first | exact ⟨rfl,rfl⟩ | cases hm
  | .reader .idle | .reader .holding | .writer .idle | .writer .holding =>
    cases h
    exact ⟨rfl,rfl⟩

theorem writeSwitch_visible (h : (lock ι).client.act i w s t = some (s',t'))
    (hm : writeMove t = some k) :
    Lightswitch.act k (writeStore s) (writePhase t) = some (writeStore s',writePhase t') := by
  match t with
  | .writer (.inside p) =>
    obtain ⟨q,hs,rfl⟩ := RWLockBase.client_writer h
    cases writeStep_cases hs <;> cases hm
    case lockMutex2Wait hn | lockRsemWait hn | unlockMutex2Wait hn =>
      simp [Lightswitch.act,writeStore,writePhase,hn]
    case lockFirst hc | lockCount hc | unlockLast hc | unlockCount hc =>
      simp only [writePhase,Lightswitch.act,writeStore,hc,if_true,if_false]
    all_goals rfl
  | .reader (.inside p) =>
    obtain ⟨q,hs,rfl⟩ := RWLockBase.client_reader h
    cases readStep_cases hs <;> cases hm
    case lockRsemWait hn => simp [Lightswitch.act,writeStore,writePhase,hn]
    case lockRsemPost => rfl

end

def readSwitch (ι : Type) [DecidableEq ι] : Simulation (lock ι).client (Lightswitch.machine ι) :=
  .ofThreads readStore readPhase (fun _ _ => readMove) (fun _ => none) readSwitch_silent
    readSwitch_visible (fun h => by cases h) (fun h => by cases h)

def writeSwitch (ι : Type) [DecidableEq ι] : Simulation (lock ι).client (Lightswitch.machine ι) :=
  .ofThreads writeStore writePhase (fun _ _ => writeMove) (fun _ => none) writeSwitch_silent
    writeSwitch_visible (fun h => by cases h) (fun h => by cases h)

theorem mem_counted (t : Thread) : t ∈ counted ↔ readPhase t ∈ Lightswitch.counted := by
  match t with
  | .reader (.inside p) => cases p <;> decide
  | .writer (.inside p) => cases p <;> decide
  | .reader .idle | .reader .holding | .writer .idle | .writer .holding => decide

theorem mem_countedWriters (t : Thread) :
    t ∈ countedWriters ↔ writePhase t ∈ Lightswitch.counted := by
  match t with
  | .reader (.inside p) => cases p <;> decide
  | .writer (.inside p) => cases p <;> decide
  | .reader .idle | .reader .holding | .writer .idle | .writer .holding => decide

theorem mem_inWrt (t : Thread) : t ∈ inWrt ↔ readPhase t = .opponent := by
  match t with
  | .reader (.inside p) => cases p <;> decide
  | .writer (.inside p) => cases p <;> decide
  | .reader .idle | .reader .holding | .writer .idle | .writer .holding => decide

theorem holdsWrite_opponent {ι : Type} {t : Thread} (h : (lock ι).HoldsWrite t) :
    readPhase t = .opponent := by
  match t with
  | .writer (.inside p) => cases p <;> first | rfl | cases h
  | .writer .holding => rfl

theorem holdsRead_counted {ι : Type} {t : Thread} (h : (lock ι).HoldsRead t) :
    readPhase t ∈ Lightswitch.counted ∧ readPhase t ≠ .first := by
  match t with
  | .reader (.inside p) => cases p <;> first | decide | cases h
  | .reader .holding => decide

/-- The waits are the only points where a thread can block. -/
theorem readStep_eq_none {s : Shared} {p : ReadPC} (h : readStep s p = none) :
    p = .lockReadTryWait ∧ s.readTry.value = 0 ∨ p = .lockRsemWait ∧ s.rsem.value = 0 ∨
      (p = .lockMutex1Wait ∨ p = .unlockMutex1Wait) ∧ s.mutex1.value = 0 ∨
      p = .lockWrtWait ∧ s.wrt.value = 0 := by
  cases p <;> simp [readStep,Semaphore.wait_eq_none] at h ⊢
  all_goals exact h

theorem writeStep_eq_none {s : Shared} {p : WritePC} (h : writeStep s p = none) :
    (p = .lockMutex2Wait ∨ p = .unlockMutex2Wait) ∧ s.mutex2.value = 0 ∨
      p = .lockRsemWait ∧ s.rsem.value = 0 ∨ p = .lockWrtWait ∧ s.wrt.value = 0 := by
  cases p <;> simp [writeStep,Semaphore.wait_eq_none] at h ⊢
  all_goals exact h

/-- `readTry_` is an ordinary mutex of the readers. -/
def ReadTry (s : Shared) (n : ℕ) : Prop := s.readTry.value+n = 1

theorem readTry_readStep {s s' : Shared} {p : ReadPC} {q : Pos ReadPC} {r : ℕ}
    (h : readStep s p = some (s',q)) (hI : ReadTry s (r+presence inReadTry (reading p))) :
    ReadTry s' (r+presence inReadTry (.reader q)) := by
  unfold ReadTry at *
  cases readStep_cases h
  all_goals
    simp [inReadTry,presence] at hI ⊢
    omega

theorem readTry_writeStep {s s' : Shared} {p : WritePC} {q : Pos WritePC} {r : ℕ}
    (h : writeStep s p = some (s',q)) (hI : ReadTry s (r+presence inReadTry (writing p))) :
    ReadTry s' (r+presence inReadTry (.writer q)) := by
  have hs : s'.readTry = s.readTry := by
    cases writeStep_cases h <;> rfl
  unfold ReadTry at *
  rw [hs]
  simpa [inReadTry,presence] using hI

theorem readTry_call {ι : Type} {s : Shared} {t t' : Thread} {r : ℕ}
    (h : (lock ι).Call t t') (hI : ReadTry s (r+presence inReadTry t)) :
    ReadTry s (r+presence inReadTry t') := by
  unfold ReadTry at *
  cases h <;> simpa [inReadTry,presence,lock] using hI

section
variable {ι : Type} [Fintype ι] {isWriter : ι → Bool} {c : Config ι Shared Thread}

/-- What the two lightswitches and `readTry_` guarantee in every state reached. -/
structure Inv (c : Config ι Shared Thread) : Prop where
  readers : Lightswitch.Inv (readStore c.shared) (census (readPhase ∘ c.locals))
  writers : Lightswitch.Inv (writeStore c.shared) (census (writePhase ∘ c.locals))
  readTry : ReadTry c.shared (headcount c.locals inReadTry)

theorem inv_run [DecidableEq ι] {h : List (Event ι ι ι Shared Thread)}
    (hr : Run (lock ι).client ((lock ι).fresh isWriter) h c) : Inv c where
  readers := by
    have hv : (readSwitch ι).view ((lock ι).fresh isWriter) = ⟨⟨1,0,1⟩,fun _ => .outside⟩ := by
      simp only [readSwitch,Simulation.ofThreads,RWLockBase.fresh,lock,readStore,Config.mk.injEq]
      refine ⟨trivial,funext fun i => ?_⟩
      simp only [Function.comp_apply]
      split <;> rfl
    have hs := (readSwitch ι).run hr
    rw [hv] at hs
    exact Lightswitch.inv_run hs
  writers := by
    have hv : (writeSwitch ι).view ((lock ι).fresh isWriter) = ⟨⟨1,0,1⟩,fun _ => .outside⟩ := by
      simp only [writeSwitch,Simulation.ofThreads,RWLockBase.fresh,lock,writeStore,Config.mk.injEq]
      refine ⟨trivial,funext fun i => ?_⟩
      simp only [Function.comp_apply]
      split <;> rfl
    have hs := (writeSwitch ι).run hr
    rw [hv] at hs
    exact Lightswitch.inv_run hs
  readTry := by
    rw [← total_presence]
    refine RWLockBase.run_invariant (I := ReadTry) ?_
      (fun _ _ _ _ _ _ _ => readTry_readStep) (fun _ _ _ _ _ _ _ => readTry_writeStep)
      (fun _ _ _ _ => readTry_call) (fun _ _ _ _ h => by cases h) hr
    rw [total_presence,RWLockBase.headcount_fresh isWriter (by decide) (by decide)]
    rfl

theorem exclusive (hI : Inv c) : (lock ι).Exclusive c := by
  intro i j hij hi
  have hi' := holdsWrite_opponent hi
  constructor
  · intro hj
    exact hij (Lightswitch.opponent_unique (c := ⟨readStore c.shared,readPhase ∘ c.locals⟩)
      hI.readers hi' (holdsWrite_opponent hj))
  · intro hj
    obtain ⟨hc,hf⟩ := holdsRead_counted hj
    exact hf (Lightswitch.opponent_excluded (c := ⟨readStore c.shared,readPhase ∘ c.locals⟩)
      hI.readers hi' hc)

/-- If nothing moves then by the readers' lightswitch `mutex1_` and `wrt_` are free. So
every thread inside the writers' lightswitch waits for `rsem_` or `mutex2_`, and these
two are free as well; then nobody holds `readTry_`. -/
theorem progress (hI : Inv c) : (lock ι).Progress c := by
  intro hs i hb
  obtain ⟨-,h₁,hw⟩ := Lightswitch.all_outside (c := ⟨readStore c.shared,readPhase ∘ c.locals⟩)
    hI.readers (by
      intro j
      rcases hs j with (⟨p,hp,hj⟩ | ⟨p,hp,hj⟩) | hj | hj
      · rcases readStep_eq_none (hj j) with ⟨rfl,-⟩ | ⟨rfl,-⟩ | ⟨rfl | rfl,h⟩ | ⟨rfl,h⟩
        · exact .inl (congrArg readPhase hp)
        · exact .inl (congrArg readPhase hp)
        · exact .inl (congrArg readPhase hp)
        · exact .inr (.inr ⟨congrArg readPhase hp,h⟩)
        · exact .inr (.inl ⟨congrArg readPhase hp,h⟩)
      · rcases writeStep_eq_none (hj j) with ⟨rfl | rfl,-⟩ | ⟨rfl,-⟩ | ⟨rfl,-⟩ <;>
          exact .inl (congrArg readPhase hp)
      · exact .inl (congrArg readPhase hj)
      · exact .inl (congrArg readPhase hj))
  simp only [readStore] at h₁ hw
  obtain ⟨-,h₂,hr⟩ := Lightswitch.all_outside (c := ⟨writeStore c.shared,writePhase ∘ c.locals⟩)
    hI.writers (by
      intro j
      rcases hs j with (⟨p,hp,hj⟩ | ⟨p,hp,hj⟩) | hj | hj
      · rcases readStep_eq_none (hj j) with ⟨rfl,-⟩ | ⟨rfl,-⟩ | ⟨-,h⟩ | ⟨-,h⟩
        · exact .inl (congrArg writePhase hp)
        · exact .inl (congrArg writePhase hp)
        all_goals omega
      · rcases writeStep_eq_none (hj j) with ⟨rfl | rfl,h⟩ | ⟨rfl,h⟩ | ⟨-,h⟩
        · exact .inl (congrArg writePhase hp)
        · exact .inr (.inr ⟨congrArg writePhase hp,h⟩)
        · exact .inr (.inl ⟨congrArg writePhase hp,h⟩)
        · omega
      · exact .inl (congrArg writePhase hj)
      · exact .inl (congrArg writePhase hj))
  simp only [writeStore] at h₂ hr
  have ht : headcount c.locals inReadTry = 0 := by
    refine Finset.card_eq_zero.mpr (Finset.filter_eq_empty_iff.mpr fun j _ hj => ?_)
    rcases hs j with (⟨p,hp,hb⟩ | ⟨p,hp,-⟩) | hp | hp
    · have h := readStep_eq_none (hb j)
      have hp' : p = .lockReadTryWait := by
        rcases h with ⟨h,-⟩ | h
        · exact h
        · omega
      rw [hp,hp'] at hj
      revert hj
      decide
    all_goals
      rw [hp] at hj
      simp [inReadTry] at hj
  have htry := hI.readTry
  unfold ReadTry at htry
  rcases hb with ⟨p,-,hb⟩ | ⟨p,-,hb⟩
  · have h := readStep_eq_none (hb i)
    omega
  · have h := writeStep_eq_none (hb i)
    omega

/-- Mutual exclusion with exact bookkeeping, for any number of clients. -/
theorem writerPriority_exclusion [DecidableEq ι] {h : List (Event ι ι ι Shared Thread)}
    (hr : Run (lock ι).client ((lock ι).fresh isWriter) h c) :
    (∀ i j, c.locals i ∈ inWrt → c.locals j ∈ inWrt → i=j) ∧ (lock ι).Exclusive c ∧
    c.shared.readCount = headcount c.locals counted ∧
    c.shared.writeCount = headcount c.locals countedWriters ∧
    c.shared.mutex1.value ≤ 1 ∧ c.shared.mutex2.value ≤ 1 ∧ c.shared.rsem.value ≤ 1 ∧
    c.shared.wrt.value ≤ 1 ∧ c.shared.readTry.value ≤ 1 := by
  have hI := inv_run hr
  have hR := hI.readers
  have hW := hI.writers
  have hT := hI.readTry
  unfold ReadTry at hT
  refine ⟨fun i j hi hj => ?_,exclusive hI,?_,?_,?_,?_,?_,?_,by omega⟩
  · rw [mem_inWrt] at hi hj
    exact Lightswitch.opponent_unique (c := ⟨readStore c.shared,readPhase ∘ c.locals⟩) hR hi hj
  · rw [headcount_comp mem_counted]
    exact Lightswitch.count_eq (c := ⟨readStore c.shared,readPhase ∘ c.locals⟩) hR
  · rw [headcount_comp mem_countedWriters]
    exact Lightswitch.count_eq (c := ⟨writeStore c.shared,writePhase ∘ c.locals⟩) hW
  · exact Lightswitch.mutex_le (c := ⟨readStore c.shared,readPhase ∘ c.locals⟩) hR
  · exact Lightswitch.mutex_le (c := ⟨writeStore c.shared,writePhase ∘ c.locals⟩) hW
  · exact Lightswitch.gate_le (c := ⟨writeStore c.shared,writePhase ∘ c.locals⟩) hW
  · exact Lightswitch.gate_le (c := ⟨readStore c.shared,readPhase ∘ c.locals⟩) hR

end

/-- A writer in its critical section and a reader asleep on `rsem_`. -/
theorem writerPriority_exclusion_witness : ∃ h c,
    Run (lock (Fin 2)).client ((lock (Fin 2)).fresh (· = 1)) h c ∧ c.locals 0 = reading .lockRsemWait ∧
    c.locals 1 = .writer .holding ∧ (lock (Fin 2)).Exclusive c ∧
    c.shared.writeCount = headcount c.locals countedWriters := by
  obtain ⟨h,hr,-⟩ := Run.of_exec (m := (lock (Fin 2)).client) (c := (lock (Fin 2)).fresh (· = 1))
    [.thread 1 1,.thread 1 1,.thread 1 1,.thread 1 1,.thread 1 1,.thread 1 1,.thread 1 1,
      .thread 1 1,.thread 1 1,.thread 0 0,.thread 0 0,.thread 0 0] rfl
  obtain ⟨-,he,-,hc,-⟩ := writerPriority_exclusion hr
  exact ⟨h,_,hr,rfl,rfl,he,hc⟩

end ReadersWriters.WriterPriorityLock
