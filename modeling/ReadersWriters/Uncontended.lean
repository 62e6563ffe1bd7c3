import ReadersWriters.Interleaving.Access
import ReadersWriters.Interleaving.Trace
import ReadersWriters.AlgoType
set_option autoImplicit false

namespace ReadersWriters
open Interleaving

/-- What a lock does while nobody else is inside it: each call runs to its end without
waiting, from one of the states `rest` to another. A step of `readLock` or `writeLock` never
takes an admission back, one of `readUnlock` or `writeUnlock` never a release. -/
structure RWLockBase.Uncontended {ι S R W : Type} (L : RWLockBase ι S R W) where
  rest : Access.Occupancy → S
  rest_init : rest (.readers 0) = L.init
  readLock : ∀ i n, Returns L.readStep .inside i .holding (rest (.readers n)) L.readLock
    (rest (.readers (n+1)))
  readUnlock : ∀ i n, Returns L.readStep .inside i .idle (rest (.readers (n+1))) L.readUnlock
    (rest (.readers n))
  writeLock : ∀ i, Returns L.writeStep .inside i .holding (rest (.readers 0)) L.writeLock
    (rest .writer)
  writeUnlock : ∀ i, Returns L.writeStep .inside i .idle (rest .writer) L.writeUnlock
    (rest (.readers 0))
  readAdmitted : ∀ {i w s p s' p'}, L.readStep i w s p = some (s',.inside p') →
    (L.readLocking p = true → L.readAdmitted p = true → L.readAdmitted p' = true) ∧
    (L.readLocking p = false → L.readAdmitted p = false → L.readAdmitted p' = false)
  writeAdmitted : ∀ {i w s p s' p'}, L.writeStep i w s p = some (s',.inside p') →
    (L.writeLocking p = true → L.writeAdmitted p = true → L.writeAdmitted p' = true) ∧
    (L.writeLocking p = false → L.writeAdmitted p = false → L.writeAdmitted p' = false)
  readLock_admitted : L.readAdmitted L.readLock = false
  readUnlock_admitted : L.readAdmitted L.readUnlock = true
  writeLock_admitted : L.writeAdmitted L.writeLock = false
  writeUnlock_admitted : L.writeAdmitted L.writeUnlock = true

namespace ReaderPriorityLock

def rest : Access.Occupancy → Shared
  | .readers n => { readCount := n, wrt := ⟨if n = 0 then 1 else 0⟩ }
  | .writer => { writerActive := true, wrt := ⟨0⟩ }

variable {ι : Type}

theorem readLock_returns (i : ι) (n : ℕ) : Returns (lock ι).readStep .inside i .holding
    (rest (.readers n)) .lockWaiting (rest (.readers (n+1))) := by
  refine .more (k := i) rfl (.more (k := i) rfl ?_)
  have hp : ∀ m, Returns (lock ι).readStep .inside i .holding
      { rest (.readers m) with mutex := ⟨0⟩ } .lockMutexPost (rest (.readers m)) := fun m =>
    .more (k := i) rfl (.last (k := i) rfl)
  cases n with
  | zero => exact .more (k := i) rfl (.more (k := i) rfl (hp 1))
  | succ n =>
    refine .more (k := i) ?_ (hp (n+2))
    simp [lock,readStep,rest,add_assoc]
    omega

theorem readUnlock_returns (i : ι) (n : ℕ) : Returns (lock ι).readStep .inside i .idle
    (rest (.readers (n+1))) .unlockMutexWait (rest (.readers n)) := by
  refine .more (k := i) rfl ?_
  have hp : ∀ m, Returns (lock ι).readStep .inside i .idle
      { rest (.readers m) with mutex := ⟨0⟩ } .unlockMutexPost (rest (.readers m)) := fun m =>
    .more (k := i) rfl (.last (k := i) rfl)
  cases n with
  | zero => exact .more (k := i) rfl (.more (k := i) rfl (hp 0))
  | succ n =>
    refine .more (k := i) ?_ (hp (n+1))
    simp [lock,readStep,rest]
    omega

def uncontended (ι : Type) : (lock ι).Uncontended where
  rest := rest
  rest_init := rfl
  readLock := readLock_returns
  readUnlock := readUnlock_returns
  writeLock i := .more (k := i) rfl (.more (k := i) rfl (.more (k := i) rfl (.last (k := i) rfl)))
  writeUnlock i := .more (k := i) rfl (.more (k := i) rfl (.last (k := i) rfl))
  readAdmitted h := by cases readStep_cases h <;> simp [lock,readLocking]
  writeAdmitted h := by cases writeStep_cases h <;> simp [lock,writeLocking]
  readLock_admitted := rfl
  readUnlock_admitted := rfl
  writeLock_admitted := rfl
  writeUnlock_admitted := rfl

end ReaderPriorityLock

namespace WriterPriorityLock

def rest : Access.Occupancy → Shared
  | .readers n => { readCount := n, wrt := ⟨if n = 0 then 1 else 0⟩ }
  | .writer => { writeCount := 1, writerActive := true, rsem := ⟨0⟩, wrt := ⟨0⟩ }

variable {ι : Type}

theorem readLock_returns (i : ι) (n : ℕ) : Returns (lock ι).readStep .inside i .holding
    (rest (.readers n)) .lockWaiting (rest (.readers (n+1))) := by
  refine .more (k := i) rfl (.more (k := i) rfl (.more (k := i) rfl (.more (k := i) rfl ?_)))
  have hp : ∀ m, Returns (lock ι).readStep .inside i .holding
      { rest (.readers m) with mutex1 := ⟨0⟩, rsem := ⟨0⟩, readTry := ⟨0⟩ } .lockMutex1Post
      (rest (.readers m)) := fun m =>
    .more (k := i) rfl (.more (k := i) rfl (.more (k := i) rfl (.last (k := i) rfl)))
  cases n with
  | zero => exact .more (k := i) rfl (.more (k := i) rfl (hp 1))
  | succ n =>
    refine .more (k := i) ?_ (hp (n+2))
    simp [lock,readStep,rest,add_assoc]
    omega

theorem readUnlock_returns (i : ι) (n : ℕ) : Returns (lock ι).readStep .inside i .idle
    (rest (.readers (n+1))) .unlockMutex1Wait (rest (.readers n)) := by
  refine .more (k := i) rfl ?_
  have hp : ∀ m, Returns (lock ι).readStep .inside i .idle
      { rest (.readers m) with mutex1 := ⟨0⟩ } .unlockMutex1Post (rest (.readers m)) := fun m =>
    .more (k := i) rfl (.last (k := i) rfl)
  cases n with
  | zero => exact .more (k := i) rfl (.more (k := i) rfl (hp 0))
  | succ n =>
    refine .more (k := i) ?_ (hp (n+1))
    simp [lock,readStep,rest]
    omega

theorem writeLock_returns (i : ι) : Returns (lock ι).writeStep .inside i .holding
    (rest (.readers 0)) .lockWaiting (rest .writer) := by
  refine .more (k := i) rfl (.more (k := i) rfl (.more (k := i) rfl (.more (k := i) rfl ?_)))
  exact .more (k := i) rfl (.more (k := i) rfl (.more (k := i) rfl (.last (k := i) rfl)))

theorem writeUnlock_returns (i : ι) : Returns (lock ι).writeStep .inside i .idle
    (rest .writer) .unlockClearActive (rest (.readers 0)) := by
  refine .more (k := i) rfl (.more (k := i) rfl (.more (k := i) rfl (.more (k := i) rfl ?_)))
  exact .more (k := i) rfl (.more (k := i) rfl (.last (k := i) rfl))

def uncontended (ι : Type) : (lock ι).Uncontended where
  rest := rest
  rest_init := rfl
  readLock := readLock_returns
  readUnlock := readUnlock_returns
  writeLock := writeLock_returns
  writeUnlock := writeUnlock_returns
  readAdmitted h := by cases readStep_cases h <;> simp [lock,readLocking]
  writeAdmitted h := by cases writeStep_cases h <;> simp [lock,writeLocking]
  readLock_admitted := rfl
  readUnlock_admitted := rfl
  writeLock_admitted := rfl
  writeUnlock_admitted := rfl

end WriterPriorityLock

namespace FairMorrisLock

variable {ι : Type} [DecidableEq ι]

def rest : Access.Occupancy → Shared ι
  | .readers n => { activeReaders := n }
  | .writer => { activeWriter := true }

theorem readLock_returns (i : ι) (n : ℕ) : Returns (lock ι).readStep .inside i .holding
    (rest (.readers n)) .lockWaiting (rest (.readers (n+1))) := by
  refine .more (k := i) rfl (.more (k := i) rfl (.more (k := i) rfl (.more (k := i) rfl ?_)))
  exact .more (k := i) rfl (.last (k := i) rfl)

theorem readUnlock_returns (i : ι) (n : ℕ) : Returns (lock ι).readStep .inside i .idle
    (rest (.readers (n+1))) .unlockMutexLock (rest (.readers n)) := by
  refine .more (k := i) rfl ?_
  have hp : ∀ m, Returns (lock ι).readStep .inside i .idle
      { rest (.readers m) with mtx := ⟨true⟩ } .unlockMutexUnlock (rest (.readers m)) := fun m =>
    .more (k := i) rfl (.last (k := i) rfl)
  cases n with
  | zero => exact .more (k := i) rfl (.more (k := i) rfl (hp 0))
  | succ n =>
    refine .more (k := i) ?_ (hp (n+1))
    simp [lock,readStep,rest]
    omega

theorem writeLock_returns (i : ι) : Returns (lock ι).writeStep .inside i .holding
    (rest (.readers 0)) .lockWaiting (rest .writer) := by
  refine .more (k := i) rfl (.more (k := i) rfl (.more (k := i) rfl (.more (k := i) rfl ?_)))
  exact .more (k := i) rfl (.last (k := i) rfl)

theorem writeUnlock_returns (i : ι) : Returns (lock ι).writeStep .inside i .idle
    (rest .writer) .unlockMutexLock (rest (.readers 0)) := by
  refine .more (k := i) rfl (.more (k := i) rfl (.more (k := i) rfl ?_))
  exact .more (k := i) rfl (.last (k := i) rfl)

def uncontended (ι : Type) [DecidableEq ι] : (lock ι).Uncontended where
  rest := rest
  rest_init := rfl
  readLock := readLock_returns
  readUnlock := readUnlock_returns
  writeLock := writeLock_returns
  writeUnlock := writeUnlock_returns
  readAdmitted h := by cases readStep_cases h <;> simp [lock,readLocking]
  writeAdmitted h := by cases writeStep_cases h <;> simp [lock,writeLocking]
  readLock_admitted := rfl
  readUnlock_admitted := rfl
  writeLock_admitted := rfl
  writeUnlock_admitted := rfl

end FairMorrisLock

def AlgoType.uncontended (ι : Type) [DecidableEq ι] :
    (algo : AlgoType) → (algo.lock ι).Uncontended
  | READER_PRIORITY => ReaderPriorityLock.uncontended ι
  | WRITER_PRIORITY => WriterPriorityLock.uncontended ι
  | FAIR_MORRIS => FairMorrisLock.uncontended ι

end ReadersWriters
