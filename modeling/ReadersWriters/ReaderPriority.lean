import ReadersWriters.Interleaving.Lightswitch
import ReadersWriters.LockBase
import ReadersWriters.Primitives
set_option autoImplicit false

namespace ReadersWriters.ReaderPriorityLock
open Interleaving

structure Shared where
  readCount : Int := 0
  writerActive : Bool := false
  mutex : Semaphore := ⟨1⟩
  wrt : Semaphore := ⟨1⟩
  deriving DecidableEq, Repr

/-- The program points of `readLock` and `readUnlock`. -/
inductive ReadPC where
  | lockWaiting | lockMutexWait | lockCount | lockWrtWait | lockMutexPost | lockActive
  | unlockMutexWait | unlockCount | unlockWrtPost | unlockMutexPost | unlockReleasing
  deriving DecidableEq, Repr

/-- The program points of `writeLock` and `writeUnlock`. -/
inductive WritePC where
  | lockWaiting | lockWrtWait | lockSetActive | lockActive
  | unlockClearActive | unlockWrtPost | unlockReleasing
  deriving DecidableEq, Repr

def readStep (s : Shared) : ReadPC → Option (Shared × Pos ReadPC)
  | .lockWaiting => some (s,.inside .lockMutexWait)
  | .lockMutexWait => s.mutex.wait.map fun m => ({ s with mutex := m },.inside .lockCount)
  | .lockCount =>
      let rc := s.readCount+1
      some ({ s with readCount := rc },.inside (if rc = 1 then .lockWrtWait else .lockMutexPost))
  | .lockWrtWait => s.wrt.wait.map fun m => ({ s with wrt := m },.inside .lockMutexPost)
  | .lockMutexPost => some ({ s with mutex := s.mutex.post },.inside .lockActive)
  | .lockActive => some (s,.holding)
  | .unlockMutexWait => s.mutex.wait.map fun m => ({ s with mutex := m },.inside .unlockCount)
  | .unlockCount =>
      let rc := s.readCount-1
      some ({ s with readCount := rc },
        .inside (if rc = 0 then .unlockWrtPost else .unlockMutexPost))
  | .unlockWrtPost => some ({ s with wrt := s.wrt.post },.inside .unlockMutexPost)
  | .unlockMutexPost => some ({ s with mutex := s.mutex.post },.inside .unlockReleasing)
  | .unlockReleasing => some (s,.idle)

def writeStep (s : Shared) : WritePC → Option (Shared × Pos WritePC)
  | .lockWaiting => some (s,.inside .lockWrtWait)
  | .lockWrtWait => s.wrt.wait.map fun m => ({ s with wrt := m },.inside .lockSetActive)
  | .lockSetActive => some ({ s with writerActive := true },.inside .lockActive)
  | .lockActive => some (s,.holding)
  | .unlockClearActive => some ({ s with writerActive := false },.inside .unlockWrtPost)
  | .unlockWrtPost => some ({ s with wrt := s.wrt.post },.inside .unlockReleasing)
  | .unlockReleasing => some (s,.idle)

def readPublish : ReadPC → Option ThreadState
  | .lockWaiting => some .WAITING
  | .lockActive => some .ACTIVE
  | .unlockReleasing => some .RELEASING
  | _ => none

def writePublish : WritePC → Option ThreadState
  | .lockWaiting => some .WAITING
  | .lockActive => some .ACTIVE
  | .unlockReleasing => some .RELEASING
  | _ => none

def readLocking (p : ReadPC) : Bool := p ∈ [.lockWaiting,.lockMutexWait,.lockCount,.lockWrtWait,
  .lockMutexPost,.lockActive]

def writeLocking (p : WritePC) : Bool := p ∈ [.lockWaiting,.lockWrtWait,.lockSetActive,.lockActive]

/-- What a step of a reader can do, one case for each branch of `readStep`. -/
inductive ReadCase (s : Shared) : ReadPC → Shared → Pos ReadPC → Prop where
  | lockWaiting : ReadCase s .lockWaiting s (.inside .lockMutexWait)
  | lockMutexWait {n : ℕ} : s.mutex.value = n+1 →
      ReadCase s .lockMutexWait { s with mutex := ⟨n⟩ } (.inside .lockCount)
  | lockFirst : s.readCount+1 = 1 →
      ReadCase s .lockCount { s with readCount := s.readCount+1 } (.inside .lockWrtWait)
  | lockCount : s.readCount+1 ≠ 1 →
      ReadCase s .lockCount { s with readCount := s.readCount+1 } (.inside .lockMutexPost)
  | lockWrtWait {n : ℕ} : s.wrt.value = n+1 →
      ReadCase s .lockWrtWait { s with wrt := ⟨n⟩ } (.inside .lockMutexPost)
  | lockMutexPost :
      ReadCase s .lockMutexPost { s with mutex := s.mutex.post } (.inside .lockActive)
  | lockActive : ReadCase s .lockActive s .holding
  | unlockMutexWait {n : ℕ} : s.mutex.value = n+1 →
      ReadCase s .unlockMutexWait { s with mutex := ⟨n⟩ } (.inside .unlockCount)
  | unlockLast : s.readCount-1 = 0 →
      ReadCase s .unlockCount { s with readCount := s.readCount-1 } (.inside .unlockWrtPost)
  | unlockCount : s.readCount-1 ≠ 0 →
      ReadCase s .unlockCount { s with readCount := s.readCount-1 } (.inside .unlockMutexPost)
  | unlockWrtPost :
      ReadCase s .unlockWrtPost { s with wrt := s.wrt.post } (.inside .unlockMutexPost)
  | unlockMutexPost :
      ReadCase s .unlockMutexPost { s with mutex := s.mutex.post } (.inside .unlockReleasing)
  | unlockReleasing : ReadCase s .unlockReleasing s .idle

/-- The same for a writer and `writeStep`. -/
inductive WriteCase (s : Shared) : WritePC → Shared → Pos WritePC → Prop where
  | lockWaiting : WriteCase s .lockWaiting s (.inside .lockWrtWait)
  | lockWrtWait {n : ℕ} : s.wrt.value = n+1 →
      WriteCase s .lockWrtWait { s with wrt := ⟨n⟩ } (.inside .lockSetActive)
  | lockSetActive :
      WriteCase s .lockSetActive { s with writerActive := true } (.inside .lockActive)
  | lockActive : WriteCase s .lockActive s .holding
  | unlockClearActive :
      WriteCase s .unlockClearActive { s with writerActive := false } (.inside .unlockWrtPost)
  | unlockWrtPost :
      WriteCase s .unlockWrtPost { s with wrt := s.wrt.post } (.inside .unlockReleasing)
  | unlockReleasing : WriteCase s .unlockReleasing s .idle

theorem readStep_cases {s s' : Shared} {p : ReadPC} {q : Pos ReadPC}
    (h : readStep s p = some (s',q)) : ReadCase s p s' q := by
  cases p
  case lockMutexWait | lockWrtWait | unlockMutexWait =>
    obtain ⟨n,hn,he⟩ := Semaphore.wait_map_eq_some.mp h
    cases he
    constructor
    exact hn
  case lockCount =>
    cases h
    split <;> rename_i hc
    · exact .lockFirst hc
    · exact .lockCount hc
  case unlockCount =>
    cases h
    split <;> rename_i hc
    · exact .unlockLast hc
    · exact .unlockCount hc
  all_goals
    cases h
    constructor

theorem writeStep_cases {s s' : Shared} {p : WritePC} {q : Pos WritePC}
    (h : writeStep s p = some (s',q)) : WriteCase s p s' q := by
  cases p
  case lockWrtWait =>
    obtain ⟨n,hn,he⟩ := Semaphore.wait_map_eq_some.mp h
    cases he
    exact .lockWrtWait hn
  all_goals
    cases h
    constructor

theorem readStep_locking {s s' : Shared} {p : ReadPC} {q : Pos ReadPC}
    (h : readStep s p = some (s',q)) : q.locking readLocking = readLocking p := by
  cases readStep_cases h <;> rfl

theorem writeStep_locking {s s' : Shared} {p : WritePC} {q : Pos WritePC}
    (h : writeStep s p = some (s',q)) : q.locking writeLocking = writeLocking p := by
  cases writeStep_cases h <;> rfl

def lock (ι : Type) : RWLockBase ι Shared ReadPC WritePC where
  init := {}
  readLock := .lockWaiting
  readUnlock := .unlockMutexWait
  writeLock := .lockWaiting
  writeUnlock := .unlockClearActive
  readStep _ _ := readStep
  writeStep _ _ := writeStep
  spuriousWake _ _ := none
  readPublish := readPublish
  writePublish := writePublish
  readerCount s := s.readCount
  writerActive s := s.writerActive
  readAdmitted p := p ∈ [.lockMutexPost,.lockActive,.unlockMutexWait,.unlockCount]
  writeAdmitted p := p ∈ [.lockSetActive,.lockActive,.unlockClearActive,.unlockWrtPost]
  readLocking := readLocking
  writeLocking := writeLocking
  readLock_locking := rfl
  readUnlock_locking := rfl
  writeLock_locking := rfl
  writeUnlock_locking := rfl
  readStep_locking := readStep_locking
  writeStep_locking := writeStep_locking

abbrev Thread := Client ReadPC WritePC

abbrev reading (p : ReadPC) : Thread := .reader (.inside p)
abbrev writing (p : WritePC) : Thread := .writer (.inside p)

/-- Readers between their increment and their decrement of `readCount_`. -/
def counted : List Thread := [reading .lockWrtWait,reading .lockMutexPost,reading .lockActive,
  .reader .holding,reading .unlockMutexWait,reading .unlockCount]

/-- Writers between `wrt_.wait` and `wrt_.post`. -/
def inWrt : List Thread := [writing .lockSetActive,writing .lockActive,.writer .holding,
  writing .unlockClearActive,writing .unlockWrtPost]

/-- The readers are the members of a lightswitch on `wrt_`, the writers its opponents. -/
def phase : Thread → Lightswitch.Phase
  | .reader .holding => .inside
  | .reader (.inside p) => match p with
      | .lockCount => .entering
      | .lockWrtWait => .first
      | .lockMutexPost => .admitted
      | .lockActive | .unlockMutexWait => .inside
      | .unlockCount => .leaving
      | .unlockWrtPost => .last
      | .unlockMutexPost => .left
      | _ => .outside
  | .writer .holding => .opponent
  | .writer (.inside p) => match p with
      | .lockSetActive | .lockActive | .unlockClearActive | .unlockWrtPost => .opponent
      | _ => .outside
  | _ => .outside

/-- The steps that the lightswitch makes as well. -/
def move : Thread → Option Lightswitch.Move
  | .reader (.inside p) =>
      if p ∈ [.lockWaiting,.lockActive,.unlockReleasing] then none else some .member
  | .writer (.inside p) => if p ∈ [.lockWrtWait,.unlockWrtPost] then some .opponent else none
  | _ => none

def store (s : Shared) : Lightswitch.Store := ⟨s.mutex.value,s.readCount,s.wrt.value⟩

section
variable {ι : Type} {i w : ι} {s s' : Shared} {t t' : Thread} {k : Lightswitch.Move}

theorem lightswitch_silent (h : (lock ι).client.act i w s t = some (s',t')) (hm : move t = none) :
    store s' = store s ∧ phase t' = phase t := by
  match t with
  | .reader (.inside p) =>
    obtain ⟨q,hs,rfl⟩ := RWLockBase.client_reader h
    cases readStep_cases hs <;> first | exact ⟨rfl,rfl⟩ | cases hm
  | .writer (.inside p) =>
    obtain ⟨q,hs,rfl⟩ := RWLockBase.client_writer h
    cases writeStep_cases hs <;> first | exact ⟨rfl,rfl⟩ | cases hm
  | .reader .idle | .reader .holding | .writer .idle | .writer .holding =>
    cases h
    exact ⟨rfl,rfl⟩

theorem lightswitch_visible (h : (lock ι).client.act i w s t = some (s',t'))
    (hm : move t = some k) :
    Lightswitch.act k (store s) (phase t) = some (store s',phase t') := by
  match t with
  | .reader (.inside p) =>
    obtain ⟨q,hs,rfl⟩ := RWLockBase.client_reader h
    cases readStep_cases hs <;> cases hm
    case lockMutexWait hn | lockWrtWait hn | unlockMutexWait hn =>
      simp [Lightswitch.act,store,phase,hn]
    case lockFirst hc | lockCount hc | unlockLast hc | unlockCount hc =>
      simp only [phase,Lightswitch.act,store,hc,if_true,if_false]
    all_goals rfl
  | .writer (.inside p) =>
    obtain ⟨q,hs,rfl⟩ := RWLockBase.client_writer h
    cases writeStep_cases hs <;> cases hm
    case lockWrtWait hn => simp [Lightswitch.act,store,phase,hn]
    case unlockWrtPost => rfl

end

/-- The lock is a lightswitch: forgetting the published states and `writerActive_`. -/
def lightswitch (ι : Type) [DecidableEq ι] : Simulation (lock ι).client (Lightswitch.machine ι) :=
  .ofThreads store phase (fun _ _ => move) (fun _ => none) lightswitch_silent
    lightswitch_visible (fun h => by cases h) (fun h => by cases h)

theorem mem_counted (t : Thread) : t ∈ counted ↔ phase t ∈ Lightswitch.counted := by
  match t with
  | .reader (.inside p) => cases p <;> decide
  | .writer (.inside p) => cases p <;> decide
  | .reader .idle | .reader .holding | .writer .idle | .writer .holding => decide

theorem mem_inWrt (t : Thread) : t ∈ inWrt ↔ phase t = .opponent := by
  match t with
  | .reader (.inside p) => cases p <;> decide
  | .writer (.inside p) => cases p <;> decide
  | .reader .idle | .reader .holding | .writer .idle | .writer .holding => decide

theorem holdsWrite_opponent {ι : Type} {t : Thread} (h : (lock ι).HoldsWrite t) :
    phase t = .opponent := by
  match t with
  | .writer (.inside p) => cases p <;> first | rfl | cases h
  | .writer .holding => rfl

theorem holdsRead_counted {ι : Type} {t : Thread} (h : (lock ι).HoldsRead t) :
    phase t ∈ Lightswitch.counted ∧ phase t ≠ .first := by
  match t with
  | .reader (.inside p) => cases p <;> first | decide | cases h
  | .reader .holding => decide

/-- The three waits are the only points where a reader can block. -/
theorem readStep_eq_none {s : Shared} {p : ReadPC} (h : readStep s p = none) :
    (p = .lockMutexWait ∨ p = .unlockMutexWait) ∧ s.mutex.value = 0 ∨
      p = .lockWrtWait ∧ s.wrt.value = 0 := by
  cases p <;> simp [readStep,Semaphore.wait_eq_none] at h ⊢
  all_goals exact h

theorem writeStep_eq_none {s : Shared} {p : WritePC} (h : writeStep s p = none) :
    p = .lockWrtWait ∧ s.wrt.value = 0 := by
  cases p <;> simp [writeStep,Semaphore.wait_eq_none] at h ⊢
  exact h

section
variable {ι : Type} [Fintype ι] {isWriter : ι → Bool} {c : Config ι Shared Thread}

/-- What the lightswitch guarantees in every state reached. -/
abbrev Inv (c : Config ι Shared Thread) : Prop :=
  Lightswitch.Inv (store c.shared) (census (phase ∘ c.locals))

theorem inv_run [DecidableEq ι] {h : List (Event ι ι ι Shared Thread)}
    (hr : Run (lock ι).client ((lock ι).fresh isWriter) h c) : Inv c := by
  have hv : (lightswitch ι).view ((lock ι).fresh isWriter) =
      ⟨⟨1,0,1⟩,fun _ => .outside⟩ := by
    simp only [lightswitch,Simulation.ofThreads,RWLockBase.fresh,lock,store,Config.mk.injEq]
    refine ⟨trivial,funext fun i => ?_⟩
    simp only [Function.comp_apply]
    split <;> rfl
  have hs := (lightswitch ι).run hr
  rw [hv] at hs
  exact Lightswitch.inv_run hs

theorem exclusive (hI : Inv c) : (lock ι).Exclusive c := by
  intro i j hij hi
  have hi' := holdsWrite_opponent hi
  constructor
  · intro hj
    exact hij (Lightswitch.opponent_unique (c := ⟨store c.shared,phase ∘ c.locals⟩) hI hi'
      (holdsWrite_opponent hj))
  · intro hj
    obtain ⟨hc,hf⟩ := holdsRead_counted hj
    exact hf (Lightswitch.opponent_excluded (c := ⟨store c.shared,phase ∘ c.locals⟩) hI hi' hc)

/-- If nothing moves, the threads inside wait for `mutex_` or `wrt_`; by the lightswitch
both semaphores are then free. -/
theorem progress (hI : Inv c) : (lock ι).Progress c := by
  intro hs i hb
  obtain ⟨-,hm,hg⟩ := Lightswitch.all_outside (c := ⟨store c.shared,phase ∘ c.locals⟩) hI (by
    intro j
    rcases hs j with (⟨p,hp,hj⟩ | ⟨p,hp,hj⟩) | hj | hj
    · rcases readStep_eq_none (hj j) with ⟨rfl | rfl,h⟩ | ⟨rfl,h⟩
      · exact .inl (congrArg phase hp)
      · exact .inr (.inr ⟨congrArg phase hp,h⟩)
      · exact .inr (.inl ⟨congrArg phase hp,h⟩)
    · obtain ⟨rfl,-⟩ := writeStep_eq_none (hj j)
      exact .inl (congrArg phase hp)
    · exact .inl (congrArg phase hj)
    · exact .inl (congrArg phase hj))
  simp only [store] at hm hg
  rcases hb with ⟨p,-,hb⟩ | ⟨p,-,hb⟩
  · have h := readStep_eq_none (hb i)
    omega
  · have h := writeStep_eq_none (hb i)
    omega

/-- A reader that waits at `wrt_` with `mutex_` in its hands waits for a writer: no reader
is left whose `readUnlock` would have to post `wrt_`. -/
theorem wrtWait_alone (hI : Inv c) {i : ι} (hi : c.locals i = reading .lockWrtWait) :
    (∀ j, ¬ (lock ι).HoldsRead (c.locals j) ∧ c.locals j ≠ reading .unlockWrtPost) ∧
      (c.shared.wrt.value = 0 → ∃ j, c.locals j ∈ inWrt) := by
  obtain ⟨ha,ho⟩ := Lightswitch.first_alone (c := ⟨store c.shared,phase ∘ c.locals⟩) hI
    (i := i) (congrArg phase hi)
  refine ⟨fun j => ⟨fun hj => ?_,fun hj => ha j ?_⟩,fun hw => ?_⟩
  · obtain ⟨hc,hf⟩ := holdsRead_counted hj
    refine ha j ?_
    simp only [Lightswitch.counted,List.mem_cons,List.not_mem_nil,or_false] at hc ⊢
    simp only [Function.comp_apply]
    tauto
  · simp only [Function.comp_apply,hj]
    decide
  · obtain ⟨j,hj⟩ := ho hw
    exact ⟨j,(mem_inWrt _).mpr hj⟩

/-- Mutual exclusion with exact bookkeeping, for any number of clients. -/
theorem readerPriority_exclusion [DecidableEq ι] {h : List (Event ι ι ι Shared Thread)}
    (hr : Run (lock ι).client ((lock ι).fresh isWriter) h c) :
    (∀ i j, c.locals i ∈ inWrt → c.locals j ∈ inWrt → i=j) ∧ (lock ι).Exclusive c ∧
    c.shared.readCount = headcount c.locals counted ∧ 0 ≤ c.shared.readCount ∧
    c.shared.readCount ≤ Fintype.card ι ∧ c.shared.mutex.value ≤ 1 ∧ c.shared.wrt.value ≤ 1 := by
  have hI := inv_run hr
  have hc : c.shared.readCount = headcount c.locals counted := by
    rw [headcount_comp mem_counted]
    exact Lightswitch.count_eq (c := ⟨store c.shared,phase ∘ c.locals⟩) hI
  have hn := headcount_le c.locals counted
  refine ⟨fun i j hi hj => ?_,exclusive hI,hc,by omega,by omega,?_,?_⟩
  · rw [mem_inWrt] at hi hj
    exact Lightswitch.opponent_unique (c := ⟨store c.shared,phase ∘ c.locals⟩) hI hi hj
  · exact Lightswitch.mutex_le (c := ⟨store c.shared,phase ∘ c.locals⟩) hI
  · exact Lightswitch.gate_le (c := ⟨store c.shared,phase ∘ c.locals⟩) hI

end

/-- A reader in its critical section and a writer asleep on `wrt_`. -/
theorem readerPriority_exclusion_witness : ∃ h c,
    Run (lock (Fin 2)).client ((lock (Fin 2)).fresh (· = 1)) h c ∧ c.locals 0 = .reader .holding ∧
    c.locals 1 = writing .lockWrtWait ∧ (lock (Fin 2)).Exclusive c ∧
    c.shared.readCount = headcount c.locals counted := by
  obtain ⟨h,hr,-⟩ := Run.of_exec (m := (lock (Fin 2)).client) (c := (lock (Fin 2)).fresh (· = 1))
    [.thread 0 0,.thread 0 0,.thread 0 0,.thread 0 0,.thread 0 0,.thread 0 0,.thread 0 0,
      .thread 1 1,.thread 1 1] rfl
  obtain ⟨-,he,hc,-⟩ := readerPriority_exclusion hr
  exact ⟨h,_,hr,rfl,rfl,he,hc⟩

end ReadersWriters.ReaderPriorityLock
