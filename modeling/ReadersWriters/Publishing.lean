import ReadersWriters.AlgoType
import ReadersWriters.DeadlockFreedom
set_option autoImplicit false

namespace ReadersWriters
open Interleaving

/-- The three stores of a state on the way through the lock call, whose first program point
is `first`, and the unlock call. -/
inductive Published {P : Type} (locking : P → Bool) (first p : P) :
    Pos P → Option ThreadState → Prop where
  | waiting {q : P} : p = first → locking q = true → q ≠ first →
      Published locking first p (.inside q) (some .WAITING)
  | active : locking p = true → p ≠ first → Published locking first p .holding (some .ACTIVE)
  | releasing : locking p = false → Published locking first p .idle (some .RELEASING)
  | quiet {q : P} : p ≠ first → q ≠ first → locking q = locking p →
      Published locking first p (.inside q) none

/-- A lock stores WAITING first of all, ACTIVE as the last thing in the lock call and
RELEASING as the last thing in the unlock call. -/
structure RWLockBase.Publishes {ι S R W : Type} (L : RWLockBase ι S R W) : Prop where
  read : ∀ {i w s p s' q}, L.readStep i w s p = some (s',q) →
    Published L.readLocking L.readLock p q (L.readPublish p)
  write : ∀ {i w s p s' q}, L.writeStep i w s p = some (s',q) →
    Published L.writeLocking L.writeLock p q (L.writePublish p)

namespace ReaderPriorityLock

theorem readStep_published {s s' : Shared} {p : ReadPC} {q : Pos ReadPC}
    (h : readStep s p = some (s',q)) :
    Published readLocking .lockWaiting p q (readPublish p) := by
  cases readStep_cases h
  case lockWaiting | lockActive | unlockReleasing => constructor <;> decide
  all_goals exact .quiet (by decide) (by decide) rfl

theorem writeStep_published {s s' : Shared} {p : WritePC} {q : Pos WritePC}
    (h : writeStep s p = some (s',q)) :
    Published writeLocking .lockWaiting p q (writePublish p) := by
  cases writeStep_cases h
  case lockWaiting | lockActive | unlockReleasing => constructor <;> decide
  all_goals exact .quiet (by decide) (by decide) rfl

theorem publishes (ι : Type) : (lock ι).Publishes := ⟨readStep_published,writeStep_published⟩

end ReaderPriorityLock

namespace WriterPriorityLock

theorem readStep_published {s s' : Shared} {p : ReadPC} {q : Pos ReadPC}
    (h : readStep s p = some (s',q)) :
    Published readLocking .lockWaiting p q (readPublish p) := by
  cases readStep_cases h
  case lockWaiting | lockActive | unlockReleasing => constructor <;> decide
  all_goals exact .quiet (by decide) (by decide) rfl

theorem writeStep_published {s s' : Shared} {p : WritePC} {q : Pos WritePC}
    (h : writeStep s p = some (s',q)) :
    Published writeLocking .lockWaiting p q (writePublish p) := by
  cases writeStep_cases h
  case lockWaiting | lockActive | unlockReleasing => constructor <;> decide
  all_goals exact .quiet (by decide) (by decide) rfl

theorem publishes (ι : Type) : (lock ι).Publishes := ⟨readStep_published,writeStep_published⟩

end WriterPriorityLock

namespace FairMorrisLock

section
variable {ι : Type} [DecidableEq ι] {i w : ι} {s s' : Shared ι}

theorem readStep_published {p : ReadPC} {q : Pos ReadPC} (h : readStep i w s p = some (s',q)) :
    Published readLocking .lockWaiting p q (readPublish p) := by
  cases readStep_cases h
  case lockWaiting | lockActive | unlockReleasing => constructor <;> decide
  all_goals exact .quiet (by decide) (by decide) rfl

theorem writeStep_published {p : WritePC} {q : Pos WritePC}
    (h : writeStep i w s p = some (s',q)) :
    Published writeLocking .lockWaiting p q (writePublish p) := by
  cases writeStep_cases h
  case lockWaiting | lockActive | unlockReleasing => constructor <;> decide
  all_goals exact .quiet (by decide) (by decide) rfl

end

theorem publishes (ι : Type) [DecidableEq ι] : (lock ι).Publishes :=
  ⟨readStep_published,writeStep_published⟩

end FairMorrisLock

theorem AlgoType.publishes (ι : Type) [DecidableEq ι] (algo : AlgoType) :
    (algo.lock ι).Publishes := by
  cases algo with
  | READER_PRIORITY => exact ReaderPriorityLock.publishes ι
  | WRITER_PRIORITY => exact WriterPriorityLock.publishes ι
  | FAIR_MORRIS => exact FairMorrisLock.publishes ι

/-- The state that a thread has stored last, by its position. -/
def Pos.Expects {P : Type} (locking : P → Bool) (first : P) (st : ThreadState) : Pos P → Prop
  | .idle => st = .INIT ∨ st = .RELEASING
  | .inside p => (p = first ∧ (st = .INIT ∨ st = .RELEASING)) ∨
      (p ≠ first ∧ locking p = true ∧ st = .WAITING) ∨ (locking p = false ∧ st = .ACTIVE)
  | .holding => st = .ACTIVE

theorem Published.expects {P : Type} {locking : P → Bool} {first p : P} {q : Pos P}
    {st : Option ThreadState} {info : ThreadInfo} (h : Published locking first p q st)
    (hp : (Pos.inside p).Expects locking first info.state) :
    q.Expects locking first (info.publish st).state := by
  cases h with
  | waiting hp hq hn => exact .inr (.inl ⟨hn,hq,rfl⟩)
  | active => rfl
  | releasing => exact .inr rfl
  | quiet hn hn' hq =>
    rcases hp with ⟨he,-⟩ | ⟨-,hl,hst⟩ | ⟨hl,hst⟩
    · exact absurd he hn
    · exact .inr (.inl ⟨hn',hq.trans hl,hst⟩)
    · exact .inr (.inr ⟨hq.trans hl,hst⟩)

/-- The state that a worker has stored last, by its program point. -/
def Worker.Tracks {ι S R W : Type} (L : RWLockBase ι S R W) : Worker R W → Prop
  | .reader info pc => match pc with
      | .start => info.state = .INIT
      | .call p => (Pos.inside p).Expects L.readLocking L.readLock info.state
      | .read | .loadReadCount _ | .storeReadCount _ | .work => info.state = .ACTIVE
      | .claim | .restore | .finish => info.state = .INIT ∨ info.state = .RELEASING
      | .done => info.state = .DONE
  | .writer info _ pc => match pc with
      | .sigaction | .start => info.state = .INIT
      | .call _ p => (Pos.inside p).Expects L.writeLocking L.writeLock info.state
      | .abortTestHeld | .loadData | .storeData _ | .loadWriteCount | .storeWriteCount _
      | .work => info.state = .ACTIVE
      | .abortTest | .claim | .restore | .finish => info.state = .INIT ∨ info.state = .RELEASING
      | .done => info.state = .DONE

section
variable {ι S R W : Type} {L : RWLockBase ι S R W} {i w : ι} {s s' : SimState S}
  {t t' : Worker R W}

theorem tracks_step (hP : L.Publishes) (h : (workers L).act i w s t = some (s',t'))
    (ht : t.Tracks L) : t'.Tracks L := by
  replace h := workers_cases h
  cases h with
  | reader h =>
    cases h
    case start => exact .inl rfl
    case claim => exact .inl ⟨rfl,ht⟩
    case work => exact .inr (.inr ⟨L.readUnlock_locking,ht⟩)
    case finish => rfl
    case call p l q hs =>
      have hq := (hP.read hs).expects ht
      cases q <;> exact hq
    all_goals exact ht
  | writer h =>
    cases h
    case start => exact .inl rfl
    case claim => exact .inl ⟨rfl,ht⟩
    case work | abortHeld => exact .inr (.inr ⟨L.writeUnlock_locking,ht⟩)
    case finish => rfl
    case call a p l q hs =>
      have hq := (hP.write hs).expects ht
      cases q with
      | idle => cases a <;> exact hq
      | inside | holding => exact hq
    all_goals exact ht

end

section
variable {cfg : Workload} {process : Process} {S R W : Type} {L : RWLockBase cfg.Tid S R W}
  {h : List (Event cfg.Tid cfg.Tid (Disturbance cfg.Tid) (SimState S) (Worker R W))}
  {c : Config cfg.Tid (SimState S) (Worker R W)}

theorem tracks_start (cfg : Workload) (L : RWLockBase cfg.Tid S R W) (process : Process)
    (i : cfg.Tid) : ((cfg.start L process).locals i).Tracks L := by
  simp only [Workload.start]
  split <;> rfl

theorem tracks_run (hP : L.Publishes) (hr : Run (workers L) (cfg.start L process) h c)
    (i : cfg.Tid) : (c.locals i).Tracks L := by
  refine hr.always (P := fun c => ∀ i, (c.locals i).Tracks L) (tracks_start cfg L process) ?_ i
  rintro c (⟨j,k⟩ | e) c' hc hn i
  · obtain ⟨s',t',ha,rfl⟩ := Machine.next_thread.mp hn
    by_cases hij : i = j
    · subst hij
      simpa only [Function.update_self] using tracks_step hP ha (hc i)
    · simpa only [Function.update_of_ne hij] using hc i
  · obtain ⟨s',-,rfl⟩ := Machine.next_env.mp hn
    exact hc i

end

namespace RWLockBase

variable {ι S R W : Type} (L : RWLockBase ι S R W)

def Holds (t : Client R W) : Prop := L.HoldsRead t ∨ L.HoldsWrite t

/-- In the unlock call with the lock given back already. -/
def Released : Client R W → Prop
  | .reader (.inside p) => L.readLocking p = false ∧ L.readAdmitted p = false
  | .writer (.inside p) => L.writeLocking p = false ∧ L.writeAdmitted p = false
  | _ => False

end RWLockBase

section
variable {ι S R W : Type} {L : RWLockBase ι S R W} {t : Worker R W}

/-- A thread that stored ACTIVE last holds the lock or has just given it back. -/
theorem holds_or_released (ht : t.Tracks L) (ha : t.info.state = .ACTIVE) :
    L.Holds t.client ∨ L.Released t.client := by
  cases t with
  | reader info pc =>
    cases pc
    case call p =>
      rcases ht with ⟨-,hs | hs⟩ | ⟨-,-,hs⟩ | ⟨hl,-⟩
      case inr.inr =>
        by_cases hp : L.readAdmitted p = true
        · exact .inl (.inl hp)
        · exact .inr ⟨hl,by simpa using hp⟩
      all_goals cases hs.symm.trans ha
    case read | loadReadCount | storeReadCount | work => exact .inl (.inl trivial)
    case start | done => cases ht.symm.trans ha
    all_goals rcases ht with hs | hs <;> cases hs.symm.trans ha
  | writer info b pc =>
    cases pc
    case call a p =>
      rcases ht with ⟨-,hs | hs⟩ | ⟨-,-,hs⟩ | ⟨hl,-⟩
      case inr.inr =>
        by_cases hp : L.writeAdmitted p = true
        · exact .inl (.inr hp)
        · exact .inr ⟨hl,by simpa using hp⟩
      all_goals cases hs.symm.trans ha
    case abortTestHeld | loadData | storeData | loadWriteCount | storeWriteCount | work =>
      exact .inl (.inr trivial)
    case sigaction | start | done => cases ht.symm.trans ha
    all_goals rcases ht with hs | hs <;> cases hs.symm.trans ha

/-- After it has given the lock back a thread is still published as ACTIVE. -/
theorem active_of_released (hf : L.readLocking L.readLock = true)
    (hf' : L.writeLocking L.writeLock = true) (ht : t.Tracks L) (hr : L.Released t.client) :
    t.info.state = .ACTIVE ∧ ¬ L.Holds t.client := by
  cases t with
  | reader info pc =>
    cases pc
    case call p =>
      obtain ⟨hl,hp⟩ := hr
      refine ⟨?_,fun h => ?_⟩
      · rcases ht with ⟨rfl,-⟩ | ⟨-,hl',-⟩ | ⟨-,hs⟩
        · cases hl.symm.trans hf
        · cases hl.symm.trans hl'
        · exact hs
      · rcases h with h | h
        · cases hp.symm.trans h
        · exact h
    all_goals cases hr
  | writer info b pc =>
    cases pc
    case call a p =>
      obtain ⟨hl,hp⟩ := hr
      refine ⟨?_,fun h => ?_⟩
      · rcases ht with ⟨rfl,-⟩ | ⟨-,hl',-⟩ | ⟨-,hs⟩
        · cases hl.symm.trans hf'
        · cases hl.symm.trans hl'
        · exact hs
      · rcases h with h | h
        · exact h
        · cases hp.symm.trans h
    all_goals cases hr

end

section
variable {cfg : Workload} {process : Process} {algo : AlgoType}
  {c : Config cfg.Tid (SimState (algo.Shared cfg.Tid)) (Worker algo.ReadPC algo.WritePC)}

/-- A published ACTIVE means that the lock is held, and then a writer is the only ACTIVE
thread, exactly while nobody is between giving the lock back and storing RELEASING. -/
theorem active_holds {h}
    (hr : Run (workers (algo.lock cfg.Tid)) (cfg.start (algo.lock cfg.Tid) process) h c) :
    ((∀ i, (c.locals i).info.state = .ACTIVE → (algo.lock cfg.Tid).Holds (c.locals i).client) ∧
      ∀ i j, i ≠ j → cfg.isWriter i = true → (c.locals i).info.state = .ACTIVE →
        (c.locals j).info.state ≠ .ACTIVE) ↔
    ∀ i, ¬ (algo.lock cfg.Tid).Released (c.locals i).client := by
  have ht := tracks_run (algo.publishes cfg.Tid) hr
  refine ⟨fun ⟨hA,_⟩ i hi => ?_,fun hn => ?_⟩
  · obtain ⟨ha,hh⟩ := active_of_released (algo.lock cfg.Tid).readLock_locking
      (algo.lock cfg.Tid).writeLock_locking (ht i) hi
    exact hh (hA i ha)
  · have hA := fun i ha => (holds_or_released (ht i) ha).resolve_right (hn i)
    refine ⟨hA,fun i j hij hw hi hj => ?_⟩
    have hrole := RWLockBase.run_isWriter (run_clients hr) i
    rw [lockView_locals,hw] at hrole
    have hW : (algo.lock cfg.Tid).HoldsWrite (c.locals i).client := by
      refine (hA i hi).resolve_left fun h => ?_
      generalize (c.locals i).client = t at hrole h
      cases t with
      | reader => cases hrole
      | writer => exact h
    obtain ⟨hw',hr'⟩ := AlgoType.exclusive (run_clients hr) i j hij hW
    exact (hA j hj).elim hr' hw'

end

/-- A writer is ACTIVE and holds the lock, the reader waits for it. -/
theorem active_holds_witness : ∃ h c,
    Run (workers (AlgoType.READER_PRIORITY.lock (oneOfEach 2 false).Tid))
      ((oneOfEach 2 false).start (AlgoType.READER_PRIORITY.lock (oneOfEach 2 false).Tid) {}) h c ∧
    (c.locals 1).info.state = .ACTIVE ∧ (c.locals 0).info.state = .WAITING ∧
    (AlgoType.READER_PRIORITY.lock (oneOfEach 2 false).Tid).Holds (c.locals 1).client := by
  obtain ⟨h,c,hr,h₁,h₀,hn⟩ : ∃ h c,
      Run (workers (AlgoType.READER_PRIORITY.lock (oneOfEach 2 false).Tid))
        ((oneOfEach 2 false).start (AlgoType.READER_PRIORITY.lock (oneOfEach 2 false).Tid) {}) h c ∧
      (c.locals 1).info.state = .ACTIVE ∧ (c.locals 0).info.state = .WAITING ∧
      ∀ i, (c.locals i).client = .writer .holding ∨
        (c.locals i).client = .reader (.inside ReaderPriorityLock.ReadPC.lockWrtWait) := by
    obtain ⟨h,hr,-⟩ := Run.of_exec
      (m := workers (AlgoType.READER_PRIORITY.lock (oneOfEach 2 false).Tid))
      (c := (oneOfEach 2 false).start (AlgoType.READER_PRIORITY.lock (oneOfEach 2 false).Tid) {})
      (turns 0 [(1,8),(0,5)]) rfl
    exact ⟨h,_,hr,rfl,rfl,Fin.forall_fin_two.mpr ⟨.inr rfl,.inl rfl⟩⟩
  refine ⟨h,c,hr,h₁,h₀,((active_holds hr).mpr fun i hi => ?_).1 1 h₁⟩
  rcases hn i with hi' | hi' <;> rw [hi'] at hi
  · exact hi
  · cases hi.1

theorem released_run (algo : AlgoType) : ∃ h c,
    Run (workers (algo.lock (oneOfEach 2 false).Tid))
      ((oneOfEach 2 false).start (algo.lock (oneOfEach 2 false).Tid) {}) h c ∧
    (algo.lock (oneOfEach 2 false).Tid).Released (c.locals 1).client ∧
    (c.locals 0).info.state = .ACTIVE := by
  cases algo with
  | READER_PRIORITY =>
    obtain ⟨h,hr,-⟩ := Run.of_exec (m := workers (ReaderPriorityLock.lock (oneOfEach 2 false).Tid))
      (c := (oneOfEach 2 false).start (ReaderPriorityLock.lock (oneOfEach 2 false).Tid) {})
      (turns 0 [(1,16),(0,8)]) rfl
    exact ⟨h,_,hr,⟨rfl,rfl⟩,rfl⟩
  | WRITER_PRIORITY =>
    obtain ⟨h,hr,-⟩ := Run.of_exec (m := workers (WriterPriorityLock.lock (oneOfEach 2 false).Tid))
      (c := (oneOfEach 2 false).start (WriterPriorityLock.lock (oneOfEach 2 false).Tid) {})
      (turns 0 [(1,24),(0,12)]) rfl
    exact ⟨h,_,hr,⟨rfl,rfl⟩,rfl⟩
  | FAIR_MORRIS =>
    obtain ⟨h,hr,-⟩ := Run.of_exec (m := workers (FairMorrisLock.lock (oneOfEach 2 false).Tid))
      (c := (oneOfEach 2 false).start (FairMorrisLock.lock (oneOfEach 2 false).Tid) {})
      (turns 0 [(1,20),(0,8)]) rfl
    exact ⟨h,_,hr,⟨rfl,rfl⟩,rfl⟩

/-- In each of the locks a writer that has given the lock back can still be ACTIVE when a
reader is. -/
theorem released_active (algo : AlgoType) : ∃ h c,
    Run (workers (algo.lock (oneOfEach 2 false).Tid))
      ((oneOfEach 2 false).start (algo.lock (oneOfEach 2 false).Tid) {}) h c ∧
    (c.locals 1).info.state = .ACTIVE ∧
    ¬ (algo.lock (oneOfEach 2 false).Tid).Holds (c.locals 1).client ∧
    (c.locals 0).info.state = .ACTIVE := by
  obtain ⟨h,c,hr,h₁,h₀⟩ := released_run algo
  have ht := tracks_run (algo.publishes (oneOfEach 2 false).Tid) hr 1
  obtain ⟨ha,hh⟩ := active_of_released (algo.lock (oneOfEach 2 false).Tid).readLock_locking
    (algo.lock (oneOfEach 2 false).Tid).writeLock_locking ht h₁
  exact ⟨h,c,hr,ha,hh,h₀⟩

theorem active_not_holding : ∃ h c,
    Run (workers (AlgoType.READER_PRIORITY.lock (oneOfEach 2 false).Tid))
      ((oneOfEach 2 false).start (AlgoType.READER_PRIORITY.lock (oneOfEach 2 false).Tid) {}) h c ∧
    (c.locals 1).info.state = .ACTIVE ∧
    ¬ (AlgoType.READER_PRIORITY.lock (oneOfEach 2 false).Tid).Holds (c.locals 1).client ∧
    (c.locals 0).info.state = .ACTIVE := released_active .READER_PRIORITY

end ReadersWriters
