import ReadersWriters.Interleaving.Potential
import ReadersWriters.AlgoType
import ReadersWriters.Budget
import ReadersWriters.DeadlockFreedom
import Mathlib.Algebra.BigOperators.Fin
set_option autoImplicit false

namespace ReadersWriters
open Interleaving

def Pos.rank {P : Type} (f : P → ℕ) : Pos P → ℕ
  | .inside p => f p
  | .idle | .holding => 0

/-- A measure of the steps that are left in the calls of a lock. Each step of a member
function uses up a unit of it; what a wake-up costs is paid by the call that signals. -/
structure RWLockBase.Ranking {ι S R W : Type} (L : RWLockBase ι S R W) where
  read : R → ℕ
  write : W → ℕ
  store : S → ℤ
  valid : S → Prop
  slack : ℕ
  store_init : store L.init = 0
  store_ge : ∀ {s}, valid s → -slack ≤ store s
  readStep : ∀ {i w s p s' q}, valid s → L.readStep i w s p = some (s',q) →
    store s'+q.rank read+1 ≤ store s+read p
  writeStep : ∀ {i w s p s' q}, valid s → L.writeStep i w s p = some (s',q) →
    store s'+q.rank write+1 ≤ store s+write p

namespace RWLockBase.Ranking

section
variable {ι S R W : Type} {L : RWLockBase ι S R W} (ρ : L.Ranking)

/-- Enough for the steps between two visits to the head of a worker's loop. -/
def opCost : ℕ :=
  ρ.read L.readLock+ρ.read L.readUnlock+ρ.write L.writeLock+ρ.write L.writeUnlock+8

/-- The steps after the current call of the lock, up to the end of a failing claim. -/
def readerTail (locking : Bool) : ℕ := if locking then ρ.read L.readUnlock+7 else 3

def writerTail (locking : Bool) : ℕ := if locking then ρ.write L.writeUnlock+10 else 4

/-- The steps up to the end of a failing claim. The operation that a failed claim gives
back is still with the thread, hence `opCost` at `restore`. -/
def readerRank : ReaderAt R → ℕ
  | .start => 4
  | .claim => 3
  | .restore => ρ.opCost+2
  | .call p => ρ.read p+ρ.readerTail (L.readLocking p)
  | .read => ρ.read L.readUnlock+7
  | .loadReadCount _ => ρ.read L.readUnlock+6
  | .storeReadCount _ => ρ.read L.readUnlock+5
  | .work => ρ.read L.readUnlock+4
  | .finish => 1
  | .done => 0

def writerRank : WriterAt W → ℕ
  | .sigaction => 6
  | .start => 5
  | .abortTest => 4
  | .claim => 3
  | .restore => ρ.opCost+2
  | .call _ p => ρ.write p+ρ.writerTail (L.writeLocking p)
  | .abortTestHeld => ρ.write L.writeUnlock+10
  | .loadData => ρ.write L.writeUnlock+9
  | .storeData _ => ρ.write L.writeUnlock+8
  | .loadWriteCount => ρ.write L.writeUnlock+7
  | .storeWriteCount _ => ρ.write L.writeUnlock+6
  | .work => ρ.write L.writeUnlock+5
  | .finish => 1
  | .done => 0

def workerRank : Worker R W → ℤ
  | .reader _ pc => ρ.readerRank pc
  | .writer _ _ pc => ρ.writerRank pc

def storeRank (s : SimState S) : ℤ := ρ.opCost*s.opsRemaining+ρ.store s.lock

theorem read_le_opCost : ρ.read L.readLock+ρ.read L.readUnlock+5 ≤ ρ.opCost := by
  simp only [opCost]
  omega

theorem write_le_opCost : ρ.write L.writeLock+ρ.write L.writeUnlock+8 ≤ ρ.opCost := by
  simp only [opCost]
  omega

theorem readerRank_resume (q : Pos R) :
    ρ.readerRank (.resume q) = q.rank ρ.read+ρ.readerTail (q.locking L.readLocking) := by
  cases q with
  | idle | inside p => rfl
  | holding => simp [ReaderAt.resume,readerRank,Pos.rank,Pos.locking,readerTail]

theorem writerRank_resume (a : Bool) (q : Pos W) :
    ρ.writerRank (.resume a q) ≤ q.rank ρ.write+ρ.writerTail (q.locking L.writeLocking) := by
  cases q with
  | idle => cases a <;> simp [WriterAt.resume,writerRank,Pos.rank,Pos.locking,writerTail]
  | inside p => exact le_refl _
  | holding => simp [WriterAt.resume,writerRank,Pos.rank,Pos.locking,writerTail]

variable {ρ} {i w : ι} {s s' : SimState S}

theorem readerRank_step {info info' : ThreadInfo} {pc pc' : ReaderAt R} (hv : ρ.valid s.lock)
    (h : ReaderCase L i w s info pc s' info' pc') :
    ρ.storeRank s'+ρ.readerRank pc'+1 ≤ ρ.storeRank s+ρ.readerRank pc := by
  cases h with
  | claim hp =>
    have hK := ρ.read_le_opCost
    simp only [storeRank,readerRank,readerTail,L.readLock_locking,if_true,mul_sub]
    omega
  | claimFailed hp | restore =>
    simp only [storeRank,readerRank,mul_sub,mul_add]
    omega
  | @call p l q hs =>
    have hc := ρ.readStep hv hs
    rw [readerRank_resume,L.readStep_locking hs]
    simp only [storeRank,readerRank]
    omega
  | work =>
    simp only [readerRank,readerTail,L.readUnlock_locking]
    simp only [Bool.false_eq_true,if_false]
    omega
  | start | read | loadReadCount | storeReadCount | finish =>
    simp only [storeRank,readerRank]
    omega

theorem writerRank_step {info info' : ThreadInfo} {b : Bool} {pc pc' : WriterAt W}
    (hv : ρ.valid s.lock) (h : WriterCase L i w s info b pc s' info' pc') :
    ρ.storeRank s'+ρ.writerRank pc'+1 ≤ ρ.storeRank s+ρ.writerRank pc := by
  cases h with
  | claim hp =>
    have hK := ρ.write_le_opCost
    simp only [storeRank,writerRank,writerTail,L.writeLock_locking,if_true,mul_sub]
    omega
  | claimFailed hp | restore =>
    simp only [storeRank,writerRank,mul_sub,mul_add]
    omega
  | @call a p l q hs =>
    have hc := ρ.writeStep hv hs
    have hq := ρ.writerRank_resume a q
    rw [L.writeStep_locking hs] at hq
    change _ ≤ _+((ρ.write p+ρ.writerTail (L.writeLocking p) : ℕ) : ℤ)
    simp only [storeRank]
    omega
  | work | abortHeld =>
    simp only [writerRank,writerTail,L.writeUnlock_locking]
    simp only [Bool.false_eq_true,if_false]
    omega
  | sigaction | noSigaction | start | abort | abortTest | abortTestHeld | loadData | storeData
  | loadWriteCount | storeWriteCount | finish =>
    simp only [storeRank,writerRank]
    omega

theorem rank_step {t t' : Worker R W} (hv : ρ.valid s.lock)
    (h : (workers L).act i w s t = some (s',t')) :
    ρ.storeRank s'+ρ.workerRank t'+1 ≤ ρ.storeRank s+ρ.workerRank t := by
  replace h := workers_cases h
  cases h with
  | reader h => exact readerRank_step hv h
  | writer h => exact writerRank_step hv h

end

section
variable {cfg : Workload} {process : Process} {S R W : Type} {L : RWLockBase cfg.Tid S R W}
  {ρ : L.Ranking}

theorem total_rank_start :
    total ρ.workerRank (cfg.start L process).locals = 4*cfg.numReaders+6*cfg.numWriters := by
  have hr : ∀ i : Fin cfg.numReaders,
      ρ.workerRank ((cfg.start L process).locals (.castAdd cfg.numWriters i)) = 4 := by
    intro i
    have hi : cfg.isWriter (.castAdd cfg.numWriters i) = false := by simp [Workload.isWriter]
    simp [Workload.start,hi,workerRank,readerRank]
  have hw : ∀ i : Fin cfg.numWriters,
      ρ.workerRank ((cfg.start L process).locals (.natAdd cfg.numReaders i)) = 6 := by
    intro i
    have hi : cfg.isWriter (.natAdd cfg.numReaders i) = true := by simp [Workload.isWriter]
    simp [Workload.start,hi,workerRank,writerRank]
  rw [total,Fin.sum_univ_add]
  simp only [hr,hw,Finset.sum_const,Finset.card_univ,Fintype.card_fin,nsmul_eq_mul]
  omega

/-- A thread whose claim has failed owes an operation to the counter. -/
theorem failed_step {i w : cfg.Tid} {s s' : SimState S} {t t' : Worker R W} {r : ℕ}
    (h : (workers L).act i w s t = some (s',t'))
    (hI : 0 ≤ s.opsRemaining+(r+t.failed.toNat : ℕ)) :
    0 ≤ s'.opsRemaining+(r+t'.failed.toNat : ℕ) := by
  replace h := workers_cases h
  cases h with
  | reader h =>
    cases h <;> simp only [Worker.failed,Bool.toNat_true,Bool.toNat_false] at hI ⊢ <;> omega
  | writer h =>
    cases h <;> simp only [Worker.failed,Bool.toNat_true,Bool.toNat_false] at hI ⊢ <;> omega

theorem failed_run (hT : 0 ≤ cfg.totalOps) {h c}
    (hr : Run (workers L) (cfg.start L process) h c) :
    0 ≤ c.shared.opsRemaining+total (fun t => t.failed.toNat) c.locals := by
  refine hr.total_invariant (I := fun s (n : ℕ) => 0 ≤ s.opsRemaining+(n : ℤ)) ?_
    (fun i w s t s' t' r => failed_step) ?_
  · exact Int.add_nonneg hT (Int.natCast_nonneg _)
  · intro e s s' n he hI
    rwa [(disturbance_keeps he).1]

theorem failed_le_rank (t : Worker R W) : ρ.opCost*t.failed.toNat ≤ ρ.workerRank t := by
  cases t with
  | reader info pc =>
    cases pc <;> simp only [Worker.failed,workerRank,readerRank,Bool.toNat_true,Bool.toNat_false] <;>
      omega
  | writer info b pc =>
    cases pc <;> simp only [Worker.failed,workerRank,writerRank,Bool.toNat_true,Bool.toNat_false] <;>
      omega

/-- The counter may be below zero, but then the threads owe it as much. -/
theorem potential_nonneg (hT : 0 ≤ cfg.totalOps) {h c}
    (hr : Run (workers L) (cfg.start L process) h c) :
    0 ≤ ρ.opCost*c.shared.opsRemaining+total ρ.workerRank c.locals := by
  have hrank : (ρ.opCost : ℤ)*total (fun t => t.failed.toNat) c.locals ≤
      total ρ.workerRank c.locals := by
    rw [total,Nat.cast_sum,Finset.mul_sum]
    exact Finset.sum_le_sum fun i _ => failed_le_rank (c.locals i)
  calc 0 ≤ (ρ.opCost : ℤ)*(c.shared.opsRemaining+total (fun t => t.failed.toNat) c.locals) :=
        Int.mul_nonneg (Int.natCast_nonneg _) (failed_run hT hr)
    _ ≤ ρ.opCost*c.shared.opsRemaining+total ρ.workerRank c.locals := by
      rw [mul_add]
      exact Int.add_le_add_left hrank _

theorem run_threadSteps (hT : 0 ≤ cfg.totalOps)
    (hv : ∀ h c, Run (workers L) (cfg.start L process) h c → ρ.valid c.shared.lock) {h c}
    (hr : Run (workers L) (cfg.start L process) h c)
    (hw : ∀ e ∈ h, ∀ i, e.2 ≠ .env (.spuriousWake i)) :
    threadSteps h ≤ ρ.opCost*cfg.totalOps+4*cfg.numReaders+6*cfg.numWriters+ρ.slack := by
  have hok : EnvWithin (fun d => ∀ i, d ≠ .spuriousWake i) h :=
    fun e he d hd i hi => hw e he i (hd.trans (congrArg Label.env hi))
  have hle := hr.threadSteps_le (φ := ρ.storeRank) (w := ρ.workerRank)
    (fun h c i k s' t' hr ha => rank_step (hv h c hr) ha)
    (by
      intro e s s' hok he
      cases disturbance_cases he with
      | spuriousWake => exact absurd rfl (hok _)
      | sigusr1 => exact le_refl _) hok
  have hpos := potential_nonneg (ρ := ρ) hT hr
  have hslack := ρ.store_ge (hv h c hr)
  have hinit : ρ.storeRank (cfg.start L process).shared = ρ.opCost*cfg.totalOps := by
    simp [storeRank,Workload.start,ρ.store_init]
  rw [total_rank_start,hinit,storeRank] at hle
  omega

end

end RWLockBase.Ranking

namespace ReaderPriorityLock

def readRank : ReadPC → ℕ
  | .lockWaiting => 6
  | .lockMutexWait | .unlockMutexWait => 5
  | .lockCount | .unlockCount => 4
  | .lockWrtWait | .unlockWrtPost => 3
  | .lockMutexPost | .unlockMutexPost => 2
  | .lockActive | .unlockReleasing => 1

def writeRank : WritePC → ℕ
  | .lockWaiting => 4
  | .lockWrtWait | .unlockClearActive => 3
  | .lockSetActive | .unlockWrtPost => 2
  | .lockActive | .unlockReleasing => 1

theorem readRank_step {s s' : Shared} {p : ReadPC} {q : Pos ReadPC}
    (h : readStep s p = some (s',q)) : q.rank readRank+1 ≤ readRank p := by
  cases readStep_cases h <;> decide

theorem writeRank_step {s s' : Shared} {p : WritePC} {q : Pos WritePC}
    (h : writeStep s p = some (s',q)) : q.rank writeRank+1 ≤ writeRank p := by
  cases writeStep_cases h <;> decide

def ranking (ι : Type) : (lock ι).Ranking where
  read := readRank
  write := writeRank
  store _ := 0
  valid _ := True
  slack := 0
  store_init := rfl
  store_ge _ := le_refl 0
  readStep _ h := by
    have := readRank_step h
    omega
  writeStep _ h := by
    have := writeRank_step h
    omega

end ReaderPriorityLock

namespace WriterPriorityLock

def readRank : ReadPC → ℕ
  | .lockWaiting => 10
  | .lockReadTryWait => 9
  | .lockRsemWait => 8
  | .lockMutex1Wait => 7
  | .lockCount => 6
  | .lockWrtWait | .unlockMutex1Wait => 5
  | .lockMutex1Post | .unlockCount => 4
  | .lockRsemPost | .unlockWrtPost => 3
  | .lockReadTryPost | .unlockMutex1Post => 2
  | .lockActive | .unlockReleasing => 1

def writeRank : WritePC → ℕ
  | .lockWaiting => 8
  | .lockMutex2Wait | .unlockClearActive => 7
  | .lockCount | .unlockWrtPost => 6
  | .lockRsemWait | .unlockMutex2Wait => 5
  | .lockMutex2Post | .unlockCount => 4
  | .lockWrtWait | .unlockRsemPost => 3
  | .lockSetActive | .unlockMutex2Post => 2
  | .lockActive | .unlockReleasing => 1

theorem readRank_step {s s' : Shared} {p : ReadPC} {q : Pos ReadPC}
    (h : readStep s p = some (s',q)) : q.rank readRank+1 ≤ readRank p := by
  cases readStep_cases h <;> decide

theorem writeRank_step {s s' : Shared} {p : WritePC} {q : Pos WritePC}
    (h : writeStep s p = some (s',q)) : q.rank writeRank+1 ≤ writeRank p := by
  cases writeStep_cases h <;> decide

def ranking (ι : Type) : (lock ι).Ranking where
  read := readRank
  write := writeRank
  store _ := 0
  valid _ := True
  slack := 0
  store_init := rfl
  store_ge _ := le_refl 0
  readStep _ h := by
    have := readRank_step h
    omega
  writeStep _ h := by
    have := writeRank_step h
    omega

end WriterPriorityLock

namespace FairMorrisLock

/-- A thread that a signal takes out of its queue can go round the loop once more: it
takes the mutex, finds its condition false and goes back to sleep, in three steps. -/
def readRank (n : ℕ) : ReadPC → ℕ
  | .lockWaiting | .lockCondWait => 6
  | .lockMutexLock | .lockWake => 5
  | .lockTest | .lockRetest => 4
  | .lockFetchAdd => 3
  | .lockMutexUnlock => 2
  | .lockActive => 1
  | .unlockMutexLock => 3*n+5
  | .unlockFetchSub => 3*n+4
  | .unlockNotify => 3*n+3
  | .unlockMutexUnlock => 2
  | .unlockReleasing => 1

def writeRank (n : ℕ) : WritePC → ℕ
  | .lockWaiting | .lockCondWait => 6
  | .lockMutexLock | .lockWake => 5
  | .lockTest | .lockRetest => 4
  | .lockStore => 3
  | .lockMutexUnlock => 2
  | .lockActive => 1
  | .unlockMutexLock => 3*n+5
  | .unlockStore => 3*n+4
  | .unlockNotify => 3*n+3
  | .unlockMutexUnlock => 2
  | .unlockReleasing => 1

section
variable {ι : Type}

def storeRank (s : Shared ι) : ℤ := -3*(s.readCond.length+s.writeCond.length)

/-- No more than `n` threads sleep in a queue. -/
def AtMost (n : ℕ) (s : Shared ι) : Prop := s.readCond.length ≤ n ∧ s.writeCond.length ≤ n

theorem Inv.atMost [Fintype ι] {n : ℕ} {c : Config ι (Shared ι) Thread} (hI : Inv c)
    (hn : Fintype.card ι = n) : AtMost n c.shared :=
  hn ▸ ⟨hI.readers.nodup.length_le_card,hI.writers.nodup.length_le_card⟩

variable [DecidableEq ι] {n : ℕ} {i w : ι} {s s' : Shared ι}

theorem readRank_step {p : ReadPC} {q : Pos ReadPC} (hn : AtMost n s)
    (h : readStep i w s p = some (s',q)) :
    storeRank s'+q.rank (readRank n)+1 ≤ storeRank s+readRank n p := by
  obtain ⟨hr,hw⟩ := hn
  cases readStep_cases h with
  | sleep | sleepAgain =>
    simp only [storeRank,List.length_append,List.length_singleton,Pos.rank,readRank]
    omega
  | signal _ hm =>
    have hpos := List.length_pos_of_mem hm
    simp only [storeRank,List.length_erase_of_mem hm,Pos.rank,readRank]
    omega
  | broadcast =>
    simp only [storeRank,List.length_nil,Pos.rank,readRank]
    omega
  | _ =>
    simp only [storeRank,Pos.rank,readRank]
    omega

theorem writeRank_step {p : WritePC} {q : Pos WritePC} (hn : AtMost n s)
    (h : writeStep i w s p = some (s',q)) :
    storeRank s'+q.rank (writeRank n)+1 ≤ storeRank s+writeRank n p := by
  obtain ⟨hr,hw⟩ := hn
  cases writeStep_cases h with
  | sleep | sleepAgain =>
    simp only [storeRank,List.length_append,List.length_singleton,Pos.rank,writeRank]
    omega
  | signal _ _ hm =>
    have hpos := List.length_pos_of_mem hm
    simp only [storeRank,List.length_erase_of_mem hm,Pos.rank,writeRank]
    omega
  | broadcast =>
    simp only [storeRank,List.length_nil,Pos.rank,writeRank]
    omega
  | _ =>
    simp only [storeRank,Pos.rank,writeRank]
    omega

def ranking (ι : Type) [DecidableEq ι] (n : ℕ) : (lock ι).Ranking where
  read := readRank n
  write := writeRank n
  store := storeRank
  valid := AtMost n
  slack := 6*n
  store_init := rfl
  store_ge h := by
    obtain ⟨hr,hw⟩ := h
    simp only [storeRank]
    omega
  readStep := readRank_step
  writeStep := writeRank_step

theorem opCost_ranking (n : ℕ) : (ranking ι n).opCost = 6*n+30 := by
  simp only [RWLockBase.Ranking.opCost,ranking,lock,readRank,writeRank]
  omega

end

end FairMorrisLock

/-- A bound on the steps of all workers together. -/
def AlgoType.stepBound (totalOps : ℤ) (numReaders numWriters : ℕ) : AlgoType → ℤ
  | READER_PRIORITY => 26*totalOps+4*numReaders+6*numWriters
  | WRITER_PRIORITY => 38*totalOps+4*numReaders+6*numWriters
  | FAIR_MORRIS => (6*(numReaders+numWriters)+30)*totalOps+10*numReaders+12*numWriters

/-- No worker runs for ever, whatever the schedule and whether or not a signal arrives. -/
theorem steps_bounded {algo : AlgoType} {cfg : Workload} {process : Process}
    (hT : 0 ≤ cfg.totalOps) {h c}
    (hr : Run (workers (algo.lock cfg.Tid)) (cfg.start (algo.lock cfg.Tid) process) h c)
    (hw : ∀ e ∈ h, ∀ i, e.2 ≠ .env (.spuriousWake i)) :
    threadSteps h ≤ algo.stepBound cfg.totalOps cfg.numReaders cfg.numWriters := by
  cases algo with
  | READER_PRIORITY =>
    have hb := RWLockBase.Ranking.run_threadSteps (ρ := ReaderPriorityLock.ranking cfg.Tid) hT
      (fun _ _ _ => trivial) hr hw
    refine hb.trans (le_of_eq ?_)
    rw [show (ReaderPriorityLock.ranking cfg.Tid).opCost = 26 from rfl]
    exact Int.add_zero _
  | WRITER_PRIORITY =>
    have hb := RWLockBase.Ranking.run_threadSteps (ρ := WriterPriorityLock.ranking cfg.Tid) hT
      (fun _ _ _ => trivial) hr hw
    refine hb.trans (le_of_eq ?_)
    rw [show (WriterPriorityLock.ranking cfg.Tid).opCost = 38 from rfl]
    exact Int.add_zero _
  | FAIR_MORRIS =>
    have hb := RWLockBase.Ranking.run_threadSteps
      (ρ := FairMorrisLock.ranking cfg.Tid (cfg.numReaders+cfg.numWriters)) hT
      (fun _ _ hr => (FairMorrisLock.inv_run (run_clients hr)).atMost (Fintype.card_fin _)) hr hw
    refine hb.trans (le_of_eq ?_)
    rw [FairMorrisLock.opCost_ranking,AlgoType.stepBound,
      show (FairMorrisLock.ranking cfg.Tid _).slack = 6*(cfg.numReaders+cfg.numWriters) from rfl]
    push_cast
    omega

/-- A reader is woken, finds a writer waiting and goes back to sleep. -/
theorem steps_bounded_witness : ∃ h c,
    Run (workers (AlgoType.FAIR_MORRIS.lock oneReaderTwoWriters.Tid))
      (oneReaderTwoWriters.start (AlgoType.FAIR_MORRIS.lock oneReaderTwoWriters.Tid) {}) h c ∧
    threadSteps h = 40 ∧ (threadSteps h : ℤ) ≤ 178 := by
  obtain ⟨h,hr,hl,hn⟩ := Run.of_turns
    (m := workers (AlgoType.FAIR_MORRIS.lock oneReaderTwoWriters.Tid))
    (c := oneReaderTwoWriters.start (AlgoType.FAIR_MORRIS.lock oneReaderTwoWriters.Tid) {})
    0 [(1,10),(0,5),(2,7),(1,15),(0,3)] rfl
  have hthread : ∀ e ∈ h, e.2.isThread = true := by
    intro e he
    obtain ⟨i,k,hk⟩ := hl e he
    rw [hk]
    rfl
  refine ⟨h,_,hr,(List.countP_eq_length.mpr hthread).trans hn,
    steps_bounded (by decide) hr fun e he i hi => ?_⟩
  obtain ⟨j,k,hk⟩ := hl e he
  cases hi.symm.trans hk

end ReadersWriters
