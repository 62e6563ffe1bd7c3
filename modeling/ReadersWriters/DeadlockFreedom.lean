import ReadersWriters.ReaderPriority
import ReadersWriters.WriterPriority
import ReadersWriters.FairMorrisProgress
import ReadersWriters.Worker
set_option autoImplicit false

namespace ReadersWriters
open Interleaving

/-- One reader and two writers share three operations. -/
abbrev oneReaderTwoWriters : Workload := { numReaders := 1, numWriters := 2, totalOps := 3 }

section
variable {cfg : Workload} {process : Process}

/-- What a run of workers leaves of the lock is a run of clients from the fresh lock. -/
theorem run_clients {S R W : Type} {L : RWLockBase cfg.Tid S R W}
    {h : List (Event cfg.Tid cfg.Tid (Disturbance cfg.Tid) (SimState S) (Worker R W))}
    {c : Config cfg.Tid (SimState S) (Worker R W)}
    (hr : Run (workers L) (cfg.start L process) h c) :
    Run L.client (L.fresh cfg.isWriter) ((lockView L).history h) ((lockView L).view c) :=
  lockView_start cfg L process ▸ (lockView L).run hr

theorem writerPriority_enabled {h c} (hr : Run (workers (WriterPriorityLock.lock cfg.Tid))
    (cfg.start (WriterPriorityLock.lock cfg.Tid) process) h c) (hd : ∃ i, ¬ (c.locals i).Done) :
    ∃ i, (workers (WriterPriorityLock.lock cfg.Tid)).Enabled c i :=
  enabled_of_progress (WriterPriorityLock.progress (WriterPriorityLock.inv_run (run_clients hr))) hd

/-- A writer that a signal will abort holds the lock while a reader is after it. -/
theorem writerPriority_enabled_witness : ∃ c : Config (Fin 2) _ _,
    c.shared.process.abortSignalReceived = true ∧
    (c.locals 0).client = WriterPriorityLock.reading .lockRsemWait ∧
    ∃ i, (workers (WriterPriorityLock.lock (Fin 2))).Enabled c i := by
  obtain ⟨h,hr,-⟩ := Run.of_exec (m := workers (WriterPriorityLock.lock (oneOfEach 2 true).Tid))
    (c := (oneOfEach 2 true).start (WriterPriorityLock.lock (oneOfEach 2 true).Tid) {})
    (turns 0 [(1,12),(0,4)] ++ [.env .sigusr1]) rfl
  exact ⟨_,rfl,rfl,writerPriority_enabled hr ⟨0,fun hd => by cases hd⟩⟩

theorem readerPriority_enabled {h c} (hr : Run (workers (ReaderPriorityLock.lock cfg.Tid))
    (cfg.start (ReaderPriorityLock.lock cfg.Tid) process) h c) :
    ((∃ i, ¬ (c.locals i).Done) →
      ∃ i, (workers (ReaderPriorityLock.lock cfg.Tid)).Enabled c i) ∧
    ∀ i, (c.locals i).client = ReaderPriorityLock.reading .lockWrtWait →
      (∀ j, ¬ (ReaderPriorityLock.lock cfg.Tid).HoldsRead (c.locals j).client ∧
        (c.locals j).client ≠ ReaderPriorityLock.reading .unlockWrtPost) ∧
      (c.shared.lock.wrt.value = 0 → ∃ j, (c.locals j).client ∈ ReaderPriorityLock.inWrt) := by
  have hI := ReaderPriorityLock.inv_run (run_clients hr)
  exact ⟨enabled_of_progress (ReaderPriorityLock.progress hI),
    fun i hi => ReaderPriorityLock.wrtWait_alone hI (i := i) hi⟩

/-- The first reader sleeps on `wrt_`, which the writer has. -/
theorem readerPriority_enabled_witness : ∃ c : Config (Fin 2) _ _,
    (c.locals 0).client = ReaderPriorityLock.reading .lockWrtWait ∧
    (∃ i, (workers (ReaderPriorityLock.lock (Fin 2))).Enabled c i) ∧
    ∃ j, (c.locals j).client ∈ ReaderPriorityLock.inWrt := by
  obtain ⟨h,hr,-⟩ := Run.of_exec (m := workers (ReaderPriorityLock.lock (oneOfEach 2 true).Tid))
    (c := (oneOfEach 2 true).start (ReaderPriorityLock.lock (oneOfEach 2 true).Tid) {})
    (turns 0 [(1,8),(0,5)]) rfl
  obtain ⟨he,hw⟩ := readerPriority_enabled hr
  exact ⟨_,rfl,he ⟨0,fun hd => by cases hd⟩,(hw 0 rfl).2 rfl⟩

/-- A thread in a condition queue sleeps until it is taken out. -/
theorem not_enabled_of_asleep {c : Config cfg.Tid (SimState (FairMorrisLock.Shared cfg.Tid))
    (Worker FairMorrisLock.ReadPC FairMorrisLock.WritePC)}
    (hI : FairMorrisLock.Inv ((lockView (FairMorrisLock.lock cfg.Tid)).view c)) {i : cfg.Tid}
    (hi : i ∈ c.shared.lock.readCond ∨ i ∈ c.shared.lock.writeCond) :
    ¬ (workers (FairMorrisLock.lock cfg.Tid)).Enabled c i := by
  rintro ⟨w,hw⟩
  obtain ⟨⟨s',t'⟩,ha⟩ := Option.isSome_iff_exists.mp hw
  have hc : (c.locals i).callsLock c.shared = true := by
    have hl : (c.locals i).client = FairMorrisLock.reading .lockCondWait ∨
        (c.locals i).client = FairMorrisLock.writing .lockCondWait :=
      hi.imp (hI.readers.asleep i) (hI.writers.asleep i)
    generalize c.locals i = t at hl
    cases t with
    | reader info pc =>
      cases pc <;> simp [Worker.client] at hl
      rfl
    | writer info b pc =>
      cases pc <;> simp [Worker.client] at hl
      rfl
  have ha := lockView_visible ha hc
  rcases hi with hi | hi
  · rw [show (c.locals i).client = _ from hI.readers.asleep i hi] at ha
    simp [RWLockBase.client,FairMorrisLock.lock,FairMorrisLock.readStep,hi] at ha
  · rw [show (c.locals i).client = _ from hI.writers.asleep i hi] at ha
    simp [RWLockBase.client,FairMorrisLock.lock,FairMorrisLock.writeStep,hi] at ha

/-- A missed wake-up is the only way into a deadlock: a run without one, spurious wake-ups
and signals included, ends in a state where a worker can step or all are done. -/
theorem fairMorris_enabled {h c} (hr : Run (workers (FairMorrisLock.lock cfg.Tid))
    (cfg.start (FairMorrisLock.lock cfg.Tid) process) h c)
    (hm : ∀ e ∈ (lockView (FairMorrisLock.lock cfg.Tid)).history h,
      ¬ FairMorrisLock.MissedWakeup e) (hd : ∃ i, ¬ (c.locals i).Done) :
    (∃ i, (workers (FairMorrisLock.lock cfg.Tid)).Enabled c i) ∧
    ¬ (FairMorrisLock.Free c.shared.lock ∧ ∀ i, ¬ (c.locals i).Done →
      i ∈ c.shared.lock.readCond ∨ i ∈ c.shared.lock.writeCond) := by
  have hI := FairMorrisLock.inv_run (run_clients hr)
  have hS := FairMorrisLock.served_run (run_clients hr) hm
  obtain ⟨i,hi⟩ := enabled_of_progress (FairMorrisLock.progress hI hS) hd
  refine ⟨⟨i,hi⟩,fun ⟨_,ha⟩ => ?_⟩
  have hn : ¬ (c.locals i).Done := fun hd => not_enabled_of_done hd hi
  exact not_enabled_of_asleep hI (ha i hn) hi

end

/-- An operation more than `oneReaderTwoWriters` has. -/
abbrev fourOperations : Workload := { oneReaderTwoWriters with totalOps := 4 }

/-- The first writer decides on its wake-up while the reader is the only one asleep. The
second writer takes the lock before the reader does, and the first one goes to sleep next
to the reader. -/
theorem fairMorris_enabled_witness : ∃ h c,
    Run (workers (FairMorrisLock.lock fourOperations.Tid))
      (fourOperations.start (FairMorrisLock.lock fourOperations.Tid) {}) h c ∧
    (∃ e ∈ (lockView (FairMorrisLock.lock fourOperations.Tid)).history h,
      e.1.locals 1 = FairMorrisLock.writing .unlockNotify ∧ e.1.shared.readCond = [0]) ∧
    c.shared.lock.readCond = [0] ∧ c.shared.lock.writeCond = [1] ∧
    ∃ i, (workers (FairMorrisLock.lock fourOperations.Tid)).Enabled c i := by
  have hr := Run.events (m := workers (FairMorrisLock.lock fourOperations.Tid))
    (c := fourOperations.start (FairMorrisLock.lock fourOperations.Tid) {})
    (turns 0 [(1,10),(0,5),(1,11),(2,10),(0,3),(1,5)]) rfl
  exact ⟨_,_,hr,by decide +kernel,rfl,rfl,
    (fairMorris_enabled hr (by decide +kernel) ⟨0,fun hd => by cases hd⟩).1⟩

/-- A writer holds the lock, then a reader and a second writer go to sleep. The first
writer wakes the reader alone and runs out of operations; the reader sees the waiting
writer and goes back to sleep. -/
theorem missed_wakeup_run : ∃ h c,
    Run (workers (FairMorrisLock.lock oneReaderTwoWriters.Tid))
      (oneReaderTwoWriters.start (FairMorrisLock.lock oneReaderTwoWriters.Tid) {}) h c ∧
    (∀ e ∈ h, ∃ i k, e.2 = .thread i k) ∧ c.shared.lock.readCond = [0] ∧
    c.shared.lock.writeCond = [2] ∧ FairMorrisLock.Free c.shared.lock ∧ (c.locals 1).Done ∧
    ¬ (c.locals 0).Done := by
  obtain ⟨h,hr,hl,-⟩ := Run.of_turns (m := workers (FairMorrisLock.lock oneReaderTwoWriters.Tid))
    (c := oneReaderTwoWriters.start (FairMorrisLock.lock oneReaderTwoWriters.Tid) {})
    0 [(1,10),(0,5),(2,7),(1,15),(0,3)] rfl
  exact ⟨h,_,hr,hl,rfl,rfl,⟨rfl,rfl⟩,rfl,fun hd => by cases hd⟩

/-- Without the condition of `fairMorris_enabled` the lock can be free, with threads that
are not done and no worker that can step. -/
theorem fairMorris_deadlock : ∃ h c,
    Run (workers (FairMorrisLock.lock oneReaderTwoWriters.Tid))
      (oneReaderTwoWriters.start (FairMorrisLock.lock oneReaderTwoWriters.Tid) {}) h c ∧
    (∀ e ∈ h, ∃ i k, e.2 = .thread i k) ∧ FairMorrisLock.Free c.shared.lock ∧
    (∃ i, ¬ (c.locals i).Done) ∧
    (∀ i, ¬ (c.locals i).Done → i ∈ c.shared.lock.readCond ∨ i ∈ c.shared.lock.writeCond) ∧
    ∀ i, ¬ (workers (FairMorrisLock.lock oneReaderTwoWriters.Tid)).Enabled c i := by
  obtain ⟨h,c,hr,hl,hq,hw,hf,h₁,h₀⟩ := missed_wakeup_run
  have hs : ∀ i, (c.locals i).Done ∨ i ∈ c.shared.lock.readCond ∨ i ∈ c.shared.lock.writeCond := by
    rw [hq,hw]
    intro i
    match i with
    | 0 => exact .inr (.inl (List.mem_singleton_self _))
    | 1 => exact .inl h₁
    | 2 => exact .inr (.inr (List.mem_singleton_self _))
  refine ⟨h,c,hr,hl,hf,⟨0,h₀⟩,fun i => (hs i).resolve_left,fun i => ?_⟩
  rcases hs i with hd | hi
  · exact not_enabled_of_done hd
  · exact not_enabled_of_asleep (FairMorrisLock.inv_run (run_clients hr)) hi

end ReadersWriters
