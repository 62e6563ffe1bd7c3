import ReadersWriters.DeadlockFreedom
import ReadersWriters.FairMorrisFairness
import ReadersWriters.WorkerLift
set_option autoImplicit false

namespace ReadersWriters.FairMorrisLock
open Interleaving

/-- The ledger of the requests in a run of workers. -/
def requests (cfg : Workload) (h : List (Event cfg.Tid cfg.Tid (Disturbance cfg.Tid)
    (SimState (Shared cfg.Tid)) (Worker ReadPC WritePC))) : Ledger cfg.Tid :=
  .of (conflict cfg.isWriter) mark ((lockView (lock cfg.Tid)).history h)

/-- The bound is 0 under the kindest scheduling, as long as no wake-up is missed. -/
theorem fairMorris_fairness {cfg : Workload} {process : Process} {h c}
    (hr : Run (workers (lock cfg.Tid)) (cfg.start (lock cfg.Tid) process) h c)
    (hv : ∀ e ∈ (lockView (lock cfg.Tid)).history h,Favourable e)
    (hm : ∀ e ∈ (lockView (lock cfg.Tid)).history h,¬ MissedWakeup e) (k : cfg.Tid) :
    (requests cfg h).overtaken k = 0 := not_overtaken cfg.isWriter (run_clients hr) hv hm k

/-- A writer holds the lock, a reader and a second writer sleep. -/
def besieged : Config oneReaderTwoWriters.Tid (Shared oneReaderTwoWriters.Tid) Thread where
  shared := { readCond := [0], writeCond := [2], activeWriter := true, waitingReaders := 1,
              waitingWriters := 1 }
  locals
    | 0 => reading .lockCondWait
    | 1 => .writer .holding
    | 2 => writing .lockCondWait

def siege : List (Label oneReaderTwoWriters.Tid oneReaderTwoWriters.Tid oneReaderTwoWriters.Tid) :=
  List.replicate 7 (.thread 1 1) ++ List.replicate 4 (.thread 0 0) ++
    List.replicate 4 (.thread 2 2)

/-- The writer releases the lock and wakes the reader, which sees the second writer wait and
goes back to sleep, so that the first one can take the lock again. -/
def turn : List (Label oneReaderTwoWriters.Tid oneReaderTwoWriters.Tid oneReaderTwoWriters.Tid) :=
  List.replicate 6 (.thread 1 1) ++ List.replicate 3 (.thread 0 0) ++
    List.replicate 7 (.thread 1 1)

theorem ext_config {ι σ τ : Type} {c c' : Config ι σ τ} (hs : c.shared = c'.shared)
    (hl : ∀ i, c.locals i = c'.locals i) : c = c' := by
  obtain ⟨s,l⟩ := c
  obtain ⟨s',l'⟩ := c'
  cases hs
  cases funext hl
  rfl

theorem siege_run : (lock oneReaderTwoWriters.Tid).client.exec siege
    ((lock oneReaderTwoWriters.Tid).fresh oneReaderTwoWriters.isWriter) = some besieged := by
  obtain ⟨c,hc,hs,hl⟩ : ∃ c, (lock oneReaderTwoWriters.Tid).client.exec siege
      ((lock oneReaderTwoWriters.Tid).fresh oneReaderTwoWriters.isWriter) = some c ∧
      c.shared = besieged.shared ∧ ∀ i, c.locals i = besieged.locals i := ⟨_,rfl,rfl,by decide⟩
  rw [hc,ext_config hs hl]

/-- The reader sleeps behind a writer, whose unlock wakes it. Then the second writer asks for
the lock. -/
def handover : List (Label oneReaderTwoWriters.Tid oneReaderTwoWriters.Tid
    oneReaderTwoWriters.Tid) := turns 0 [(1,7),(0,4),(1,6),(2,2)]

/-- The request of the second writer is later than that of the reader, which is awake and
not admitted yet. -/
theorem fairMorris_fairness_witness : ∃ h c,Run (workers (lock oneReaderTwoWriters.Tid))
      (oneReaderTwoWriters.start (lock oneReaderTwoWriters.Tid) {}) h c ∧
    (∃ e ∈ (lockView (lock oneReaderTwoWriters.Tid)).history h,
      e.1.locals 1 = writing .unlockNotify ∧ e.1.shared.readCond = [0]) ∧
    (requests oneReaderTwoWriters h).slept 0 = true ∧
    (requests oneReaderTwoWriters h).later 0 2 = true ∧
    ∀ k,(requests oneReaderTwoWriters h).overtaken k = 0 := by
  have hr₀ := Run.events (m := (lock oneReaderTwoWriters.Tid).client)
    (c := (lock oneReaderTwoWriters.Tid).fresh oneReaderTwoWriters.isWriter) handover rfl
  obtain ⟨h,c,hr,hh,-⟩ := run_lift oneReaderTwoWriters {} rfl hr₀ (by decide)
  have hv : ∀ e ∈ (lockView (lock oneReaderTwoWriters.Tid)).history h,Favourable e := by
    rw [hh]
    decide
  have hm : ∀ e ∈ (lockView (lock oneReaderTwoWriters.Tid)).history h,¬ MissedWakeup e := by
    rw [hh]
    decide
  refine ⟨h,c,hr,?_,?_,?_,fairMorris_fairness hr hv hm⟩
  · rw [hh]
    decide
  · rw [requests,hh]
    decide
  · rw [requests,hh]
    decide

theorem turn_run : (lock oneReaderTwoWriters.Tid).client.exec turn besieged = some besieged := by
  obtain ⟨c,hc,hs,hl⟩ : ∃ c, (lock oneReaderTwoWriters.Tid).client.exec turn besieged = some c ∧
      c.shared = besieged.shared ∧ ∀ i, c.locals i = besieged.locals i := ⟨_,rfl,rfl,by decide⟩
  rw [hc,ext_config hs hl]

theorem turn_favourable : ∀ e ∈ (lock oneReaderTwoWriters.Tid).client.events turn besieged,
    Favourable e := by decide

theorem turn_marks : ((lock oneReaderTwoWriters.Tid).client.events turn besieged).filterMap mark =
    [(1,.enter),(1,.issue),(0,.sleep)] := by decide

theorem turn_calls :
    lockCalls ((lock oneReaderTwoWriters.Tid).client.events turn besieged) = 1 := by decide

/-- After `n` turns the sleeping writer has been overtaken `n` times. -/
theorem besieged_run (n : ℕ) : ∃ h,
    Run (lock oneReaderTwoWriters.Tid).client
      ((lock oneReaderTwoWriters.Tid).fresh oneReaderTwoWriters.isWriter) h besieged ∧
    (∀ e ∈ h,Favourable e) ∧ lockCalls h = n+3 ∧
    (Ledger.of (conflict oneReaderTwoWriters.isWriter) mark h).slept 2 = true ∧
    (Ledger.of (conflict oneReaderTwoWriters.isWriter) mark h).overtaken 2 = n := by
  induction n with
  | zero => exact ⟨_,Run.events siege siege_run,by decide,by decide,by decide,by decide⟩
  | succ n ih =>
    obtain ⟨h,hr,hv,hc,hs,ho⟩ := ih
    refine ⟨_,hr.append (Run.events turn turn_run),?_,?_,?_,?_⟩
    · exact List.forall_mem_append.mpr ⟨turn_favourable,hv⟩
    · rw [lockCalls,List.countP_append,show List.countP _ h = n+3 from hc,
        show List.countP _ _ = 1 from turn_calls]
      omega
    · rw [Ledger.of_append,turn_marks]
      exact hs
    · rw [Ledger.of_append,turn_marks]
      generalize Ledger.of (conflict oneReaderTwoWriters.isWriter) mark h = g at hs ho
      have hc : conflict oneReaderTwoWriters.isWriter 2 1 = true := by decide
      simp [Ledger.note,Function.update_apply,hs,ho,hc]

/-- With one reader and two writers there is no bound. -/
theorem fairMorris_starvation : ¬ ∃ B : ℕ,∀ (totalOps : ℤ) h c,0 ≤ totalOps →
    Run (workers (lock oneReaderTwoWriters.Tid)) (Workload.start
      { oneReaderTwoWriters with totalOps := totalOps } (lock oneReaderTwoWriters.Tid) {}) h c →
    (∀ e ∈ (lockView (lock oneReaderTwoWriters.Tid)).history h,Favourable e) →
    ∀ k : oneReaderTwoWriters.Tid,(requests oneReaderTwoWriters h).slept k = true →
      (requests oneReaderTwoWriters h).overtaken k ≤ B := by
  rintro ⟨B,hB⟩
  obtain ⟨h,hr,hv,hc,hs,ho⟩ := besieged_run (B+1)
  obtain ⟨h',c,hr',rfl,-⟩ := run_lift
    { oneReaderTwoWriters with totalOps := (B+4 : ℕ) } {} rfl hr (by simp only; omega)
  have hk := hB _ h' c (Int.natCast_nonneg _) hr' hv 2 hs
  have hk' : (requests oneReaderTwoWriters h').overtaken 2 = B+1 := ho
  omega

end ReadersWriters.FairMorrisLock
