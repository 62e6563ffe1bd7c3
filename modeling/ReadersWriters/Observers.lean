import ReadersWriters.AlgoType
set_option autoImplicit false

namespace ReadersWriters
open Interleaving

namespace ReaderPriorityLock

/-- Writers between setting and clearing `writerActive_`. -/
def active : List Thread := [writing .lockActive,.writer .holding,writing .unlockClearActive]

section
variable {ι : Type} {i w : ι} {s s' : Shared} {t t' : Thread}

theorem active_step (h : (lock ι).client.act i w s t = some (s',t'))
    (hs : s'.writerActive = true) : t' ∈ active ∨ s.writerActive = true ∧ t ∉ active := by
  rcases RWLockBase.client_cases h with ⟨rfl,hc⟩ | ⟨p,q,rfl,rfl,hp⟩ | ⟨p,q,rfl,rfl,hp⟩
  · cases hc
    case writeUnlock => exact .inl (show writing .unlockClearActive ∈ active by decide)
    all_goals exact .inr ⟨hs,by decide⟩
  · refine .inr ⟨?_,by simp [active]⟩
    cases readStep_cases hp <;> exact hs
  · cases writeStep_cases hp
    case unlockClearActive => cases hs
    case lockSetActive | lockActive => exact .inl (by decide)
    all_goals exact .inr ⟨hs,by decide⟩

end

theorem mem_active {t : Thread} (h : t ∈ active) : phase t = .opponent := by
  simp only [active,List.mem_cons,List.not_mem_nil,or_false] at h
  rcases h with rfl | rfl | rfl <;> rfl

theorem phase_first {t : Thread} : phase t = .first ↔ t = reading .lockWrtWait := by
  match t with
  | .reader (.inside p) => cases p <;> decide
  | .writer (.inside p) => cases p <;> decide
  | .reader .idle | .reader .holding | .writer .idle | .writer .holding => decide

section
variable {ι : Type} [DecidableEq ι] {isWriter : ι → Bool} {c : Config ι Shared Thread}
  {h : List (Event ι ι ι Shared Thread)}

theorem active_run (hr : Run (lock ι).client ((lock ι).fresh isWriter) h c)
    (ha : c.shared.writerActive = true) : ∃ i, c.locals i ∈ active :=
  hr.witnessed (F := fun s => s.writerActive = true) (P := (· ∈ active))
    (by simp [RWLockBase.fresh,lock]) (fun _ _ _ _ _ _ => active_step)
    (fun _ _ _ he => by cases he) ha

/-- While a writer is active the reader count is that of a first reader waiting at `wrt_`. -/
theorem readerCount_active [Fintype ι]
    (hr : Run (lock ι).client ((lock ι).fresh isWriter) h c)
    (ha : c.shared.writerActive = true) : c.shared.readCount ≤ 1 ∧
      (0 < c.shared.readCount ↔ ∃ i, c.locals i = reading .lockWrtWait) ∧
      ∀ i, ¬ (lock ι).HoldsRead (c.locals i) := by
  have hI := inv_run hr
  obtain ⟨i,hi⟩ := active_run hr ha
  obtain ⟨hle,hpos⟩ := Lightswitch.count_opponent (c := ⟨store c.shared,phase ∘ c.locals⟩) hI
    (i := i) (mem_active hi)
  refine ⟨hle,hpos.trans (exists_congr fun j => phase_first),fun j hj => ?_⟩
  obtain ⟨hc,hf⟩ := holdsRead_counted hj
  exact hf (Lightswitch.opponent_excluded (c := ⟨store c.shared,phase ∘ c.locals⟩) hI
    (i := i) (mem_active hi) hc)

end

end ReaderPriorityLock

namespace WriterPriorityLock

/-- Writers between setting and clearing `writerActive_`. -/
def active : List Thread := [writing .lockActive,.writer .holding,writing .unlockClearActive]

section
variable {ι : Type} {i w : ι} {s s' : Shared} {t t' : Thread}

theorem active_step (h : (lock ι).client.act i w s t = some (s',t'))
    (hs : s'.writerActive = true) : t' ∈ active ∨ s.writerActive = true ∧ t ∉ active := by
  rcases RWLockBase.client_cases h with ⟨rfl,hc⟩ | ⟨p,q,rfl,rfl,hp⟩ | ⟨p,q,rfl,rfl,hp⟩
  · cases hc
    case writeUnlock => exact .inl (show writing .unlockClearActive ∈ active by decide)
    all_goals exact .inr ⟨hs,by decide⟩
  · refine .inr ⟨?_,by simp [active]⟩
    cases readStep_cases hp <;> exact hs
  · cases writeStep_cases hp
    case unlockClearActive => cases hs
    case lockSetActive | lockActive => exact .inl (by decide)
    all_goals exact .inr ⟨hs,by decide⟩

end

theorem mem_active {t : Thread} (h : t ∈ active) :
    readPhase t = .opponent ∧ writePhase t = .inside := by
  simp only [active,List.mem_cons,List.not_mem_nil,or_false] at h
  rcases h with rfl | rfl | rfl <;> exact ⟨rfl,rfl⟩

/-- The first reader waits at `wrt_` with `rsem_` in its hands. -/
theorem readPhase_first {t : Thread} (h : readPhase t = .first) : writePhase t = .opponent := by
  match t with
  | .reader (.inside p) =>
    cases p
    case lockWrtWait => rfl
    all_goals cases h
  | .writer (.inside p) => cases p <;> cases h
  | .reader .idle | .reader .holding | .writer .idle | .writer .holding => cases h

section
variable {ι : Type} [DecidableEq ι] {isWriter : ι → Bool} {c : Config ι Shared Thread}
  {h : List (Event ι ι ι Shared Thread)}

theorem active_run (hr : Run (lock ι).client ((lock ι).fresh isWriter) h c)
    (ha : c.shared.writerActive = true) : ∃ i, c.locals i ∈ active :=
  hr.witnessed (F := fun s => s.writerActive = true) (P := (· ∈ active))
    (by simp [RWLockBase.fresh,lock]) (fun _ _ _ _ _ _ => active_step)
    (fun _ _ _ he => by cases he) ha

/-- A first reader at `wrt_` would have passed `rsem_`, which the writers hold. -/
theorem readerCount_active [Fintype ι]
    (hr : Run (lock ι).client ((lock ι).fresh isWriter) h c)
    (ha : c.shared.writerActive = true) : c.shared.readCount ≤ 0 := by
  have hI := inv_run hr
  obtain ⟨i,hi⟩ := active_run hr ha
  obtain ⟨hr,hw⟩ := mem_active hi
  obtain ⟨-,hpos⟩ := Lightswitch.count_opponent (c := ⟨readStore c.shared,readPhase ∘ c.locals⟩)
    hI.readers (i := i) hr
  by_contra hn
  obtain ⟨j,hj⟩ := hpos.mp (not_le.mp hn)
  have hf := Lightswitch.opponent_excluded (c := ⟨writeStore c.shared,writePhase ∘ c.locals⟩)
    hI.writers (i := j) (j := i) (readPhase_first hj) (by simp [hw,Lightswitch.counted])
  cases hw.symm.trans hf

end

end WriterPriorityLock

namespace FairMorrisLock

theorem readerCount_active {ι : Type} [Fintype ι] {c : Config ι (Shared ι) Thread}
    (hI : Counted c) (ha : c.shared.activeWriter = true) : c.shared.activeReaders = 0 := by
  obtain ⟨-,hr,hw,-,-,he,-,-⟩ := hI
  rw [ha,Bool.toNat_true] at hw
  omega

end FairMorrisLock

/-- The observers of two of the locks never contradict each other. Those of the third do so
exactly while a first reader, already counted, waits for the active writer at `wrt_`. -/
theorem observers_consistent {ι : Type} [Fintype ι] [DecidableEq ι] {isWriter : ι → Bool} :
    (∀ h c, Run (ReaderPriorityLock.lock ι).client
        ((ReaderPriorityLock.lock ι).fresh isWriter) h c →
      (ReaderPriorityLock.lock ι).writerActive c.shared = true →
      (ReaderPriorityLock.lock ι).readerCount c.shared ≤ 1 ∧
      (0 < (ReaderPriorityLock.lock ι).readerCount c.shared ↔
        ∃ i, c.locals i = ReaderPriorityLock.reading .lockWrtWait) ∧
      ∀ i, ¬ (ReaderPriorityLock.lock ι).HoldsRead (c.locals i)) ∧
    (∀ h c, Run (WriterPriorityLock.lock ι).client
        ((WriterPriorityLock.lock ι).fresh isWriter) h c →
      ¬ ((WriterPriorityLock.lock ι).writerActive c.shared = true ∧
        0 < (WriterPriorityLock.lock ι).readerCount c.shared)) ∧
    ∀ h c, Run (FairMorrisLock.lock ι).client ((FairMorrisLock.lock ι).fresh isWriter) h c →
      ¬ ((FairMorrisLock.lock ι).writerActive c.shared = true ∧
        0 < (FairMorrisLock.lock ι).readerCount c.shared) := by
  refine ⟨fun h c hr ha => ReaderPriorityLock.readerCount_active hr ha,fun h c hr => ?_,
    fun h c hr => ?_⟩
  · rintro ⟨ha,hp⟩
    exact absurd hp (not_lt.mpr (WriterPriorityLock.readerCount_active hr ha))
  · rintro ⟨ha,hp⟩
    exact hp.ne' (FairMorrisLock.readerCount_active (FairMorrisLock.counted_run hr) ha)

/-- In each lock a writer is active while a reader is after the lock. -/
theorem observers_consistent_witness :
    (∃ h c, Run (ReaderPriorityLock.lock (Fin 2)).client
        ((ReaderPriorityLock.lock (Fin 2)).fresh (· = 1)) h c ∧
      (ReaderPriorityLock.lock (Fin 2)).writerActive c.shared = true ∧
      0 < (ReaderPriorityLock.lock (Fin 2)).readerCount c.shared ∧
      ∀ i, ¬ (ReaderPriorityLock.lock (Fin 2)).HoldsRead (c.locals i)) ∧
    (∃ h c, Run (WriterPriorityLock.lock (Fin 2)).client
        ((WriterPriorityLock.lock (Fin 2)).fresh (· = 1)) h c ∧
      c.locals 0 = WriterPriorityLock.reading .lockRsemWait ∧
      (WriterPriorityLock.lock (Fin 2)).writerActive c.shared = true ∧
      (WriterPriorityLock.lock (Fin 2)).readerCount c.shared ≤ 0) ∧
    ∃ h c, Run (FairMorrisLock.lock (Fin 2)).client
        ((FairMorrisLock.lock (Fin 2)).fresh (· = 1)) h c ∧
      c.locals 0 = FairMorrisLock.reading .lockCondWait ∧
      (FairMorrisLock.lock (Fin 2)).writerActive c.shared = true ∧
      (FairMorrisLock.lock (Fin 2)).readerCount c.shared ≤ 0 := by
  obtain ⟨hR,hW,hF⟩ := @observers_consistent (Fin 2) _ _ (· = 1)
  refine ⟨?_,?_,?_⟩
  · obtain ⟨h,hr,-⟩ := Run.of_exec (m := (ReaderPriorityLock.lock (Fin 2)).client)
      (c := (ReaderPriorityLock.lock (Fin 2)).fresh (· = 1))
      (turns 0 [(1,5),(0,4)]) rfl
    obtain ⟨-,hc,hn⟩ := hR _ _ hr rfl
    exact ⟨h,_,hr,rfl,hc.mpr ⟨0,rfl⟩,hn⟩
  · obtain ⟨h,hr,-⟩ := Run.of_exec (m := (WriterPriorityLock.lock (Fin 2)).client)
      (c := (WriterPriorityLock.lock (Fin 2)).fresh (· = 1))
      (turns 0 [(1,9),(0,3)]) rfl
    exact ⟨h,_,hr,rfl,rfl,not_lt.mp fun hp => hW _ _ hr ⟨rfl,hp⟩⟩
  · obtain ⟨h,hr,-⟩ := Run.of_exec (m := (FairMorrisLock.lock (Fin 2)).client)
      (c := (FairMorrisLock.lock (Fin 2)).fresh (· = 1))
      (turns 0 [(1,7),(0,4)]) rfl
    exact ⟨h,_,hr,rfl,rfl,not_lt.mp fun hp => hF _ _ hr ⟨rfl,hp⟩⟩

/-- The first reader has counted itself and waits for the active writer. -/
theorem observers_contradict : ∃ h c,
    Run (ReaderPriorityLock.lock (Fin 2)).client
      ((ReaderPriorityLock.lock (Fin 2)).fresh (· = 1)) h c ∧
    (ReaderPriorityLock.lock (Fin 2)).writerActive c.shared = true ∧
    0 < (ReaderPriorityLock.lock (Fin 2)).readerCount c.shared := by
  obtain ⟨h,hr,-⟩ := Run.of_exec (m := (ReaderPriorityLock.lock (Fin 2)).client)
    (c := (ReaderPriorityLock.lock (Fin 2)).fresh (· = 1))
    (turns 0 [(1,5),(0,4)]) rfl
  exact ⟨h,_,hr,rfl,by decide⟩

end ReadersWriters
