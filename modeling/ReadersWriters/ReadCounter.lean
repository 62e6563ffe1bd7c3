import ReadersWriters.AlgoType
import ReadersWriters.Worker
import ReadersWriters.Interleaving.Tally
set_option autoImplicit false

namespace ReadersWriters
open Interleaving

namespace Worker

variable {R W : Type}

/-- What a reader has stored to `readCount_`: its completed operations, and the one in
progress from the store on. -/
def readShare : Worker R W → ℤ
  | .reader info pc => info.opsCompleted+match pc with
      | .work => 1
      | _ => 0
  | .writer _ _ _ => 0

/-- The value of `readCount_` that a reader has loaded and not stored yet. -/
def loadedReadCount : Worker R W → Option ℤ
  | .reader _ (.storeReadCount n) => some n
  | _ => none

/-- About to load `readCount_`. -/
def loadsReadCount : Worker R W → Bool
  | .reader _ (.loadReadCount _) => true
  | _ => false

/-- The thread's `opsCompleted`, if it is a reader. -/
def readerOps : Worker R W → ℤ
  | .reader info _ => info.opsCompleted
  | .writer _ _ _ => 0

end Worker

section
variable {ι S R W : Type}

/-- A reader loads `readCount_` while another is between its load and its store. -/
def OverlapsLoad (e : Event ι ι (Disturbance ι) (SimState S) (Worker R W)) : Prop :=
  match e.2 with
  | .thread i _ => (e.1.locals i).loadsReadCount = true ∧
      ∃ j, (e.1.locals j).loadedReadCount ≠ none
  | .env _ => False

instance [Fintype ι] (e : Event ι ι (Disturbance ι) (SimState S) (Worker R W)) :
    Decidable (OverlapsLoad e) :=
  match e with
  | (c,.thread i _) => inferInstanceAs (Decidable ((c.locals i).loadsReadCount = true ∧
      ∃ j, (c.locals j).loadedReadCount ≠ none))
  | (_,.env _) => isFalse id

/-- The read counter with the readers that are incrementing it. -/
def Reads [Fintype ι] (h : List (Event ι ι (Disturbance ι) (SimState S) (Worker R W)))
    (c : Config ι (SimState S) (Worker R W)) : Prop :=
  Tally c.shared.resource.readCount (fun i => (c.locals i).loadedReadCount)
    (total Worker.readShare c.locals) (∃ e ∈ h, OverlapsLoad e)

variable {L : RWLockBase ι S R W} {i w : ι} {s s' : SimState S} {t t' : Worker R W}

/-- A reader loads the counter or stores to it, or the step has nothing to do with it. -/
theorem readCount_cases (h : (workers L).act i w s t = some (s',t')) :
    (s'.resource.readCount = s.resource.readCount ∧ t'.loadedReadCount = none ∧
      t.loadedReadCount = none ∧ t'.readShare = t.readShare ∧ t.loadsReadCount = false) ∨
    (s'.resource.readCount = s.resource.readCount ∧
      t'.loadedReadCount = some s.resource.readCount ∧ t.loadedReadCount = none ∧
      t'.readShare = t.readShare ∧ t.loadsReadCount = true) ∨
    ∃ n, t.loadedReadCount = some n ∧ s'.resource.readCount = n+1 ∧ t'.loadedReadCount = none ∧
      t'.readShare = t.readShare+1 ∧ t.loadsReadCount = false := by
  replace h := workers_cases h
  cases h with
  | reader h =>
    cases h
    case loadReadCount => exact .inr (.inl ⟨rfl,rfl,rfl,rfl,rfl⟩)
    case storeReadCount n => exact .inr (.inr ⟨n,rfl,rfl,rfl,by simp [Worker.readShare],rfl⟩)
    case work => exact .inl ⟨rfl,rfl,rfl,by simp [Worker.readShare],rfl⟩
    case call p l q hs =>
      cases q <;> exact .inl ⟨rfl,rfl,rfl,by simp [Worker.readShare,ReaderAt.resume],rfl⟩
    all_goals exact .inl ⟨rfl,rfl,rfl,rfl,rfl⟩
  | writer h => cases h <;> exact .inl ⟨rfl,rfl,rfl,rfl,rfl⟩

theorem overlap_cons {c : Config ι (SimState S) (Worker R W)}
    {h : List (Event ι ι (Disturbance ι) (SimState S) (Worker R W))} :
    (∃ e ∈ (c,.thread i w) :: h, OverlapsLoad e) ↔ (∃ e ∈ h, OverlapsLoad e) ∨
      ((c.locals i).loadsReadCount = true ∧ ∃ j, (c.locals j).loadedReadCount ≠ none) :=
  (List.exists_mem_cons_iff ..).trans or_comm

end

section
variable {ι S R W : Type} [DecidableEq ι] {L : RWLockBase ι S R W} {i w : ι}
  {s' : SimState S} {t' : Worker R W} {c : Config ι (SimState S) (Worker R W)}
  {h : List (Event ι ι (Disturbance ι) (SimState S) (Worker R W))}

theorem loadedReadCount_update (l : ι → Worker R W) (t : Worker R W) :
    (fun j => (Function.update l i t j).loadedReadCount) =
      Function.update (fun j => (l j).loadedReadCount) i t.loadedReadCount := by
  funext j
  by_cases hji : j = i
  · subst hji
    simp only [Function.update_self]
  · simp only [Function.update_of_ne hji]

theorem reads_thread [Fintype ι] (hI : Reads h c)
    (ha : (workers L).act i w c.shared (c.locals i) = some (s',t')) :
    Reads ((c,.thread i w) :: h) ⟨s',Function.update c.locals i t'⟩ := by
  obtain ⟨r,hr,hu⟩ := total_split Worker.readShare c.locals i
  simp only [Reads,hr] at hI
  simp only [Reads,loadedReadCount_update,hu,overlap_cons]
  rcases readCount_cases ha with ⟨hc,ht',ht,hs,hl⟩ | ⟨hc,ht',ht,hs,hl⟩ | ⟨n,ht,hc,ht',hs,hl⟩
  · have hsame : Function.update (fun j => (c.locals j).loadedReadCount) i t'.loadedReadCount =
        fun j => (c.locals j).loadedReadCount :=
      Function.update_eq_iff.mpr ⟨ht'.trans ht.symm,fun _ _ => rfl⟩
    simpa only [hsame,hc,hs,hl,Bool.false_eq_true,false_and,or_false] using hI
  · have hload := hI.load (i := i) ht
    simpa only [hc,ht',hs,hl,true_and] using hload
  · have hstore := hI.store (i := i) ht
    simpa only [hc,ht',hs,hl,add_assoc,Bool.false_eq_true,false_and,or_false] using hstore

end

section
variable {S R W : Type} {cfg : Workload} {process : Process} {L : RWLockBase cfg.Tid S R W}
  {h : List (Event cfg.Tid cfg.Tid (Disturbance cfg.Tid) (SimState S) (Worker R W))}
  {c : Config cfg.Tid (SimState S) (Worker R W)}

theorem reads_run (hr : Run (workers L) (cfg.start L process) h c) : Reads h c := by
  induction hr with
  | start =>
    have hn : (fun i => ((cfg.start L process).locals i).loadedReadCount) = fun _ => none := by
      funext i
      simp only [Workload.start]
      split <;> rfl
    rw [Reads,total_start rfl fun _ => rfl,hn]
    simpa [Workload.start] using Tally.start
  | @step h c c' l _ hn ih =>
    cases l with
    | thread i k =>
      obtain ⟨s',t',ha,rfl⟩ := Machine.next_thread.mp hn
      exact reads_thread ih ha
    | env e =>
      obtain ⟨s',he,rfl⟩ := Machine.next_env.mp hn
      have hres := (disturbance_keeps he).2
      simpa [Reads,hres,OverlapsLoad] using ih

theorem readShare_of_done {t : Worker R W} (h : t.Done) :
    t.loadedReadCount = none ∧ t.readShare = t.readerOps := by
  cases t with
  | reader info pc =>
    cases h
    exact ⟨rfl,by simp [Worker.readShare,Worker.readerOps]⟩
  | writer info b pc => exact ⟨rfl,rfl⟩

end

section
variable {algo : AlgoType} {cfg : Workload} {process : Process}
  {h : List (Event cfg.Tid cfg.Tid (Disturbance cfg.Tid) (SimState (algo.Shared cfg.Tid))
    (Worker algo.ReadPC algo.WritePC))}
  {c : Config cfg.Tid (SimState (algo.Shared cfg.Tid)) (Worker algo.ReadPC algo.WritePC)}

/-- The read counter ends up exact if and only if no reader has loaded it between the load
and the store of another: none of the locks sees to that. -/
theorem reads_counted
    (hr : Run (workers (algo.lock cfg.Tid)) (cfg.start (algo.lock cfg.Tid) process) h c)
    (hd : ∀ i, (c.locals i).Done) :
    c.shared.resource.readCount = ∑ i, (c.locals i).readerOps ↔ ∀ e ∈ h, ¬ OverlapsLoad e := by
  have hsum : total Worker.readShare c.locals = ∑ i, (c.locals i).readerOps :=
    Finset.sum_congr rfl fun i _ => (readShare_of_done (hd i)).2
  rw [← hsum,(reads_run hr).value_eq fun i => (readShare_of_done (hd i)).1]
  simp only [not_exists,not_and]

end

/-- Two readers share two operations. -/
abbrev twoReaders : Workload := { numReaders := 2, numWriters := 0, totalOps := 2 }

/-- Both readers are inside together and count one after the other. -/
theorem reads_counted_witness : ∃ h c,
    Run (workers (AlgoType.FAIR_MORRIS.lock twoReaders.Tid))
      (twoReaders.start (AlgoType.FAIR_MORRIS.lock twoReaders.Tid) {}) h c ∧
    c.shared.resource.readCount = ∑ i, (c.locals i).readerOps := by
  let ls : List (Label twoReaders.Tid twoReaders.Tid (Disturbance twoReaders.Tid)) :=
    turns 0 [(1,9),(0,11),(1,10),(0,9)]
  obtain ⟨h,c,hr,hd,hn⟩ : ∃ h c,
      Run (workers (AlgoType.FAIR_MORRIS.lock twoReaders.Tid))
        (twoReaders.start (AlgoType.FAIR_MORRIS.lock twoReaders.Tid) {}) h c ∧
      (∀ i, (c.locals i).Done) ∧ ∀ e ∈ h, ¬ OverlapsLoad e :=
    ⟨_,_,Run.events ls rfl,Fin.forall_fin_two.mpr ⟨rfl,rfl⟩,by decide⟩
  exact ⟨h,c,hr,(reads_counted hr hd).mpr hn⟩

/-- In each of the locks two readers inside together can lose one of their two reads. -/
theorem both_counting (algo : AlgoType) : ∃ h c,
    Run (workers (algo.lock twoReaders.Tid)) (twoReaders.start (algo.lock twoReaders.Tid) {}) h c ∧
    (∀ i, (c.locals i).Done) ∧ c.shared.resource.readCount = 1 ∧
    ∑ i, (c.locals i).readerOps = 2 := by
  cases algo with
  | READER_PRIORITY =>
    obtain ⟨h,hr,-⟩ := Run.of_exec (m := workers (ReaderPriorityLock.lock twoReaders.Tid))
      (c := twoReaders.start (ReaderPriorityLock.lock twoReaders.Tid) {})
      (turns 0 [(0,10),(1,9),(0,9),(1,10)]) rfl
    exact ⟨h,_,hr,Fin.forall_fin_two.mpr ⟨rfl,rfl⟩,rfl,rfl⟩
  | WRITER_PRIORITY =>
    obtain ⟨h,hr,-⟩ := Run.of_exec (m := workers (WriterPriorityLock.lock twoReaders.Tid))
      (c := twoReaders.start (WriterPriorityLock.lock twoReaders.Tid) {})
      (turns 0 [(0,14),(1,13),(0,9),(1,10)]) rfl
    exact ⟨h,_,hr,Fin.forall_fin_two.mpr ⟨rfl,rfl⟩,rfl,rfl⟩
  | FAIR_MORRIS =>
    obtain ⟨h,hr,-⟩ := Run.of_exec (m := workers (FairMorrisLock.lock twoReaders.Tid))
      (c := twoReaders.start (FairMorrisLock.lock twoReaders.Tid) {})
      (turns 0 [(0,10),(1,10),(0,9),(1,10)]) rfl
    exact ⟨h,_,hr,Fin.forall_fin_two.mpr ⟨rfl,rfl⟩,rfl,rfl⟩

theorem read_lost : ∃ h c,
    Run (workers (AlgoType.FAIR_MORRIS.lock twoReaders.Tid))
      (twoReaders.start (AlgoType.FAIR_MORRIS.lock twoReaders.Tid) {}) h c ∧
    (∀ i, (c.locals i).Done) ∧
    c.shared.resource.readCount ≠ ∑ i, (c.locals i).readerOps := by
  obtain ⟨h,c,hr,hd,hc,hs⟩ := both_counting .FAIR_MORRIS
  exact ⟨h,c,hr,hd,by rw [hc,hs]; decide⟩

end ReadersWriters
