import ReadersWriters.AlgoType
import ReadersWriters.Worker
set_option autoImplicit false

namespace ReadersWriters
open Interleaving

namespace Worker

variable {R W : Type}

/-- What a writer adds to `data_`: its completed operations, and the one in progress
from the store on. -/
def dataShare : Worker R W → ℤ
  | .reader _ _ => 0
  | .writer info _ pc => info.opsCompleted+match pc with
      | .loadWriteCount | .storeWriteCount _ | .work => 1
      | _ => 0

/-- The same for `writeCount_`. -/
def writeShare : Worker R W → ℤ
  | .reader _ _ => 0
  | .writer info _ pc => info.opsCompleted+match pc with
      | .work => 1
      | _ => 0

/-- Between the load and the store of `++data_` or `++writeCount_` the loaded value is
still the one in memory. -/
def Loaded (res : SharedResource) : Worker R W → Prop
  | .writer _ _ (.storeData n) => n = res.data
  | .writer _ _ (.storeWriteCount n) => n = res.writeCount
  | _ => True

/-- The thread's `opsCompleted`, if it is a writer. -/
def writerOps : Worker R W → ℤ
  | .reader _ _ => 0
  | .writer info _ _ => info.opsCompleted

/-- About to store to `data_`. -/
def storesData : Worker R W → Bool
  | .writer _ _ (.storeData _) => true
  | _ => false

def storesWriteCount : Worker R W → Bool
  | .writer _ _ (.storeWriteCount _) => true
  | _ => false

end Worker

section
variable {ι S R W : Type}

def isStore (e : Event ι ι (Disturbance ι) (SimState S) (Worker R W)) : Bool :=
  match e.2 with
  | .thread i _ => (e.1.locals i).storesData
  | .env _ => false

/-- The number of stores to `data_` so far. -/
def stores (h : List (Event ι ι (Disturbance ι) (SimState S) (Worker R W))) : ℕ :=
  h.countP isStore

variable [Fintype ι]

structure DataInv (h : List (Event ι ι (Disturbance ι) (SimState S) (Worker R W)))
    (c : Config ι (SimState S) (Worker R W)) : Prop where
  data : c.shared.resource.data = total Worker.dataShare c.locals
  writeCount : c.shared.resource.writeCount = total Worker.writeShare c.locals
  stores : c.shared.resource.data = stores h
  loaded : ∀ i, (c.locals i).Loaded c.shared.resource

end

section
variable {ι S R W : Type} {L : RWLockBase ι S R W} {i w : ι} {s s' : SimState S}
  {t t' : Worker R W}

/-- A step that stores to neither counter. -/
theorem quiet_step (h : (workers L).act i w s t = some (s',t')) (hd : t.storesData = false)
    (hw : t.storesWriteCount = false) :
    s'.resource.data = s.resource.data ∧ s'.resource.writeCount = s.resource.writeCount ∧
    t'.dataShare = t.dataShare ∧ t'.writeShare = t.writeShare ∧ t'.Loaded s'.resource := by
  replace h := workers_cases h
  cases h with
  | reader h => cases h <;> exact ⟨rfl,rfl,rfl,rfl,trivial⟩
  | writer h =>
    cases h
    case storeData => cases hd
    case storeWriteCount => cases hw
    case work => exact ⟨rfl,rfl,by simp [Worker.dataShare],by simp [Worker.writeShare],trivial⟩
    case call a p l q hs =>
      cases q with
      | idle => cases a <;> exact ⟨rfl,rfl,by simp [Worker.dataShare,WriterAt.resume],
          by simp [Worker.writeShare,WriterAt.resume],trivial⟩
      | inside q => exact ⟨rfl,rfl,by simp [Worker.dataShare,WriterAt.resume],
          by simp [Worker.writeShare,WriterAt.resume],trivial⟩
      | holding => exact ⟨rfl,rfl,by simp [Worker.dataShare,WriterAt.resume],
          by simp [Worker.writeShare,WriterAt.resume],trivial⟩
    case loadData | loadWriteCount => exact ⟨rfl,rfl,rfl,rfl,rfl⟩
    all_goals exact ⟨rfl,rfl,rfl,rfl,trivial⟩

theorem loaded_of_not_holding {res : SharedResource} (h : t.client ≠ .writer .holding) :
    t.Loaded res := by
  match t with
  | .reader _ _ => trivial
  | .writer _ _ pc => cases pc <;> trivial

theorem loaded_congr {res res' : SharedResource} (hd : res'.data = res.data)
    (hw : res'.writeCount = res.writeCount) (h : t.Loaded res) : t.Loaded res' := by
  match t with
  | .reader _ _ => trivial
  | .writer _ _ pc =>
    cases pc
    case storeData => exact Eq.trans h hd.symm
    case storeWriteCount => exact Eq.trans h hw.symm
    all_goals trivial

variable {c : Config ι (SimState S) (Worker R W)}
  {h : List (Event ι ι (Disturbance ι) (SimState S) (Worker R W))}

theorem stores_cons : stores ((c,.thread i w) :: h) =
    if (c.locals i).storesData then stores h+1 else stores h := by
  simp only [stores,List.countP_cons,isStore]
  split <;> rename_i hs <;> simp [hs]

variable [DecidableEq ι]

/-- While a writer that holds the lock stores, no other thread is between a load and a store. -/
theorem loaded_other (hex : L.Exclusive ((lockView L).view c)) {res : SharedResource} {j : ι}
    (hi : (c.locals i).client = .writer .holding) (hji : j ≠ i) : (c.locals j).Loaded res := by
  refine loaded_of_not_holding fun hj => ?_
  have hx := hex i j hji.symm (by rw [lockView_locals,hi]; trivial)
  exact hx.1 (by rw [lockView_locals,hj]; trivial)

theorem loaded_update {res : SharedResource} (h : t'.Loaded res)
    (ho : ∀ j, j ≠ i → (c.locals j).Loaded res) (j : ι) :
    (Function.update c.locals i t' j).Loaded res := by
  by_cases hji : j = i
  · subst hji
    simpa only [Function.update_self] using h
  · simpa only [Function.update_of_ne hji] using ho j hji

variable [Fintype ι]

theorem dataInv_quiet (hI : DataInv h c)
    (ha : (workers L).act i w c.shared (c.locals i) = some (s',t'))
    (hsd : (c.locals i).storesData = false) (hsw : (c.locals i).storesWriteCount = false) :
    DataInv ((c,.thread i w) :: h) ⟨s',Function.update c.locals i t'⟩ := by
  obtain ⟨hd,hw,hs,hl⟩ := hI
  obtain ⟨hd',hw',hds,hws,hld⟩ := quiet_step ha hsd hsw
  obtain ⟨r,hr,hu⟩ := total_split Worker.dataShare c.locals i
  obtain ⟨r',hr',hu'⟩ := total_split Worker.writeShare c.locals i
  refine ⟨?_,?_,?_,loaded_update hld fun j _ => ?_⟩
  · simp only [hu,hds,hd',hd,hr]
  · simp only [hu',hws,hw',hw,hr']
  · simp only [hd',hs,stores_cons,hsd,Bool.false_eq_true,if_false]
  · exact loaded_congr hd' hw' (hl j)

theorem dataInv_storeData (hex : L.Exclusive ((lockView L).view c)) (hI : DataInv h c)
    {info : ThreadInfo} {b : Bool} {n : Int} (ht : c.locals i = .writer info b (.storeData n)) :
    DataInv ((c,.thread i w) :: h)
      ⟨{ c.shared with resource := { c.shared.resource with data := n+1 } },
        Function.update c.locals i (.writer info b .loadWriteCount)⟩ := by
  obtain ⟨hd,hw,hs,hl⟩ := hI
  obtain ⟨r,hr,hu⟩ := total_split Worker.dataShare c.locals i
  obtain ⟨r',hr',hu'⟩ := total_split Worker.writeShare c.locals i
  have hn : n = c.shared.resource.data := by
    have hi := hl i
    rwa [ht] at hi
  rw [ht] at hr hr'
  refine ⟨?_,?_,?_,loaded_update trivial fun j hj => loaded_other hex (by rw [ht]; rfl) hj⟩
  · simp only [hu,hn,hd,hr,Worker.dataShare]
    omega
  · simp only [hu',hw,hr',Worker.writeShare]
  · simp only [hn,hs,stores_cons,ht,Worker.storesData,if_true,Nat.cast_succ]

theorem dataInv_storeWriteCount (hex : L.Exclusive ((lockView L).view c)) (hI : DataInv h c)
    {info : ThreadInfo} {b : Bool} {n : Int}
    (ht : c.locals i = .writer info b (.storeWriteCount n)) :
    DataInv ((c,.thread i w) :: h)
      ⟨{ c.shared with resource := { c.shared.resource with writeCount := n+1 } },
        Function.update c.locals i (.writer info b .work)⟩ := by
  obtain ⟨hd,hw,hs,hl⟩ := hI
  obtain ⟨r,hr,hu⟩ := total_split Worker.dataShare c.locals i
  obtain ⟨r',hr',hu'⟩ := total_split Worker.writeShare c.locals i
  have hn : n = c.shared.resource.writeCount := by
    have hi := hl i
    rwa [ht] at hi
  rw [ht] at hr hr'
  refine ⟨?_,?_,?_,loaded_update trivial fun j hj => loaded_other hex (by rw [ht]; rfl) hj⟩
  · simp only [hu,hd,hr,Worker.dataShare]
  · simp only [hu',hn,hw,hr',Worker.writeShare]
    omega
  · simp only [hs,stores_cons,ht,Worker.storesData,Bool.false_eq_true,if_false]

theorem dataInv_thread (hex : L.Exclusive ((lockView L).view c)) (hI : DataInv h c)
    (ha : (workers L).act i w c.shared (c.locals i) = some (s',t')) :
    DataInv ((c,.thread i w) :: h) ⟨s',Function.update c.locals i t'⟩ := by
  cases ht : c.locals i with
  | reader info pc => exact dataInv_quiet hI ha (by rw [ht]; rfl) (by rw [ht]; rfl)
  | writer info b pc =>
    cases pc
    case storeData n =>
      rw [ht] at ha
      cases ha
      exact dataInv_storeData hex hI ht
    case storeWriteCount n =>
      rw [ht] at ha
      cases ha
      exact dataInv_storeWriteCount hex hI ht
    all_goals exact dataInv_quiet hI ha (by rw [ht]; rfl) (by rw [ht]; rfl)

end

section
variable {S R W : Type} {cfg : Workload} {process : Process} {L : RWLockBase cfg.Tid S R W}
  {h : List (Event cfg.Tid cfg.Tid (Disturbance cfg.Tid) (SimState S) (Worker R W))}
  {c : Config cfg.Tid (SimState S) (Worker R W)}

theorem dataInv_start : DataInv [] (cfg.start L process) where
  data := (total_start rfl fun _ => rfl).symm
  writeCount := (total_start rfl fun _ => rfl).symm
  stores := rfl
  loaded i := by
    simp only [Workload.start]
    split <;> trivial

theorem dataInv_run (hex : ∀ h c, Run (workers L) (cfg.start L process) h c →
    L.Exclusive ((lockView L).view c)) (hr : Run (workers L) (cfg.start L process) h c) :
    DataInv h c := by
  induction hr with
  | start => exact dataInv_start
  | @step h c c' l hr hn ih =>
    cases l with
    | thread i k =>
      obtain ⟨s',t',ha,rfl⟩ := Machine.next_thread.mp hn
      exact dataInv_thread (hex h c hr) ih ha
    | env e =>
      obtain ⟨s',he,rfl⟩ := Machine.next_env.mp hn
      have hres := (disturbance_keeps he).2
      obtain ⟨hd,hw,hs,hl⟩ := ih
      exact ⟨by simp only [hres,hd],by simp only [hres,hw],
        by simp only [hres,hs,stores,List.countP_cons,isStore]; rfl,by simpa only [hres] using hl⟩

/-- With no writer between its lock and its unlock call nothing is in progress. -/
theorem shares_of_quiet {t : Worker R W} (h : t.client ≠ .writer .holding) :
    t.dataShare = t.writerOps ∧ t.writeShare = t.writerOps := by
  match t with
  | .reader _ _ => exact ⟨rfl,rfl⟩
  | .writer info b pc =>
    cases pc <;> first
      | exact absurd rfl h
      | simp [Worker.dataShare,Worker.writeShare,Worker.writerOps]

theorem holding_of_storesData {t : Worker R W} (h : t.storesData = true) :
    t.client = .writer .holding := by
  match t with
  | .writer _ _ (.storeData _) => rfl

end

section
variable {algo : AlgoType} {cfg : Workload} {process : Process}
  {h : List (Event cfg.Tid cfg.Tid (Disturbance cfg.Tid) (SimState (algo.Shared cfg.Tid))
    (Worker algo.ReadPC algo.WritePC))}
  {c : Config cfg.Tid (SimState (algo.Shared cfg.Tid)) (Worker algo.ReadPC algo.WritePC)}

theorem workers_exclusive
    (hr : Run (workers (algo.lock cfg.Tid)) (cfg.start (algo.lock cfg.Tid) process) h c) :
    (algo.lock cfg.Tid).Exclusive ((lockView (algo.lock cfg.Tid)).view c) := by
  have hv := (lockView (algo.lock cfg.Tid)).run hr
  rw [lockView_start] at hv
  exact AlgoType.exclusive hv

/-- No write is lost and no read is torn, over each of the three locks. -/
theorem data_integrity
    (hr : Run (workers (algo.lock cfg.Tid)) (cfg.start (algo.lock cfg.Tid) process) h c) :
    ((∀ i, (c.locals i).client ≠ .writer .holding) →
      c.shared.resource.data = c.shared.resource.writeCount ∧
      c.shared.resource.data = ∑ i, (c.locals i).writerOps) ∧
    ((∀ i, (c.locals i).Done) →
      c.shared.resource.data = c.shared.resource.writeCount ∧
      c.shared.resource.data = ∑ i, (c.locals i).writerOps) ∧
    (∀ i w info, c.locals i = .reader info .read →
      readerThread (algo.lock cfg.Tid) i w c.shared info .read =
        some (c.shared,info,.loadReadCount (stores h))) ∧
    ∀ i, (algo.lock cfg.Tid).HoldsRead (c.locals i).client →
      ∀ j, (c.locals j).storesData = false := by
  have hI := dataInv_run (fun _ _ => workers_exclusive) hr
  have hq : (∀ i, (c.locals i).client ≠ .writer .holding) →
      c.shared.resource.data = c.shared.resource.writeCount ∧
      c.shared.resource.data = ∑ i, (c.locals i).writerOps := by
    intro hn
    have hd : c.shared.resource.data = ∑ i, (c.locals i).writerOps :=
      hI.data.trans (Finset.sum_congr rfl fun i _ => (shares_of_quiet (hn i)).1)
    have hw : c.shared.resource.writeCount = ∑ i, (c.locals i).writerOps :=
      hI.writeCount.trans (Finset.sum_congr rfl fun i _ => (shares_of_quiet (hn i)).2)
    exact ⟨hd.trans hw.symm,hd⟩
  refine ⟨hq,fun hd => hq fun i hi => ?_,fun i w info _ => ?_,fun i hi j => ?_⟩
  · rcases not_blocked_of_done (L := algo.lock cfg.Tid) (hd i) with hc | hc <;>
      rw [lockView_locals,hi] at hc <;> cases hc
  · simp only [readerThread,hI.stores]
  · by_contra hj
    have hj := holding_of_storesData (Bool.eq_true_of_not_eq_false hj)
    have hji : j ≠ i := by
      rintro rfl
      rw [hj] at hi
      exact hi
    have hx := workers_exclusive hr j i hji (by rw [lockView_locals,hj]; trivial)
    exact hx.2 hi

end

/-- The writer has been through, and the reader is about to read. -/
theorem data_integrity_witness : ∃ h c,
    Run (workers (AlgoType.WRITER_PRIORITY.lock (oneOfEach 2 false).Tid))
      ((oneOfEach 2 false).start (AlgoType.WRITER_PRIORITY.lock (oneOfEach 2 false).Tid) {}) h c ∧
    c.locals 0 = .reader { state := .ACTIVE } .read ∧ stores h = 1 ∧
    c.shared.resource.data = ∑ i, (c.locals i).writerOps := by
  obtain ⟨h,c,hr,h₀,h₁,hd⟩ : ∃ h c,
      Run (workers (AlgoType.WRITER_PRIORITY.lock (oneOfEach 2 false).Tid))
        ((oneOfEach 2 false).start (AlgoType.WRITER_PRIORITY.lock (oneOfEach 2 false).Tid) {}) h c ∧
      c.locals 0 = .reader { state := .ACTIVE } .read ∧
      (c.locals 1).client = .writer .idle ∧ c.shared.resource.data = 1 := by
    obtain ⟨h,hr,-⟩ := Run.of_exec (m := workers (AlgoType.WRITER_PRIORITY.lock (oneOfEach 2 false).Tid))
      (c := (oneOfEach 2 false).start (AlgoType.WRITER_PRIORITY.lock (oneOfEach 2 false).Tid) {})
      (turns 0 [(1,25),(0,12)]) rfl
    exact ⟨h,_,hr,rfl,rfl,rfl⟩
  obtain ⟨hq,-,hv,-⟩ := data_integrity hr
  refine ⟨h,c,hr,h₀,?_,(hq (Fin.forall_fin_two.mpr ⟨?_,?_⟩)).2⟩
  · have hs := hv 0 0 _ h₀
    simp only [readerThread,hd,Option.some.injEq,Prod.mk.injEq,ReaderAt.loadReadCount.injEq,
      true_and] at hs
    exact_mod_cast hs.symm
  · simp [h₀,Worker.client]
  · simp [h₁]

end ReadersWriters
