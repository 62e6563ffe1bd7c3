import Mathlib.Algebra.Order.Field.Rat
import Mathlib.Data.List.ReduceOption
import ReadersWriters.SimConfig
import ReadersWriters.Statistics.JainIndex
set_option autoImplicit false

namespace ReadersWriters
open Statistics

/-- The part of a `ThreadInfo` that the metrics read. -/
structure ThreadTotals where
  type : ThreadType := .READER
  totalWaitMs : Int := 0
  opsCompleted : Int := 0
  starveCount : Int := 0
  deriving DecidableEq, Repr

/-- The same thread with `k` times as many operations. -/
def ThreadTotals.scale (k : Int) (t : ThreadTotals) : ThreadTotals :=
  { t with opsCompleted := k*t.opsCompleted }

structure MetricsResult where
  algo : AlgoType
  numReaders : Int
  numWriters : Int
  totalOps : Int
  avgReaderWaitMs : ℚ
  avgWriterWaitMs : ℚ
  throughputOpsPerSec : ℚ
  jainsFairnessIndex : ℚ
  starvationCount : Int
  contextSwitchesVol : Int
  contextSwitchesInv : Int
  simulationDurationMs : ℚ
  deriving DecidableEq, Repr

namespace Metrics

/-- The local variables of `compute` that its first loop adds to. -/
structure Sums where
  readerWaitSum : ℚ := 0
  readerCount : Int := 0
  writerWaitSum : ℚ := 0
  writerCount : Int := 0
  totalOpsActual : Int := 0
  starveEvents : Int := 0
  perThreadOps : List ℚ := []

/-- The body of the first loop. Null entries are skipped. -/
def Sums.add (r : Sums) : Option ThreadTotals → Sums
  | none => r
  | some t =>
      let ops := t.opsCompleted
      let avgWait : ℚ := if ops > 0 then t.totalWaitMs/ops else 0
      let r := { r with
        totalOpsActual := r.totalOpsActual+ops
        starveEvents := r.starveEvents+t.starveCount
        perThreadOps := r.perThreadOps ++ [(ops : ℚ)] }
      match t.type with
      | .READER =>
          { r with readerWaitSum := r.readerWaitSum+avgWait, readerCount := r.readerCount+1 }
      | .WRITER =>
          { r with writerWaitSum := r.writerWaitSum+avgWait, writerCount := r.writerCount+1 }

/-- The end of `compute`. -/
def jainsFairnessIndex (perThreadOps : List ℚ) : ℚ :=
  let n := perThreadOps.length
  if n > 0 then
    let (sumX,sumX2) := perThreadOps.foldl (fun (s : ℚ × ℚ) x => (s.1+x,s.2+x*x)) (0,0)
    if sumX2 > 0 then sumX*sumX/(n*sumX2) else 1
  else 0

/-- `Metrics::compute`, over exact rationals where the source has `double`. -/
def compute (threads : List (Option ThreadTotals)) (cfg : SimConfig) (wallMs : ℚ)
    (ctxVol ctxInv : Int) : MetricsResult :=
  let r := threads.foldl Sums.add {}
  { algo := cfg.algo
    numReaders := cfg.numReaders
    numWriters := cfg.numWriters
    totalOps := cfg.totalOps
    avgReaderWaitMs := if r.readerCount > 0 then r.readerWaitSum/r.readerCount else 0
    avgWriterWaitMs := if r.writerCount > 0 then r.writerWaitSum/r.writerCount else 0
    throughputOpsPerSec := if wallMs > 0 then r.totalOpsActual/wallMs*1000 else 0
    jainsFairnessIndex := jainsFairnessIndex r.perThreadOps
    starvationCount := r.starveEvents
    contextSwitchesVol := ctxVol
    contextSwitchesInv := ctxInv
    simulationDurationMs := wallMs }

theorem foldl_sums (xs : List ℚ) (s : ℚ × ℚ) :
    xs.foldl (fun (s : ℚ × ℚ) x => (s.1+x,s.2+x*x)) s = (s.1+xs.sum,s.2+sumSq xs) := by
  induction xs generalizing s with
  | nil => simp
  | cons x xs ih =>
    rw [List.foldl_cons,ih,List.sum_cons,sumSq_cons,sq,add_assoc,add_assoc]

theorem jainsFairnessIndex_eq {xs : List ℚ} (h : xs ≠ []) :
    jainsFairnessIndex xs = jainIndex xs := by
  simp only [jainsFairnessIndex,foldl_sums,zero_add,gt_iff_lt,List.length_pos_of_ne_nil h,if_true,
    jainIndex,sq]

/-- The operations that the entries of the list completed. -/
def opsOf (threads : List (Option ThreadTotals)) : List ℚ :=
  threads.reduceOption.map fun t => (t.opsCompleted : ℚ)

theorem perThreadOps_foldl (threads : List (Option ThreadTotals)) (r : Sums) :
    (threads.foldl Sums.add r).perThreadOps = r.perThreadOps ++ opsOf threads := by
  induction threads generalizing r with
  | nil => simp [opsOf]
  | cons t threads ih =>
    rw [List.foldl_cons,ih]
    cases t with
    | none => rfl
    | some t =>
      have hadd : (r.add (some t)).perThreadOps = r.perThreadOps ++ [(t.opsCompleted : ℚ)] := by
        simp only [Sums.add]
        split <;> rfl
      rw [hadd,List.append_assoc]
      rfl

section
variable {threads threads' : List (Option ThreadTotals)} {cfg : SimConfig} {wallMs : ℚ}
  {ctxVol ctxInv : Int}

theorem compute_index (h : opsOf threads ≠ []) :
    (compute threads cfg wallMs ctxVol ctxInv).jainsFairnessIndex = jainIndex (opsOf threads) := by
  rw [← jainsFairnessIndex_eq h]
  exact congrArg jainsFairnessIndex (perThreadOps_foldl threads {})

theorem opsOf_perm (h : threads'.Perm threads) : (opsOf threads').Perm (opsOf threads) := by
  unfold opsOf List.reduceOption
  exact (h.filterMap id).map _

theorem opsOf_insert (pre post : List (Option ThreadTotals)) :
    opsOf (pre ++ none :: post) = opsOf (pre ++ post) := by
  simp only [opsOf,List.reduceOption_append,List.reduceOption_cons_of_none]

theorem opsOf_scale (k : Int) (threads : List (Option ThreadTotals)) :
    opsOf (threads.map (Option.map (ThreadTotals.scale k))) =
      (opsOf threads).map fun x => (k : ℚ)*x := by
  simp only [opsOf,List.reduceOption_map,List.map_map]
  refine List.map_congr_left fun t _ => ?_
  simp [ThreadTotals.scale]

theorem opsOf_ne_nil {t : ThreadTotals} (h : some t ∈ threads) : opsOf threads ≠ [] := by
  have hm : (t.opsCompleted : ℚ) ∈ opsOf threads :=
    List.mem_map_of_mem (List.reduceOption_mem_iff.mpr h)
  exact List.ne_nil_of_mem hm

theorem forall_opsOf {P : ℚ → Prop} :
    (∀ x ∈ opsOf threads, P x) ↔ ∀ t, some t ∈ threads → P t.opsCompleted := by
  simp only [opsOf,List.forall_mem_map,List.reduceOption_mem_iff]

/-- The index lies between 1/n, for a single thread that does all the work, and 1, for equal
shares. It depends on the shares alone: not on their order or unit, and not on null entries. -/
theorem jain_index_laws (hsome : ∃ t, some t ∈ threads)
    (hops : ∀ t, some t ∈ threads → 0 ≤ t.opsCompleted) :
    (1/(threads.reduceOption.length : ℚ) ≤
        (compute threads cfg wallMs ctxVol ctxInv).jainsFairnessIndex ∧
      (compute threads cfg wallMs ctxVol ctxInv).jainsFairnessIndex ≤ 1) ∧
    ((compute threads cfg wallMs ctxVol ctxInv).jainsFairnessIndex = 1 ↔
      ∀ t, some t ∈ threads → ∀ u, some u ∈ threads → t.opsCompleted = u.opsCompleted) ∧
    (1 < threads.reduceOption.length →
      ((compute threads cfg wallMs ctxVol ctxInv).jainsFairnessIndex =
          1/(threads.reduceOption.length : ℚ) ↔
        threads.reduceOption.countP (0 < ·.opsCompleted) = 1)) ∧
    (∀ threads', threads'.Perm threads →
      (compute threads' cfg wallMs ctxVol ctxInv).jainsFairnessIndex =
        (compute threads cfg wallMs ctxVol ctxInv).jainsFairnessIndex) ∧
    (∀ pre post, threads = pre ++ post →
      (compute (pre ++ none :: post) cfg wallMs ctxVol ctxInv).jainsFairnessIndex =
        (compute threads cfg wallMs ctxVol ctxInv).jainsFairnessIndex) ∧
    ∀ k, 0 < k →
      (compute (threads.map (Option.map (ThreadTotals.scale k))) cfg wallMs
          ctxVol ctxInv).jainsFairnessIndex =
        (compute threads cfg wallMs ctxVol ctxInv).jainsFairnessIndex := by
  obtain ⟨t₀,ht₀⟩ := hsome
  have hne : opsOf threads ≠ [] := opsOf_ne_nil ht₀
  have hlen : (opsOf threads).length = threads.reduceOption.length := List.length_map ..
  have hpos : ∀ x ∈ opsOf threads, 0 ≤ x :=
    forall_opsOf.mpr fun t ht => Int.cast_nonneg (hops t ht)
  rw [compute_index hne,← hlen]
  refine ⟨⟨le_jainIndex hne hpos,jainIndex_le_one hne⟩,?_,fun hn => ?_,fun ts hp => ?_,
    fun pre post he => ?_,fun k hk => ?_⟩
  · rw [jainIndex_eq_one_iff hne,forall_opsOf]
    simp only [forall_opsOf,Int.cast_inj]
  · rw [jainIndex_eq_inv_iff hn hpos,opsOf,List.countP_map]
    simp only [Function.comp_def,Int.cast_pos]
  · rw [compute_index (opsOf_ne_nil (hp.mem_iff.mpr ht₀)),jainIndex_perm (opsOf_perm hp)]
  · subst he
    rw [compute_index (by rwa [opsOf_insert]),opsOf_insert]
  · rw [compute_index (by rw [opsOf_scale]; simpa using hne),opsOf_scale,
      jainIndex_map_mul (Int.cast_ne_zero.mpr hk.ne')]

end

/-- Two threads, one of which did all the work, and a null entry. -/
theorem jain_index_laws_witness :
    (compute [some { opsCompleted := 7 },none,some { type := .WRITER }] {} 1000 0
      0).jainsFairnessIndex = 1/2 ∧
    (compute [some { type := .WRITER },some { opsCompleted := 7 },none] {} 1000 0
      0).jainsFairnessIndex = 1/2 := by
  obtain ⟨-,-,hinv,hperm,-⟩ := @jain_index_laws
    [some { opsCompleted := 7 },none,some { type := .WRITER }] {} 1000 0 0
    ⟨_,List.mem_cons_self⟩ (by simp)
  have he := (hinv (by decide)).mpr (by decide)
  exact ⟨he,(hperm _ (by decide)).trans he⟩

end Metrics

end ReadersWriters
