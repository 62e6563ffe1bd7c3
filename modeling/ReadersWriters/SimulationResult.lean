import ReadersWriters.LogAudit
import ReadersWriters.Outcomes
set_option autoImplicit false

namespace ReadersWriters
open Interleaving Statistics

/-- A request for the lock that is not among the completed operations yet, by the position. -/
def Pos.pending {P : Type} (st : ThreadState) : Pos P → Int
  | .idle => 0
  | .inside _ => if st = .WAITING then 1 else 0
  | .holding => 1

theorem pending_inside {P : Type} (p : P) {st : ThreadState} (h : st ≠ .WAITING) :
    (Pos.inside p).pending st = 0 := if_neg h

theorem Published.pending {P : Type} {locking : P → Bool} {first p : P} {q : Pos P}
    {st : Option ThreadState} {info : ThreadInfo} (hf : locking first = true)
    (h : Published locking first p q st) (hp : (Pos.inside p).Expects locking first info.state) :
    q.pending (info.publish st).state =
      (Pos.inside p).pending info.state+if st = some .WAITING then 1 else 0 := by
  rcases hp with ⟨rfl,hs⟩ | ⟨hne,hl,hs⟩ | ⟨hl,hs⟩
  · have hw : info.state ≠ .WAITING := by rcases hs with hs | hs <;> rw [hs] <;> decide
    cases h with
    | waiting => simp [Pos.pending,ThreadInfo.publish,hw]
    | active _ hne | quiet hne => exact absurd rfl hne
    | releasing hl => cases hl.symm.trans hf
  · cases h with
    | waiting he => exact absurd he hne
    | active => simp [Pos.pending,hs]
    | releasing hl' => cases hl.symm.trans hl'
    | quiet =>
      rw [if_neg (by decide),Int.add_zero]
      rfl
  · cases h with
    | waiting he =>
      rw [he,hf] at hl
      cases hl
    | active hl' => cases hl.symm.trans hl'
    | releasing => simp [Pos.pending,hs]
    | quiet =>
      rw [if_neg (by decide),Int.add_zero]
      rfl

section
variable {ι S R W : Type} {L : RWLockBase ι S R W} {i w : ι} {s s' : SimState S}
  {t t' : Worker R W}

/-- The request of a worker that is not among its completed operations yet. -/
def Worker.pending (t : Worker R W) : Int :=
  match t.client with
  | .reader q => q.pending t.info.state
  | .writer q => q.pending t.info.state

/-- A request is one more operation that is under way, and becomes a completed one. -/
theorem requests_step (hP : L.Publishes) (h : (workers L).act i w s t = some (s',t'))
    (ht : t.Tracks L) (hb : t.isAbortTarget = false) :
    t'.info.opsCompleted+t'.pending =
      t.info.opsCompleted+t.pending+if t.publishes L = some .WAITING then 1 else 0 := by
  have hbefore : ∀ {st : ThreadState}, st = .INIT ∨ st = .RELEASING → st ≠ .WAITING := by
    rintro _ (rfl | rfl) <;> decide
  have hholding : ∀ {st : ThreadState}, st = .ACTIVE → st ≠ .WAITING := by
    rintro _ rfl
    decide
  replace h := workers_cases h
  cases h with
  | @reader info _ _ _ _ h =>
    cases h
    case claim =>
      change info.opsCompleted+(Pos.inside L.readLock).pending info.state =
        info.opsCompleted+0+0
      rw [pending_inside _ (hbefore ht),add_zero,add_zero]
    case call p l q hs =>
      have hq := (hP.read hs).pending L.readLock_locking ht
      rw [add_assoc]
      cases q <;> exact congrArg₂ (·+·) (ThreadInfo.publish_opsCompleted ..) hq
    case work =>
      change info.opsCompleted+1+(Pos.inside L.readUnlock).pending info.state =
        info.opsCompleted+1+0
      rw [pending_inside _ (hholding ht)]
    all_goals simp [Worker.pending,Worker.client,Worker.publishes,Worker.info,Pos.pending]
  | @writer info _ _ _ _ _ h =>
    cases h
    case claim =>
      change info.opsCompleted+(Pos.inside L.writeLock).pending info.state =
        info.opsCompleted+0+0
      rw [pending_inside _ (hbefore ht),add_zero,add_zero]
    case call a p l q hs =>
      have hq := (hP.write hs).pending L.writeLock_locking ht
      rw [add_assoc]
      cases q with
      | idle => cases a <;> exact congrArg₂ (·+·) (ThreadInfo.publish_opsCompleted ..) hq
      | inside | holding => exact congrArg₂ (·+·) (ThreadInfo.publish_opsCompleted ..) hq
    case work =>
      change info.opsCompleted+1+(Pos.inside L.writeUnlock).pending info.state =
        info.opsCompleted+1+0
      rw [pending_inside _ (hholding ht)]
    case abortHeld hb' _ => cases hb'.symm.trans hb
    all_goals simp [Worker.pending,Worker.client,Worker.publishes,Worker.info,Pos.pending]

theorem pending_of_done (h : t.Done) : t.pending = 0 := by
  cases t with
  | reader info pc => cases h; rfl
  | writer info b pc => cases h; rfl

end

section
variable {ι S R W : Type} [DecidableEq ι] {L : RWLockBase ι S R W} {starveThresholdMs : Int}
  {registry : List ι} {i : ι} {h : List (WatchedEvent ι S R W)}
  {c c' : Config ι (Watched ι S) (Watchee R W)} {l : Label ι (ι × TimePoint) (Beside ι)}

/-- A thread that cannot be aborted has completed the operations that it requested, but for
the one that is under way. -/
structure Requested (L : RWLockBase ι S R W) (i : ι) (h : List (WatchedEvent ι S R W))
    (c : Config ι (Watched ι S) (Watchee R W)) : Prop where
  tracks : (c.locals i).worker.Tracks L
  target : (c.locals i).worker.isAbortTarget = false
  counted : (c.locals i).worker.info.opsCompleted+(c.locals i).worker.pending =
    h.countP (storesWaiting L i)

/-- Steps that leave the worker alone. -/
theorem Requested.keep (hc : Requested L i h c) (hw : storesWaiting L i (c,l) = false)
    (he : (c'.locals i).worker = (c.locals i).worker) : Requested L i ((c,l) :: h) c' := by
  obtain ⟨ht,hb,hn⟩ := hc
  refine ⟨he ▸ ht,he ▸ hb,?_⟩
  rw [he,hn,List.countP_cons_of_neg (by simp [hw])]

theorem requested_step (hP : L.Publishes)
    (hn : (watched L starveThresholdMs registry).next c l = some c') (hc : Requested L i h c) :
    Requested L i ((c,l) :: h) c' := by
  rcases l with ⟨j,k⟩ | e
  · obtain ⟨s,t,ha,rfl⟩ := Machine.next_thread.mp hn
    by_cases hij : j = i
    · subst hij
      have hs := watched_act_cases ha
      cases hs with
      | waitStart hp ht =>
        exact hc.keep (by simp [storesWaiting,ht]) (by simp)
      | load hp | wait hp | enter hp =>
        exact hc.keep (by simp [storesWaiting,hp]) (by simp)
      | step hw hl hx =>
        obtain ⟨ht,hb,hcount⟩ := hc
        have hstep := requests_step hP hx ht hb
        refine ⟨?_,?_,?_⟩
        · simpa only [Function.update_self] using tracks_step hP hx ht
        · simpa only [Function.update_self] using (isAbortTarget_step hx).trans hb
        · have hstores : storesWaiting L j (c,.thread j k) =
              decide ((c.locals j).worker.publishes L = some .WAITING) := by
            simp only [storesWaiting,true_and,decide_eq_decide,and_iff_left_iff_imp]
            exact hw
          simp only [Function.update_self,hstep,hcount,List.countP_cons,hstores,
            decide_eq_true_eq,Nat.cast_add,Nat.cast_ite,Nat.cast_one,Nat.cast_zero]
    · exact hc.keep (by simp [storesWaiting,hij]) (by simp [Function.update_of_ne (Ne.symm hij)])
  · obtain ⟨s,-,rfl⟩ := Machine.next_env.mp hn
    exact hc.keep rfl rfl

theorem requested_run {c₀ : Config ι (Watched ι S) (Watchee R W)} (hP : L.Publishes)
    (hr : Run (watched L starveThresholdMs registry) c₀ h c) (h₀ : Requested L i [] c₀) :
    Requested L i h c := by
  induction hr with
  | start => exact h₀
  | step _ hn ih => exact requested_step hP hn ih

end

namespace Metrics

/-- A sum over the threads that the first loop of `compute` forms. -/
theorem sums_foldl {g : Sums → Int} {f : ThreadTotals → Int}
    (hg : ∀ r t, g (Sums.add r (some t)) = g r+f t) (ts : List ThreadTotals) (r : Sums) :
    g ((ts.map some).foldl Sums.add r) = g r+(ts.map f).sum := by
  induction ts generalizing r with
  | nil => simp
  | cons t ts ih => rw [List.map_cons,List.foldl_cons,ih,hg,List.map_cons,List.sum_cons,add_assoc]

theorem totalOpsActual_foldl (ts : List ThreadTotals) :
    ((ts.map some).foldl Sums.add {}).totalOpsActual = (ts.map (·.opsCompleted)).sum := by
  rw [sums_foldl (g := Sums.totalOpsActual) (f := (·.opsCompleted)) (fun r t => ?_),zero_add]
  simp only [Sums.add]
  split <;> rfl

theorem starveEvents_foldl (ts : List ThreadTotals) :
    ((ts.map some).foldl Sums.add {}).starveEvents = (ts.map (·.starveCount)).sum := by
  rw [sums_foldl (g := Sums.starveEvents) (f := (·.starveCount)) (fun r t => ?_),zero_add]
  simp only [Sums.add]
  split <;> rfl

end Metrics

section
variable {cfg : Workload} {algo : AlgoType} {w : LogSetup} {starveThresholdMs : Int}
  {process : Process} {before : List (Printed (cfg.Tid ⊕ Actor) (Call cfg.Tid) Char)}
  {h : List (LoggedEvent cfg algo)} {c : LoggedConfig cfg algo}

/-- The workers are sent no signal if the simulation is not. -/
theorem unsignalled_workers (hu : EnvWithin (· ≠ .inl (.disturbance .sigusr1)) h) :
    Unsignalled ((workersView (algo.lock cfg.Tid) starveThresholdMs none).history
      (unloggedSteps cfg algo w starveThresholdMs h)) := by
  have hnoted : EnvWithin (· ≠ .disturbance .sigusr1)
      ((talk cfg algo w).view (noted cfg algo starveThresholdMs) |>.history h) := by
    refine EnvWithin.history _ ?_ hu
    rintro c (⟨i,k⟩ | e | e) e' he
    · obtain ⟨-,hk⟩ := Option.ite_none_right_eq_some.mp he
      cases hk
    · cases he
      exact ⟨_,rfl,fun hne hs => hne (hs ▸ rfl)⟩
    · cases he
  have hunlogged : EnvWithin (· ≠ .disturbance .sigusr1)
      (unloggedSteps cfg algo w starveThresholdMs h) := by
    refine EnvWithin.history _ ?_ hnoted
    rintro c (⟨i,k⟩ | e) e' he
    · cases he
    · cases he
      exact ⟨e,rfl,id⟩
  refine unsignalled_iff.mpr (EnvWithin.history _ ?_ hunlogged)
  rintro c (⟨i,k⟩ | e) e' he
  · obtain ⟨k',-,hk⟩ := Option.map_eq_some_iff.mp he
    cases hk
  · obtain ⟨d,hd,hd'⟩ := Option.map_eq_some_iff.mp he
    cases hd'
    refine ⟨e,rfl,fun hne => ?_⟩
    cases e with
    | main | watchdog => cases hd
    | disturbance d =>
      cases hd
      exact fun hs => hne (hs ▸ rfl)

/-- Nobody is charged with more starvation events than it completed operations, and the watchdog
has counted all of them. -/
theorem starvation_counted (ha : cfg.enableAbortTest = false)
    (hr : Run (logged cfg algo w starveThresholdMs) (loggedStart cfg algo w process before) h c)
    (hm : c.shared.base.main = .ended false) :
    (∀ i, 0 ≤ (cfg.totals algo c i).starveCount ∧
      (cfg.totals algo c i).starveCount ≤ (cfg.totals algo c i).opsCompleted) ∧
    ∑ i, (cfg.totals algo c i).starveCount = c.shared.base.watched.totalEvents := by
  obtain ⟨h',hw⟩ : ∃ h', Run (watched (algo.lock cfg.Tid) starveThresholdMs (List.finRange _))
      (cfg.watchedStart (algo.lock cfg.Tid) process) h'
      ⟨c.shared.base.watched,fun i => (c.locals i).1⟩ :=
    ⟨_,(watchedView _ _ _).run (unlogged_run hr)⟩
  obtain ⟨hcount,htotal⟩ := tallied_run hw
    ⟨fun i => rfl,by simp [total,Workload.watchedStart,WatchdogAt.owesEvent]⟩
  simp only [((joined_run hr).watchdog false hm).1,WatchdogAt.uncounted,WatchdogAt.owesEvent,
    reduceCtorEq,Bool.false_eq_true,if_false,add_zero] at hcount htotal
  refine ⟨fun i => ?_,htotal⟩
  have hcharged := (charged_run (i := i) hw ⟨Nat.zero_le 1,le_refl 0,fun hx => by
    rcases hx with hx | hx <;> cases hx⟩).requested
  have hstart : Requested (algo.lock cfg.Tid) i []
      (cfg.watchedStart (algo.lock cfg.Tid) process) := by
    have htarget : ((cfg.start (algo.lock cfg.Tid) process).locals i).isAbortTarget = false :=
      isAbortTarget_start_off ha i
    refine ⟨tracks_start cfg _ process i,htarget,?_⟩
    simp only [Workload.watchedStart,Workload.start]
    split <;> rfl
  have hreq := (requested_run (AlgoType.publishes cfg.Tid algo) hw hstart).counted
  have hi := hcount i
  simp only [pending_of_done (ended_done hr hm i),add_zero] at hreq
  simp only [Workload.totals]
  omega

/-- The result of a simulation that has returned, without the abort test and signals, over exact
rationals. The throughput is that of all operations, the starvation events are those that the
watchdog counted, of no thread more than it completed operations, and the index shows whether the
shares were equal. -/
theorem reported_result (ha : cfg.enableAbortTest = false) (hT : 0 ≤ cfg.totalOps)
    (hn : 0 < cfg.numReaders+cfg.numWriters)
    (hr : Run (logged cfg algo w starveThresholdMs) (loggedStart cfg algo w process before) h c)
    (hu : EnvWithin (· ≠ .inl (.disturbance .sigusr1)) h)
    (hm : c.shared.base.main = .ended false) (sim : SimConfig) (wallMs : ℚ)
    (ctxVol ctxInv : Int) :
    let result := Metrics.compute ((List.finRange _).map fun i => some (cfg.totals algo c i)) sim
      wallMs ctxVol ctxInv
    (∀ i, 0 ≤ (cfg.totals algo c i).starveCount ∧
      (cfg.totals algo c i).starveCount ≤ (cfg.totals algo c i).opsCompleted) ∧
    (result.starvationCount = c.shared.base.watched.totalEvents ∧ 0 ≤ result.starvationCount ∧
      result.starvationCount ≤ cfg.totalOps) ∧
    (0 < wallMs → result.throughputOpsPerSec*wallMs = cfg.totalOps*1000) ∧
    1/((cfg.numReaders+cfg.numWriters : ℕ) : ℚ) ≤ result.jainsFairnessIndex ∧
    result.jainsFairnessIndex ≤ 1 ∧
    (result.jainsFairnessIndex = 1 ↔ ∀ i j, (cfg.totals algo c i).opsCompleted =
      (cfg.totals algo c j).opsCompleted) := by
  intro result
  obtain ⟨hbounds,hevents⟩ := starvation_counted ha hr hm
  have hops : ∑ i, (cfg.totals algo c i).opsCompleted = cfg.totalOps :=
    all_completed hT hn (fun hx => by cases ha.symm.trans hx)
      ((workersView (algo.lock cfg.Tid) starveThresholdMs none).run (unlogged_run hr))
      (unsignalled_workers hu) (ended_done hr hm)
  have hlist : ((List.finRange _).map fun i => some (cfg.totals algo c i)) =
      ((List.finRange _).map (cfg.totals algo c)).map some := List.map_map.symm
  have hstarve : result.starvationCount = c.shared.base.watched.totalEvents := by
    rw [← hevents,Fin.sum_univ_def]
    simp only [result,Metrics.compute]
    rw [hlist,Metrics.starveEvents_foldl,List.map_map]
    rfl
  have hactual : (((List.finRange _).map fun i => some (cfg.totals algo c i)).foldl
      Metrics.Sums.add {}).totalOpsActual = cfg.totalOps := by
    rw [← hops,Fin.sum_univ_def,hlist,Metrics.totalOpsActual_foldl,List.map_map]
    rfl
  have hopsOf : Metrics.opsOf ((List.finRange _).map fun i => some (cfg.totals algo c i)) =
      (List.finRange _).map fun i => ((cfg.totals algo c i).opsCompleted : ℚ) := by
    rw [Metrics.opsOf,hlist,List.reduceOption,List.filterMap_map,Function.id_comp,
      List.filterMap_some,List.map_map]
    rfl
  have hne : Metrics.opsOf ((List.finRange _).map fun i => some (cfg.totals algo c i)) ≠ [] := by
    rw [hopsOf,← List.length_pos_iff,List.length_map,List.length_finRange]
    exact hn
  have hindex : result.jainsFairnessIndex = jainIndex (Metrics.opsOf
      ((List.finRange _).map fun i => some (cfg.totals algo c i))) := Metrics.compute_index hne
  refine ⟨hbounds,⟨hstarve,?_,?_⟩,fun hwall => ?_,?_,?_,?_⟩
  · rw [hstarve,← hevents]
    exact Finset.sum_nonneg fun i _ => (hbounds i).1
  · rw [hstarve,← hevents,← hops]
    exact Finset.sum_le_sum fun i _ => (hbounds i).2
  · simp only [result,Metrics.compute,hactual,gt_iff_lt,hwall,if_true]
    field_simp
  · have hle := le_jainIndex hne (Metrics.forall_opsOf.mpr fun t ht => ?_)
    · rw [hopsOf,List.length_map,List.length_finRange] at hle
      rw [hindex,hopsOf]
      exact hle
    · obtain ⟨i,-,hi⟩ := List.mem_map.mp ht
      cases hi
      exact Int.cast_nonneg ((hbounds i).1.trans (hbounds i).2)
  · rw [hindex]
    exact jainIndex_le_one hne
  · rw [hindex,jainIndex_eq_one_iff hne,hopsOf]
    simp

end

/-- Three operations in 600 ms, of which the writer did two and the reader was starving in its
only one. -/
theorem reported_result_witness : ∃ h c, Run (logged threeOperations .READER_PRIORITY {} 500)
      (loggedStart threeOperations .READER_PRIORITY {} {} []) h c ∧
    let result := Metrics.compute ((List.finRange _).map fun i => some
      (threeOperations.totals .READER_PRIORITY c i)) {} 600 0 0
    (threeOperations.totals .READER_PRIORITY c 0).starveCount ≤ 1 ∧ result.starvationCount = 1 ∧
      result.throughputOpsPerSec*600 = 3000 ∧ 1/2 ≤ result.jainsFairnessIndex ∧
      result.jainsFairnessIndex ≠ 1 := by
  obtain ⟨h₁,hr₁,hl₁⟩ : ∃ h, Run (logged threeOperations .READER_PRIORITY {} 500)
      (loggedStart threeOperations .READER_PRIORITY {} {} []) h starving ∧
      h.map Prod.snd = starvation.reverse := Run.of_exec _ (Option.some_get _).symm
  obtain ⟨h₂,hr₂,hl₂⟩ : ∃ h, Run (logged threeOperations .READER_PRIORITY {} 500) starving h
      recovered ∧ h.map Prod.snd = recovery.reverse := Run.of_exec _ (Option.some_get _).symm
  have hquiet : EnvWithin (· ≠ .inl (.disturbance .sigusr1)) (h₂ ++ h₁) := by
    rintro e he _ hd rfl
    have hmem : e.2 ∈ (h₂ ++ h₁).map Prod.snd := List.mem_map_of_mem he
    rw [List.map_append,hl₁,hl₂,hd] at hmem
    simp [starvation,recovery,-List.reduceReplicate] at hmem
  obtain ⟨hbounds,⟨hstarve,-,-⟩,hthroughput,hle,-,hjain⟩ := reported_result rfl (by decide)
    (by decide) (hr₁.append hr₂) hquiet (by decide +kernel) {} 600 0 0
  have hops : (threeOperations.totals .READER_PRIORITY recovered 0).opsCompleted = 1 ∧
    (threeOperations.totals .READER_PRIORITY recovered 1).opsCompleted = 2 := by decide +kernel
  have hevents : recovered.shared.base.watched.totalEvents = 1 := by decide +kernel
  refine ⟨_,recovered,hr₁.append hr₂,(hbounds 0).2.trans_eq hops.1,hstarve.trans hevents,
    (hthroughput (by norm_num)).trans ?_,hle,fun hindex => ?_⟩
  · change ((3 : ℤ) : ℚ)*1000 = 3000
    norm_num
  · have heq := hjain.mp hindex 0 1
    rw [hops.1,hops.2] at heq
    cases heq

end ReadersWriters
