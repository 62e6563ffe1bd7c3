import ReadersWriters.DataIntegrity
import ReadersWriters.ShippedTested
import ReadersWriters.Signals
import ReadersWriters.SoloTurns
import ReadersWriters.StepBound
import Mathlib.Algebra.Order.BigOperators.Group.Multiset
set_option autoImplicit false

namespace ReadersWriters
open Interleaving

section
variable {cfg : Workload} {S R W : Type} {L : RWLockBase cfg.Tid S R W} {process : Process}

/-- All workers are at the head of their loops and nobody is inside the lock. -/
structure RWLockBase.Uncontended.Between (U : L.Uncontended)
    (c : Config cfg.Tid (SimState S) (Worker R W)) : Prop where
  quiet : U.Quiet c.shared
  heads : ∀ i, (c.locals i).AtHead c.shared

/-- The workers can come to the head of their loops before any of them claims an operation. -/
theorem start_run (process : Process) (U : L.Uncontended)
    (ha : cfg.enableAbortTest = true → process.abortSignalReceived = false) : ∃ h c,
    Run (workers L) (cfg.start L process) h c ∧ (∀ e ∈ h, ∃ j k, e.2 = .thread j k) ∧
      U.Between c ∧ c.shared.opsRemaining = cfg.totalOps ∧
      ∀ i, (c.locals i).info.opsCompleted = 0 := by
  obtain ⟨h,c,hr,hl,⟨hq,ho,hf⟩,hQ,-⟩ := sweep (m := workers L) (l := List.finRange _)
    (I := fun s => U.Quiet s ∧ s.opsRemaining = cfg.totalOps ∧
      s.process.abortSignalReceived = process.abortSignalReceived)
    (P := fun i t => t = (cfg.start L process).locals i)
    (Q := fun i t => (∀ s : SimState S,
      s.process.abortSignalReceived = process.abortSignalReceived → t.AtHead s) ∧
        t.info.opsCompleted = 0)
    (c := cfg.start L process) (by
      rintro i s t hI rfl
      simp only [Workload.start]
      split
      · refine ⟨_,_,.step (k := i) rfl (.one (k := i) rfl),?_,⟨fun s' hs' => ⟨rfl,?_⟩,rfl⟩⟩
        · split
          · exact hI
          · exact hI
        · rw [hs']
          by_cases hb : cfg.enableAbortTest = true
          · rw [ha hb,Bool.and_false]
          · simp [Workload.isAbortTarget,hb]
      · exact ⟨s,_,.one (k := i) rfl,hI,fun _ _ => rfl,rfl⟩)
    (List.nodup_finRange _) ⟨U.rest_init.symm,rfl,rfl⟩ (fun i _ => rfl)
  exact ⟨h,c,hr,hl,⟨hq,fun i => (hQ i (List.mem_finRange i)).1 _ hf⟩,ho,
    fun i => (hQ i (List.mem_finRange i)).2⟩

/-- Whole operations, one after the other. -/
theorem rounds_run {U : L.Uncontended} (ts : List cfg.Tid)
    {c : Config cfg.Tid (SimState S) (Worker R W)} (hB : U.Between c)
    (hn : ts.length ≤ c.shared.opsRemaining) : ∃ h c',
    Run (workers L) c h c' ∧ (∀ e ∈ h, ∃ j k, e.2 = .thread j k) ∧ U.Between c' ∧
      c'.shared.opsRemaining = c.shared.opsRemaining-ts.length ∧
      ∀ i, (c'.locals i).info.opsCompleted = (c.locals i).info.opsCompleted+ts.count i := by
  induction ts generalizing c with
  | nil => exact ⟨[],c,.start,(fun _ he => by cases he),hB,by simp,by simp⟩
  | cons i ts ih =>
    rw [List.length_cons,Nat.cast_succ] at hn
    obtain ⟨s',t',hs,hq,ht,ho,hp,hc⟩ := turn U hB.quiet (hB.heads i) (by omega)
    obtain ⟨h,hr,hl⟩ := hs.run rfl rfl
    obtain ⟨h',c',hr',hl',hB',ho',hc'⟩ := ih (c := ⟨s',Function.update c.locals i t'⟩)
      ⟨hq,fun j => by
        by_cases hj : j = i
        · subst hj
          simpa only [Function.update_self] using ht
        · simpa only [Function.update_of_ne hj] using
            (hB.heads j).congr (congrArg Process.abortSignalReceived hp)⟩ (by
      simp only [ho]
      omega)
    refine ⟨h' ++ h,c',hr.append hr',fun e he => (List.mem_append.mp he).elim (hl' e) (hl e),hB',
      ?_,fun j => ?_⟩
    · simp only [ho',ho,List.length_cons]
      omega
    · rw [hc' j]
      by_cases hj : j = i
      · subst hj
        simp only [Function.update_self,hc,List.count_cons_self]
        omega
      · simp only [Function.update_of_ne hj,List.count_cons_of_ne (Ne.symm hj)]

/-- With nothing left to claim the workers at the head of their loops can leave. -/
theorem leave_run {l : List cfg.Tid} (hn : l.Nodup)
    {c : Config cfg.Tid (SimState S) (Worker R W)} (hl : ∀ i ∈ l, (c.locals i).AtHead c.shared)
    (ho : c.shared.opsRemaining ≤ 0) : ∃ h c',
    Run (workers L) c h c' ∧ (∀ e ∈ h, ∃ j k, e.2 = .thread j k) ∧ c'.shared = c.shared ∧
      (∀ i ∈ l, (c'.locals i).Done ∧
        (c'.locals i).info.opsCompleted = (c.locals i).info.opsCompleted) ∧
      ∀ i, i ∉ l → c'.locals i = c.locals i :=
  sweep (I := fun s => s = c.shared) (P := fun i t => t.AtHead c.shared ∧
      t.info.opsCompleted = (c.locals i).info.opsCompleted)
    (Q := fun i t => t.Done ∧ t.info.opsCompleted = (c.locals i).info.opsCompleted)
    (by
      rintro i s t rfl ⟨ht,hc⟩
      obtain ⟨t',hs,hd,hc'⟩ := leaves (L := L) (i := i) ht ho
      exact ⟨_,t',hs,rfl,hd,hc'.trans hc⟩) hn rfl fun i hi => ⟨hl i hi,rfl⟩

/-- Nobody completes fewer than no operations. -/
theorem opsCompleted_nonneg {h c} (hr : Run (workers L) (cfg.start L process) h c) (i : cfg.Tid) :
    0 ≤ (c.locals i).info.opsCompleted := by
  refine hr.always (P := fun c => 0 ≤ (c.locals i).info.opsCompleted) ?_ ?_
  · simp only [Workload.start]
    split <;> exact le_refl _
  · rintro c (⟨j,k⟩ | e) c' hc hn
    · obtain ⟨s,t,ha,rfl⟩ := Machine.next_thread.mp hn
      by_cases hij : i = j
      · subst hij
        simp only [Function.update_self]
        generalize c.locals i = t₀ at ha hc
        cases workers_cases ha with
        | reader h | writer h =>
          cases h <;> simp only [Worker.info,ThreadInfo.publish_opsCompleted] at hc ⊢ <;> omega
      · simpa only [Function.update_of_ne hij] using hc
    · obtain ⟨s,-,rfl⟩ := Machine.next_env.mp hn
      exact hc

theorem isAbortTarget_start_off (ha : cfg.enableAbortTest = false) (i : cfg.Tid) :
    ((cfg.start L process).locals i).isAbortTarget = false := by
  simp only [Workload.start]
  split
  · simp [Worker.isAbortTarget,Workload.isAbortTarget,ha]
  · rfl

/-- When all are done every operation has been completed by somebody. -/
theorem all_completed (hT : 0 ≤ cfg.totalOps) (hn : 0 < cfg.numReaders+cfg.numWriters)
    (ha : cfg.enableAbortTest = true → process.abortSignalReceived = false) {h c}
    (hr : Run (workers L) (cfg.start L process) h c) (hu : Unsignalled h)
    (hd : ∀ i, (c.locals i).Done) :
    ∑ i, (c.locals i).info.opsCompleted = cfg.totalOps := by
  -- the same run in a fresh process
  have h₀ : AsideProcess (cfg.start L process) (cfg.start L {}) := by
    refine ⟨{},rfl,?_⟩
    cases hb : cfg.enableAbortTest with
    | true => exact .inl (ha hb).symm
    | false => exact .inr fun i => isAbortTarget_start_off hb i
  obtain ⟨h',c',hr',hu',p,rfl,-⟩ := (asideProcess_matching L).run h₀ hr (unsignalled_iff.mp hu)
  obtain ⟨-,hc,-,he⟩ := budget_run hT rfl hr' (unsignalled_iff.mpr hu')
  have hx := total_stake_pos (L := L) (x := .exited) (Worker.exited_of_done (hd ⟨0,hn⟩))
  rw [total_completed,total_stake_done hd (by decide)] at hc
  simp only at hc hx he
  omega

end

/-- Any numbers of turns can be put in some order. -/
theorem exists_rounds {ι : Type} [Fintype ι] [DecidableEq ι] (v : ι → ℕ) : ∃ ts : List ι,
    (∀ i, ts.count i = v i) ∧ ts.length = ∑ i, v i := by
  refine ⟨(∑ i, Multiset.replicate (v i) i).toList,fun i => ?_,?_⟩
  · rw [← Multiset.coe_count,Multiset.coe_toList,Multiset.count_sum']
    simp [Multiset.count_replicate]
  · simp [Multiset.card_sum]

section
variable {algo : AlgoType} {cfg : Workload} {process : Process}

theorem writerOps_eq {h c}
    (hr : Run (workers (algo.lock cfg.Tid)) (cfg.start (algo.lock cfg.Tid) process) h c)
    (i : cfg.Tid) : (c.locals i).writerOps =
      if cfg.isWriter i then (c.locals i).info.opsCompleted else 0 := by
  have hw := RWLockBase.run_isWriter (run_clients hr) i
  rw [lockView_locals] at hw
  rw [← hw]
  cases c.locals i <;> rfl

/-- The final outcomes of a simulation that no signal reaches: the operations can be shared
out among the threads in every way, and nothing else can happen. -/
theorem outcome_iff (hT : 0 ≤ cfg.totalOps) (hn : 0 < cfg.numReaders+cfg.numWriters)
    (ha : cfg.enableAbortTest = true → process.abortSignalReceived = false)
    (o : Outcome cfg.Tid) :
    (∃ h c, Run (workers (algo.lock cfg.Tid)) (cfg.start (algo.lock cfg.Tid) process) h c ∧
      Unsignalled h ∧ (∀ i, (c.locals i).Done) ∧ outcome Worker.info c = o) ↔
    (∀ i, 0 ≤ o.opsCompleted i) ∧ ∑ i, o.opsCompleted i = cfg.totalOps ∧
      o.data = ∑ i, (if cfg.isWriter i then o.opsCompleted i else 0) ∧ o.writeCount = o.data := by
  have hdata : ∀ {h c}, Run (workers (algo.lock cfg.Tid))
      (cfg.start (algo.lock cfg.Tid) process) h c → (∀ i, (c.locals i).Done) →
      c.shared.resource.data =
        ∑ i, (if cfg.isWriter i then (c.locals i).info.opsCompleted else 0) ∧
      c.shared.resource.writeCount = c.shared.resource.data := by
    intro h c hr hd
    have hI := dataInv_run (fun _ _ => workers_exclusive) hr
    have hq : ∀ i, (c.locals i).client ≠ .writer .holding := by
      intro i hi
      rcases not_blocked_of_done (L := algo.lock cfg.Tid) (hd i) with hc | hc <;>
        rw [lockView_locals,hi] at hc <;> cases hc
    have hs : c.shared.resource.data = ∑ i, (c.locals i).writerOps :=
      hI.data.trans (Finset.sum_congr rfl fun i _ => (shares_of_quiet (hq i)).1)
    have hw : c.shared.resource.writeCount = ∑ i, (c.locals i).writerOps :=
      hI.writeCount.trans (Finset.sum_congr rfl fun i _ => (shares_of_quiet (hq i)).2)
    exact ⟨hs.trans (Finset.sum_congr rfl fun i _ => writerOps_eq hr i),hw.trans hs.symm⟩
  constructor
  · rintro ⟨h,c,hr,hu,hd,rfl⟩
    exact ⟨opsCompleted_nonneg hr,all_completed hT hn ha hr hu hd,hdata hr hd⟩
  · rintro ⟨hpos,hsum,hd,hw⟩
    obtain ⟨ts,hcount,hlen⟩ := exists_rounds fun i => (o.opsCompleted i).toNat
    have hcast : ∀ i, ((o.opsCompleted i).toNat : ℤ) = o.opsCompleted i :=
      fun i => Int.toNat_of_nonneg (hpos i)
    have hlen' : (ts.length : ℤ) = cfg.totalOps := by
      rw [hlen,Nat.cast_sum,← hsum]
      exact Finset.sum_congr rfl fun i _ => hcast i
    obtain ⟨h₁,c₁,hr₁,hl₁,hB₁,ho₁,hz₁⟩ := start_run process (algo.uncontended cfg.Tid) ha
    obtain ⟨h₂,c₂,hr₂,hl₂,hB₂,ho₂,hc₂⟩ := rounds_run ts hB₁ (by omega)
    obtain ⟨h₃,c₃,hr₃,hl₃,hs₃,hc₃,-⟩ := leave_run (List.nodup_finRange _)
      (fun i _ => hB₂.heads i) (by omega)
    have hr := (hr₁.append hr₂).append hr₃
    have hdone : ∀ i, (c₃.locals i).Done := fun i => (hc₃ i (List.mem_finRange i)).1
    have hops : ∀ i, (c₃.locals i).info.opsCompleted = o.opsCompleted i := by
      intro i
      rw [(hc₃ i (List.mem_finRange i)).2,hc₂,hz₁,hcount,hcast]
      omega
    refine ⟨_,c₃,hr,fun e he hs => ?_,hdone,?_⟩
    · have hl : ∃ j k, e.2 = .thread j k := by
        rcases List.mem_append.mp he with he | he
        · exact hl₃ e he
        · exact (List.mem_append.mp he).elim (hl₂ e) (hl₁ e)
      obtain ⟨j,k,hk⟩ := hl
      cases hk.symm.trans hs
    · obtain ⟨hd₃,hw₃⟩ := hdata hr hdone
      obtain ⟨ops,data,writeCount⟩ := o
      simp only [outcome,Outcome.mk.injEq]
      simp only [hops] at hd₃ ⊢
      exact ⟨trivial,hd₃.trans hd.symm,hw₃.trans (hd₃.trans (hd.symm.trans hw.symm))⟩

end

/-- The reader completes one operation, the second writer two, the first one none. -/
theorem outcome_iff_witness : ∃ h c,
    Run (workers (AlgoType.FAIR_MORRIS.lock oneReaderTwoWriters.Tid))
      (oneReaderTwoWriters.start (AlgoType.FAIR_MORRIS.lock oneReaderTwoWriters.Tid) {}) h c ∧
    Unsignalled h ∧ (∀ i, (c.locals i).Done) ∧
    outcome Worker.info c = ⟨fun i => if i = 0 then 1 else if i = 2 then 2 else 0,2,2⟩ :=
  (outcome_iff (by decide) (by decide) (fun h => by cases h) _).mpr ⟨by decide,by decide,
    by decide,rfl⟩

end ReadersWriters
