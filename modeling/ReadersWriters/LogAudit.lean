import ReadersWriters.LogFile
import ReadersWriters.Metrics
set_option autoImplicit false

namespace ReadersWriters
open Interleaving Text

/-- The totals of a thread in its summary. The starvation events are not among them: they can
still be counted after it. -/
def Entry.totals (tid : Int) : Entry → Option ThreadTotals
  | .summary _ info ops total _ _ =>
      if info.tid = tid then some { type := info.type, totalWaitMs := total, opsCompleted := ops }
      else none
  | .record .. => none

def Entry.alerts (tid : Int) : Entry → Bool
  | .record _ info state _ _ => info.tid = tid ∧ state = .BLOCKED
  | .summary .. => false

/-- The totals of all threads as a log tells them: summaries, and one starvation event for every
alert. -/
def audit (totalThreads : ℕ) (log : List Entry) : List (Option ThreadTotals) :=
  (List.range totalThreads).map fun i : ℕ => (log.findSome? (Entry.totals (i+1))).map fun t =>
    { t with starveCount := log.countP (Entry.alerts (i+1)) }

theorem findSome?_eq {α β : Type} {f : α → Option β} {xs : List α} {b : β} {x : α} (hx : x ∈ xs)
    (hb : f x = some b) (h : ∀ y ∈ xs, f y = none ∨ f y = some b) : xs.findSome? f = some b := by
  cases hf : xs.findSome? f with
  | none =>
    have hn := List.findSome?_eq_none_iff.mp hf x hx
    cases hb.symm.trans hn
  | some b' =>
    obtain ⟨y,hy,hy'⟩ := List.exists_of_findSome?_eq_some hf
    rcases h y hy with h | h
    · cases h.symm.trans hy'
    · exact hy'.symm.trans h

theorem countP_flatMap_eq {α β γ : Type} {f : α → List β} {g : α → γ} {p : β → Bool}
    {q : α → Bool} {r : γ → Bool} {xs : List α}
    (h : ∀ x ∈ xs, (f x).countP p = if q x ∧ r (g x) then 1 else 0) :
    (xs.flatMap f).countP p = ((xs.filter q).map g).countP r := by
  induction xs with
  | nil => rfl
  | cons x xs ih =>
    rw [List.forall_mem_cons] at h
    rw [List.flatMap_cons,List.countP_append,h.1,ih h.2]
    cases hq : q x <;> cases hr : r (g x) <;> simp [hq,hr,Nat.add_comm]

section
variable {cfg : Workload} {algo : AlgoType} {w : LogSetup} {starveThresholdMs : Int}
  {process : Process} {h : List (LoggedEvent cfg algo)} {c : LoggedConfig cfg algo}
  {x : Printed (cfg.Tid ⊕ Actor) (Call cfg.Tid) Char} {es : List Entry} {e : Entry}

/-- What `compute` reads in the `ThreadInfo` of a thread. -/
def Workload.totals (cfg : Workload) (algo : AlgoType) (c : LoggedConfig cfg algo) (i : cfg.Tid) :
    ThreadTotals where
  type := (cfg.identity algo i).type
  totalWaitMs := (c.shared.base.watched.record i).totalWaitMs
  opsCompleted := (c.locals i).1.worker.info.opsCompleted
  starveCount := (c.shared.base.watched.record i).starveCount

theorem tid_eq {i j : cfg.Tid} :
    (cfg.identity algo i).tid = ((j.val : ℕ) : Int)+1 ↔ i = j := by
  simp [Workload.identity,Fin.ext_iff]

/-- Only a thread's own summary gives totals of it, and these are its last ones. -/
theorem ReadsBack.totals (hb : ReadsBack cfg algo h c x es) (he : e ∈ es)
    (j : cfg.Tid) : e.totals (j.val+1) = none ∨
      e.totals (j.val+1) = some { cfg.totals algo c j with starveCount := 0 } := by
  cases hb with
  | @worker i e' ha htells hof =>
    obtain rfl := List.mem_singleton.mp he
    obtain ⟨o,n,-,hentry⟩ := htells
    cases hc : x.call with
    | record => rw [hc] at hentry; cases hentry; exact .inl rfl
    | alert => rw [hc] at hentry; cases hentry; exact .inl rfl
    | header => rw [hc] at hentry; cases hentry
    | summary k =>
      rw [hc] at hentry
      cases hentry
      have hki : k = i := by
        have hi := hof i
        simpa [Entry.ofWorker,tid_eq] using hi
      subst hki
      by_cases hkj : k = j
      · subst hkj
        exact .inr (if_pos (tid_eq.mpr rfl))
      · exact .inl (if_neg fun ht => hkj (tid_eq.mp ht))
  | watchdog => exact .inl (by rw [List.mem_singleton.mp he]; rfl)
  | main => cases he

/-- The summary of a thread is read back. -/
theorem ReadsBack.summary (hb : ReadsBack cfg algo h c x es) {i : cfg.Tid}
    (ha : x.author = .inl i) (hc : x.call = .summary i) :
    ∃ e ∈ es, e.totals (i.val+1) = some { cfg.totals algo c i with starveCount := 0 } := by
  cases hb with
  | @worker j e ha' htells hof =>
    cases ha.symm.trans ha'
    obtain ⟨o,n,-,hentry⟩ := htells
    rw [hc] at hentry
    cases hentry
    exact ⟨_,List.mem_singleton_self _,if_pos (tid_eq.mpr rfl)⟩
  | watchdog ha' | main ha' => cases ha.symm.trans ha'

/-- The alerts in a line. -/
theorem ReadsBack.alerts (hb : ReadsBack cfg algo h c x es) (i : cfg.Tid) :
    es.countP (Entry.alerts (i.val+1)) =
      if decide (x.author = .inr .watchdog) = true ∧ x.call.alerts i = true then 1 else 0 := by
  cases hb with
  | @worker j e ha htells hof =>
    have hj := hof j
    rw [ha,if_neg (by simp)]
    cases e with
    | summary => rfl
    | record t info st ms msg =>
      have hst : st ≠ .BLOCKED := by
        simp only [Entry.ofWorker,decide_true,decide_eq_true_eq] at hj
        exact hj.2
      simp [Entry.alerts,hst]
  | @watchdog j waitMs o ha hc =>
    rw [ha,hc]
    by_cases hji : j = i
    · subst hji
      simp [Entry.alerts,Call.alerts,tid_eq]
    · simp [Entry.alerts,Call.alerts,tid_eq,hji]
  | main ha =>
    rw [ha,if_neg (by simp)]
    rfl

theorem Workload.Life.summary {i : cfg.Tid} {n : Int} {rounds : List Round}
    {cs : List (Call cfg.Tid)} (hl : cfg.Life algo i n rounds cs) : .summary i ∈ cs := by
  unfold Workload.Life at hl
  split at hl
  · obtain ⟨ending,k,he,-,rfl⟩ := hl
    refine List.mem_append_right _ ?_
    cases he <;> simp
  · obtain ⟨-,rfl⟩ := hl
    exact List.mem_append_right _ (by simp)

/-- What the file of a simulation that has returned tells of its threads is what is in their
`ThreadInfo`s. -/
theorem audit_eq
    (hr : Run (logged cfg algo w starveThresholdMs) (loggedStart cfg algo w process []) h c)
    (hm : c.shared.base.main = .ended false) (hi : c.shared.printer.Idle (.inr .main))
    (hf : w.logFile = true) (hn : OneLine w.result) (hR : InRange c) :
    audit (cfg.numReaders+cfg.numWriters) (readLog c.shared.printer.copy) =
      (List.finRange _).map fun i => some (cfg.totals algo c i) := by
  have hback := fun x hx => readsBack_run (x := x) hr hm hi hn hR hx
  rw [audit,← List.map_coe_finRange_eq_range,List.map_map]
  refine List.map_congr_left fun i _ => ?_
  have hlines : .summary i ∈ ((c.shared.printer.lines.filter fun x => x.author = .inl i).map
      Printed.call) := by
    obtain ⟨cs,hlife,hlines⟩ := worker_lines hr hm i
    simp only [List.length_nil,List.drop_zero] at hlines
    rw [hlines]
    exact List.mem_filter.mpr ⟨hlife.summary,rfl⟩
  obtain ⟨x,hx,hc⟩ := List.mem_map.mp hlines
  obtain ⟨hx,ha⟩ := List.mem_filter.mp hx
  obtain ⟨e,he,ht⟩ := (hback x hx).summary (of_decide_eq_true ha) hc
  have hfind : (readLog c.shared.printer.copy).findSome? (Entry.totals (i.val+1)) =
      some { cfg.totals algo c i with starveCount := 0 } := by
    rw [readLog_file hr hm hi hf]
    refine findSome?_eq (List.mem_flatMap.mpr ⟨x,hx,he⟩) ht fun e he => ?_
    obtain ⟨x,hx,he⟩ := List.mem_flatMap.mp he
    exact (hback x hx).totals he i
  have hcount : ((readLog c.shared.printer.copy).countP (Entry.alerts (i.val+1)) : Int) =
      (c.shared.base.watched.record i).starveCount := by
    have hA := (watchdog_lines hr hm).counted i
    rw [((joined_run hr).watchdog false hm).1,if_neg (by simp [WatchdogAt.counted]),
      Int.add_zero] at hA
    rw [readLog_file hr hm hi hf,countP_flatMap_eq fun x hx => (hback x hx).alerts i]
    exact hA
  simp only [Function.comp_apply,hfind,Option.map_some,hcount]
  rfl

/-- The log file tells the totals of all threads, at every log level, and from these the result of
`runSimulation` can be computed again, given what is not in the log: the configuration, the
duration and the counts of context switches. -/
theorem metrics_from_log
    (hr : Run (logged cfg algo w starveThresholdMs) (loggedStart cfg algo w process []) h c)
    (hm : c.shared.base.main = .ended false) (hi : c.shared.printer.Idle (.inr .main))
    (hf : w.logFile = true) (hn : OneLine w.result) (hR : InRange c) :
    audit (cfg.numReaders+cfg.numWriters) (readLog c.shared.printer.copy) =
      (List.finRange _).map (fun i => some (cfg.totals algo c i)) ∧
    ∀ (sim : SimConfig) (wallMs : ℚ) (ctxVol ctxInv : Int),
      Metrics.compute (audit (cfg.numReaders+cfg.numWriters) (readLog c.shared.printer.copy)) sim
          wallMs ctxVol ctxInv =
        Metrics.compute ((List.finRange _).map fun i => some (cfg.totals algo c i)) sim wallMs
          ctxVol ctxInv := by
  have ha := audit_eq hr hm hi hf hn hR
  exact ⟨ha,fun sim wallMs ctxVol ctxInv => by rw [ha]⟩

end

/-- The totals of a reader that was starving once and of a writer, and their throughput in
600 ms, from their log. -/
theorem metrics_from_log_witness : ∃ h c, Run (logged threeOperations .READER_PRIORITY {} 500)
      (loggedStart threeOperations .READER_PRIORITY {} {} []) h c ∧
    audit 2 (readLog c.shared.printer.copy) =
      [some { type := .READER, totalWaitMs := 600, opsCompleted := 1, starveCount := 1 },
        some { type := .WRITER, totalWaitMs := 100, opsCompleted := 2 }] ∧
    (Metrics.compute (audit 2 (readLog c.shared.printer.copy)) {} 600 0 0).throughputOpsPerSec =
      5 := by
  obtain ⟨haudit,hresult⟩ := metrics_from_log (starving_run.append recovery_run)
    (by decide +kernel) ⟨by decide +kernel,by decide +kernel⟩ rfl (by decide) recovered_inRange
  have htotals : (List.finRange _).map (fun i => some (threeOperations.totals .READER_PRIORITY
      recovered i)) =
        [some { type := .READER, totalWaitMs := 600, opsCompleted := 1, starveCount := 1 },
          some { type := .WRITER, totalWaitMs := 100, opsCompleted := 2 }] := by decide +kernel
  refine ⟨_,recovered,starving_run.append recovery_run,haudit.trans htotals,?_⟩
  refine (congrArg MetricsResult.throughputOpsPerSec (hresult {} 600 0 0)).trans ?_
  rw [htotals]
  norm_num [Metrics.compute,Metrics.Sums.add]

end ReadersWriters
