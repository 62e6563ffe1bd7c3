import ReadersWriters.Hang
set_option autoImplicit false

namespace ReadersWriters
open Interleaving

namespace RWLockBase.Ranking

variable {cfg : Workload} {process : Process} {S R W : Type} {L : RWLockBase cfg.Tid S R W}
  {ρ : L.Ranking}

/-- From wherever a run has led, the steps that are left are bounded. -/
theorem continuation_le (hT : 0 ≤ cfg.totalOps)
    (hv : ∀ h c, Run (workers L) (cfg.start L process) h c → ρ.valid c.shared.lock) {h c}
    (hr : Run (workers L) (cfg.start L process) h c) {h' c'} (hr' : Run (workers L) c h' c')
    (hl : ∀ e ∈ h', ∃ i k, e.2 = .thread i k) :
    h'.length ≤ ρ.storeRank c.shared+total ρ.workerRank c.locals+ρ.slack := by
  have hle := hr'.threadSteps_le (φ := ρ.storeRank) (w := ρ.workerRank)
    (fun h₁ c₁ i k s' t' hr₁ ha => rank_step (hv _ c₁ (hr.append hr₁)) ha)
    (fun _ _ _ hf => hf.elim) (EnvWithin.of_thread hl : EnvWithin (fun _ => False) h')
  have hpos := potential_nonneg (ρ := ρ) hT (hr.append hr')
  have hslack := ρ.store_ge (hv _ _ (hr.append hr'))
  rw [threadSteps_of_thread hl] at hle
  simp only [storeRank] at hle ⊢
  omega

end RWLockBase.Ranking

/-- A bound on the steps left after a run. -/
theorem continuation_bounded {algo : AlgoType} {cfg : Workload} {process : Process}
    (hT : 0 ≤ cfg.totalOps) {h c}
    (hr : Run (workers (algo.lock cfg.Tid)) (cfg.start (algo.lock cfg.Tid) process) h c) :
    ∃ B : ℕ, ∀ h' c', Run (workers (algo.lock cfg.Tid)) c h' c' →
      (∀ e ∈ h', ∃ i k, e.2 = .thread i k) → h'.length ≤ B := by
  obtain ⟨B,hB⟩ : ∃ B : ℤ, ∀ h' c', Run (workers (algo.lock cfg.Tid)) c h' c' →
      (∀ e ∈ h', ∃ i k, e.2 = .thread i k) → h'.length ≤ B := by
    cases algo with
    | READER_PRIORITY =>
      exact ⟨_,fun h' c' hr' hl => RWLockBase.Ranking.continuation_le
        (ρ := ReaderPriorityLock.ranking cfg.Tid) hT (fun _ _ _ => trivial) hr hr' hl⟩
    | WRITER_PRIORITY =>
      exact ⟨_,fun h' c' hr' hl => RWLockBase.Ranking.continuation_le
        (ρ := WriterPriorityLock.ranking cfg.Tid) hT (fun _ _ _ => trivial) hr hr' hl⟩
    | FAIR_MORRIS =>
      exact ⟨_,fun h' c' hr' hl => RWLockBase.Ranking.continuation_le
        (ρ := FairMorrisLock.ranking cfg.Tid (cfg.numReaders+cfg.numWriters)) hT
        (fun _ _ hr => (FairMorrisLock.inv_run (run_clients hr)).atMost (Fintype.card_fin _))
        hr hr' hl⟩
  exact ⟨B.toNat,fun h' c' hr' hl => by have := hB h' c' hr' hl; omega⟩

section
variable {algo : AlgoType} {cfg : Workload} {process : Process}

/-- The workers stop only when all of them are done. -/
theorem done_of_stopped
    (hh : algo = .FAIR_MORRIS → 1 ≤ cfg.numReaders → 2 ≤ cfg.numWriters → cfg.totalOps < 3) {h c}
    (hr : Run (workers (algo.lock cfg.Tid)) (cfg.start (algo.lock cfg.Tid) process) h c)
    (hn : ∀ i, ¬ (workers (algo.lock cfg.Tid)).Enabled c i) (i : cfg.Tid) : (c.locals i).Done := by
  by_contra hd
  obtain ⟨hf,hr₁,hw₂,hT₃⟩ := hang_needs hr ⟨⟨i,hd⟩,hn⟩
  exact absurd (hh hf hr₁ hw₂) (by omega)

/-- The workers can get there from wherever they are. -/
theorem runs_to_done (hT : 0 ≤ cfg.totalOps)
    (hh : algo = .FAIR_MORRIS → 1 ≤ cfg.numReaders → 2 ≤ cfg.numWriters → cfg.totalOps < 3) {h c}
    (hr : Run (workers (algo.lock cfg.Tid)) (cfg.start (algo.lock cfg.Tid) process) h c) :
    ∃ h' c', Run (workers (algo.lock cfg.Tid)) c h' c' ∧
      (∀ e ∈ h', ∃ i k, e.2 = .thread i k) ∧ ∀ i, (c'.locals i).Done := by
  obtain ⟨B,hB⟩ := continuation_bounded hT hr
  refine Run.completes hB fun h' c' hr' _ ⟨i,hi⟩ => ?_
  by_contra hn
  exact hi (done_of_stopped hh (hr.append hr') (not_exists.mp hn) i)

/-- Where a simulation cannot hang it always completes: whatever has happened so far, the
workers cannot go on for ever, they stop only when all of them are done, and they can get
there. -/
theorem simulation_completes (hT : 0 ≤ cfg.totalOps)
    (hh : algo = .FAIR_MORRIS → 1 ≤ cfg.numReaders → 2 ≤ cfg.numWriters → cfg.totalOps < 3) {h c}
    (hr : Run (workers (algo.lock cfg.Tid)) (cfg.start (algo.lock cfg.Tid) process) h c) :
    (∃ B : ℕ, ∀ h' c', Run (workers (algo.lock cfg.Tid)) c h' c' →
      (∀ e ∈ h', ∃ i k, e.2 = .thread i k) → h'.length ≤ B) ∧
    (∀ h' c', Run (workers (algo.lock cfg.Tid)) c h' c' →
      (∀ i, ¬ (workers (algo.lock cfg.Tid)).Enabled c' i) → ∀ i, (c'.locals i).Done) ∧
    ∃ h' c', Run (workers (algo.lock cfg.Tid)) c h' c' ∧
      (∀ e ∈ h', ∃ i k, e.2 = .thread i k) ∧ ∀ i, (c'.locals i).Done :=
  ⟨continuation_bounded hT hr,fun _ _ hr' hn => done_of_stopped hh (hr.append hr') hn,
    runs_to_done hT hh hr⟩

end

/-- The signal comes while the writer holds the lock and the reader is after it. -/
theorem simulation_completes_witness : ∃ h c,
    Run (workers (AlgoType.WRITER_PRIORITY.lock (oneOfEach 2 true).Tid))
      ((oneOfEach 2 true).start (AlgoType.WRITER_PRIORITY.lock (oneOfEach 2 true).Tid) {}) h c ∧
    c.shared.process.abortSignalReceived = true ∧
    ∃ h' c', Run (workers (AlgoType.WRITER_PRIORITY.lock (oneOfEach 2 true).Tid)) c h' c' ∧
      ∀ i, (c'.locals i).Done := by
  obtain ⟨h,hr,-⟩ := Run.of_exec
    (m := workers (AlgoType.WRITER_PRIORITY.lock (oneOfEach 2 true).Tid))
    (c := (oneOfEach 2 true).start (AlgoType.WRITER_PRIORITY.lock (oneOfEach 2 true).Tid) {})
    (turns 0 [(1,12),(0,4)] ++ [.env .sigusr1]) rfl
  obtain ⟨-,-,h',c',hr',-,hd⟩ :=
    simulation_completes (by decide) (fun hf => by cases hf) hr
  exact ⟨h,_,hr,rfl,h',c',hr',hd⟩

end ReadersWriters
