import ReadersWriters.Outcomes
set_option autoImplicit false

namespace ReadersWriters
open Interleaving

section
variable {cfg : Workload} {process : Process} {S R W : Type} {L : RWLockBase cfg.Tid S R W}

/-- Some worker is not done and none can step. -/
def Hangs (L : RWLockBase cfg.Tid S R W) (c : Config cfg.Tid (SimState S) (Worker R W)) : Prop :=
  (∃ i, ¬ (c.locals i).Done) ∧ ∀ i, ¬ (workers L).Enabled c i

/-- The counter is short of what failed claims owe it, and never by more than it was at the
start. -/
theorem owed_run {h c} (hr : Run (workers L) (cfg.start L process) h c) :
    min cfg.totalOps 0 ≤ c.shared.opsRemaining+total (fun t => t.failed.toNat) c.locals := by
  refine hr.total_invariant (I := fun s (n : ℕ) => min cfg.totalOps 0 ≤ s.opsRemaining+(n : ℤ)) ?_
    ?_ ?_
  · exact (min_le_left _ _).trans (le_add_of_nonneg_right (Int.natCast_nonneg _))
  · intro i w s t s' t' r ha hI
    replace ha := workers_cases ha
    cases ha with
    | reader h | writer h =>
      cases h <;> simp only [Worker.failed,Bool.toNat_true,Bool.toNat_false] at hI ⊢ <;> omega
  · intro e s s' n he hI
    rwa [(disturbance_keeps he).1]

/-- How a writer comes to a point of its unlock call. -/
theorem unlock_step {i w : cfg.Tid} {s s' : SimState S} {t : Worker R W} {info' : ThreadInfo}
    {b a : Bool} {p : W} (h : (workers L).act i w s t = some (s',.writer info' b (.call a p)))
    (hp : L.writeLocking p = false) :
    (∃ info a p', t = .writer info b (.call a p') ∧ L.writeLocking p' = false ∧
      info'.opsCompleted = info.opsCompleted) ∨
    t.abortsHeld s = true ∨ info'.opsCompleted = t.info.opsCompleted+1 := by
  generalize ht : Worker.writer info' b (.call a p) = t' at h
  replace h := workers_cases h
  cases h with
  | reader => cases ht
  | @writer info info' b pc pc' s' h =>
    simp only [Worker.writer.injEq] at ht
    obtain ⟨rfl,rfl,hpc⟩ := ht
    cases h
    case claim =>
      cases hpc
      cases L.writeLock_locking.symm.trans hp
    case call a₀ p₀ l q hs =>
      have hl := L.writeStep_locking hs
      cases q with
      | inside q =>
        cases hpc
        exact .inl ⟨info,_,p₀,rfl,hl.symm.trans hp,by simp⟩
      | holding => cases hpc
      | idle => cases a₀ <;> cases hpc
    case abortHeld hb hf => exact .inr (.inl (by simp [Worker.abortsHeld,hb,hf]))
    case work => exact .inr (.inr rfl)
    all_goals cases hpc

/-- A writer in its unlock call has completed its operation, or somebody has aborted one. -/
theorem paid_run {h c} (hr : Run (workers L) (cfg.start L process) h c) {i : cfg.Tid}
    {info : ThreadInfo} {b a : Bool} {p : W} (hi : c.locals i = .writer info b (.call a p))
    (hp : L.writeLocking p = false) : 1 ≤ info.opsCompleted ∨ 1 ≤ h.countP isAbortHeld := by
  induction hr generalizing info b a p with
  | start =>
    simp only [Workload.start] at hi
    split at hi <;> cases hi
  | @step h c c' l hr hn ih =>
    have hmono : h.countP isAbortHeld ≤ ((c,l) :: h).countP isAbortHeld := by
      rw [List.countP_cons]
      exact Nat.le_add_right _ _
    rcases l with ⟨j,k⟩ | e
    · obtain ⟨s,t,ha,rfl⟩ := Machine.next_thread.mp hn
      by_cases hij : i = j
      · subst hij
        simp only [Function.update_self] at hi
        subst hi
        rcases unlock_step ha hp with ⟨info₀,a₀,p₀,ht,hp₀,ho⟩ | hab | ho
        · rw [ho]
          exact (ih ht hp₀).imp_right hmono.trans'
        · right
          rw [List.countP_cons_of_pos (by simpa [isAbortHeld] using hab)]
          omega
        · have hz := opsCompleted_nonneg hr i
          left
          omega
      · simp only [Function.update_of_ne hij] at hi
        exact (ih hi hp).imp_right hmono.trans'
    · obtain ⟨s,-,rfl⟩ := Machine.next_env.mp hn
      exact (ih hi hp).imp_right hmono.trans'

end

section
variable {cfg : Workload} {process : Process}

theorem client_eq_reading {R W : Type} {t : Worker R W} {p : R}
    (h : t.client = .reader (.inside p)) : ∃ info, t = .reader info (.call p) := by
  cases t with
  | reader info pc =>
    cases pc <;> simp [Worker.client] at h
    exact ⟨info,by rw [h]⟩
  | writer info b pc => cases h

theorem client_eq_writing {R W : Type} {t : Worker R W} {p : W}
    (h : t.client = .writer (.inside p)) : ∃ info b a, t = .writer info b (.call a p) := by
  cases t with
  | reader info pc => cases h
  | writer info b pc =>
    cases pc <;> simp [Worker.client] at h
    rename_i a q
    exact ⟨info,b,a,by rw [h]⟩

/-- A missed wake-up takes a reader, two writers and three operations. -/
theorem missedWakeup_needs {h c}
    (hr : Run (workers (FairMorrisLock.lock cfg.Tid))
      (cfg.start (FairMorrisLock.lock cfg.Tid) process) h c) {l}
    (hm : FairMorrisLock.MissedWakeup ((lockView (FairMorrisLock.lock cfg.Tid)).view c,l)) :
    1 ≤ cfg.numReaders ∧ 2 ≤ cfg.numWriters ∧ 3 ≤ cfg.totalOps := by
  have hv := run_clients hr
  have hI := FairMorrisLock.inv_run hv
  obtain ⟨i,k,-,hi,hw,hq,-⟩ := hm
  simp only at hi hw hq
  -- the writer that decides, a sleeping writer and a waiting reader
  obtain ⟨j,hj⟩ := List.exists_mem_of_ne_nil _ hq
  have hjl := hI.writers.asleep j hj
  obtain ⟨r,hrl⟩ : ∃ r, ((lockView (FairMorrisLock.lock cfg.Tid)).view c).locals r ∈
      FairMorrisLock.places .waitingReader := by
    have hp : 0 < headcount ((lockView (FairMorrisLock.lock cfg.Tid)).view c).locals
        (FairMorrisLock.places .waitingReader) := by
      have hc := hI.counted.waitingReaders
      omega
    obtain ⟨r,hr⟩ := Finset.card_pos.mp hp
    exact ⟨r,by simpa using hr⟩
  have hiw := RWLockBase.run_isWriter hv i
  have hjw := RWLockBase.run_isWriter hv j
  have hrw := RWLockBase.run_isWriter hv r
  have hij : i ≠ j := by
    rintro rfl
    cases hi.symm.trans hjl
  rw [hi] at hiw
  rw [hjl] at hjw
  obtain ⟨p,hrp,hp⟩ : ∃ p, ((lockView (FairMorrisLock.lock cfg.Tid)).view c).locals r =
      FairMorrisLock.reading p ∧ FairMorrisLock.readLocking p = true := by
    simp only [FairMorrisLock.places,List.mem_cons,List.not_mem_nil,or_false] at hrl
    rcases hrl with hrl | hrl
    · exact ⟨_,hrl,rfl⟩
    · exact ⟨_,hrl,rfl⟩
  rw [hrp] at hrw
  simp only [Client.isWriter,Workload.isWriter] at hiw hjw hrw
  have hiw := of_decide_eq_true hiw.symm
  have hjw := of_decide_eq_true hjw.symm
  have hrw := of_decide_eq_false hrw.symm
  have hne : i.val ≠ j.val := fun he => hij (Fin.ext he)
  refine ⟨by omega,by omega,?_⟩
  have hri : r ≠ i := by
    rintro rfl
    omega
  have hrj : r ≠ j := by
    rintro rfl
    omega
  -- each of the three has claimed an operation of its own
  let f : cfg.Tid → ℤ := fun x =>
    (c.locals x).info.opsCompleted+((c.locals x).held (FairMorrisLock.lock cfg.Tid)).toNat
  have hf₀ : ∀ x, 0 ≤ f x := fun x => by
    have hx := opsCompleted_nonneg hr x
    simp only [f]
    omega
  have hsum : f i+f j+f r ≤ ∑ x, f x := by
    have hsub := Finset.sum_le_sum_of_subset_of_nonneg (Finset.subset_univ {i,j,r})
      fun x _ _ => hf₀ x
    rwa [Finset.sum_insert (by simp [hij,hri.symm]),Finset.sum_pair hrj.symm,← add_assoc] at hsub
  have hj₁ : 1 ≤ f j := by
    obtain ⟨info,b,a,ht⟩ := client_eq_writing (show (c.locals j).client = _ from hjl)
    have hx := opsCompleted_nonneg hr j
    simp only [f]
    rw [show (c.locals j).held (FairMorrisLock.lock cfg.Tid) = true by rw [ht]; rfl,
      Bool.toNat_true]
    omega
  have hr₁ : 1 ≤ f r := by
    obtain ⟨info,ht⟩ := client_eq_reading (show (c.locals r).client = _ from hrp)
    have hx := opsCompleted_nonneg hr r
    simp only [f]
    rw [show (c.locals r).held (FairMorrisLock.lock cfg.Tid) = true by rw [ht]; exact hp,
      Bool.toNat_true]
    omega
  have hi₁ : 1 ≤ f i ∨ 1 ≤ h.countP isAbortHeld := by
    obtain ⟨info,b,a,ht⟩ := client_eq_writing (show (c.locals i).client = _ from hi)
    refine (paid_run hr ht rfl).imp_left fun hx => ?_
    simp only [f,ht,Worker.info]
    omega
  have hs := settled_run hr
  have hfail := owed_run hr
  have htot : total (Worker.settled (FairMorrisLock.lock cfg.Tid)) c.locals =
      ∑ x, f x+total (fun t => t.failed.toNat) c.locals := by
    simp only [total,Worker.settled,f,Finset.sum_add_distrib,Nat.cast_sum]
  have hi₀ := hf₀ i
  omega

/-- A simulation that hangs has missed a wake-up. -/
theorem hang_needs {algo : AlgoType} {h c}
    (hr : Run (workers (algo.lock cfg.Tid)) (cfg.start (algo.lock cfg.Tid) process) h c)
    (hc : Hangs (algo.lock cfg.Tid) c) :
    algo = .FAIR_MORRIS ∧ 1 ≤ cfg.numReaders ∧ 2 ≤ cfg.numWriters ∧ 3 ≤ cfg.totalOps := by
  obtain ⟨hd,hn⟩ := hc
  have hP : ¬ (algo.lock cfg.Tid).Progress ((lockView (algo.lock cfg.Tid)).view c) := fun hP => by
    obtain ⟨i,hi⟩ := enabled_of_progress hP hd
    exact hn i hi
  cases algo with
  | READER_PRIORITY =>
    exact absurd (ReaderPriorityLock.progress (ReaderPriorityLock.inv_run (run_clients hr))) hP
  | WRITER_PRIORITY =>
    exact absurd (WriterPriorityLock.progress (WriterPriorityLock.inv_run (run_clients hr))) hP
  | FAIR_MORRIS =>
    refine ⟨rfl,?_⟩
    have hm : ∃ e ∈ (lockView (FairMorrisLock.lock cfg.Tid)).history h,
        FairMorrisLock.MissedWakeup e := by
      by_contra hm
      have hS := FairMorrisLock.served_run (run_clients hr) fun e he hx => hm ⟨e,he,hx⟩
      exact hP (FairMorrisLock.progress (FairMorrisLock.inv_run (run_clients hr)) hS)
    obtain ⟨e,he,hm⟩ := hm
    obtain ⟨e₀,he₀,hv⟩ := (lockView _).mem_history.mp he
    obtain ⟨l,-,rfl⟩ := Option.map_eq_some_iff.mp hv
    obtain ⟨h₀,-,hr₀,-⟩ := hr.reach_of_mem he₀
    exact missedWakeup_needs hr₀ hm

end

namespace FairMorrisLock

section
variable {ι : Type} [DecidableEq ι] (r w : ι)

/-- Reader `r` and writer `w` sleep while another writer holds the lock. -/
def bothAsleep : Shared ι where
  activeWriter := true
  waitingReaders := 1
  readCond := [r]
  waitingWriters := 1
  writeCond := [w]

/-- The lock is free, and the reader has gone back to sleep. -/
def abandoned : Shared ι := { bothAsleep r w with activeWriter := false }

theorem writer_sleeps (w : ι) : Returns (lock ι).writeStep .inside w (.inside .lockCondWait)
    (rest .writer) .lockWaiting
    { activeWriter := true, waitingWriters := 1, writeCond := [w] } :=
  .more (k := w) rfl (.more (k := w) rfl (.last (k := w) rfl))

theorem reader_sleeps : Returns (lock ι).readStep .inside r (.inside .lockCondWait)
    { activeWriter := true, waitingWriters := 1, writeCond := [w] } .lockWaiting (bothAsleep r w) :=
  .more (k := r) rfl (.more (k := r) rfl (.last (k := r) rfl))

/-- The wake-up goes to the reader alone. -/
theorem writer_wakes (i : ι) : Returns (lock ι).writeStep .inside i .idle (bothAsleep r w)
    .unlockMutexLock { abandoned r w with readCond := [] } :=
  .more (k := i) rfl (.more (k := i) rfl (.more (k := i) rfl (.more (k := i) rfl
    (.last (k := i) rfl))))

theorem reader_sleeps_again : Returns (lock ι).readStep .inside r (.inside .lockCondWait)
    { abandoned r w with readCond := [] } .lockCondWait (abandoned r w) :=
  .more (k := r) rfl (.more (k := r) rfl (.last (k := r) rfl))

end

end FairMorrisLock

section
variable {cfg : Workload} {process : Process}

/-- One writer does all operations but three; the last three leave a reader and a writer
asleep. -/
theorem hang_run (process : Process) (ha : cfg.enableAbortTest = false) (hr : 1 ≤ cfg.numReaders)
    (hw : 2 ≤ cfg.numWriters) (hT : 3 ≤ cfg.totalOps) : ∃ h c,
    Run (workers (FairMorrisLock.lock cfg.Tid))
      (cfg.start (FairMorrisLock.lock cfg.Tid) process) h c ∧
    (∀ e ∈ h, ∃ j k, e.2 = .thread j k) ∧ Hangs (FairMorrisLock.lock cfg.Tid) c := by
  let r₀ : cfg.Tid := ⟨0,by omega⟩
  let w₀ : cfg.Tid := ⟨cfg.numReaders,by omega⟩
  let w₁ : cfg.Tid := ⟨cfg.numReaders+1,by omega⟩
  have hrw₀ : r₀ ≠ w₀ := by simp [r₀,w₀]; omega
  have hrw₁ : r₀ ≠ w₁ := by simp [r₀,w₁]
  have hww : w₀ ≠ w₁ := by simp [w₀,w₁]
  obtain ⟨h₁,c₁,hr₁,hl₁,hB₁,ho₁,-⟩ := start_run process
    (FairMorrisLock.uncontended cfg.Tid) fun hb => by cases ha.symm.trans hb
  obtain ⟨h₂,c₂,hr₂,hl₂,hB₂,ho₂,-⟩ := rounds_run
    (List.replicate (cfg.totalOps-3).toNat w₀) hB₁ (by
      rw [List.length_replicate]
      omega)
  rw [List.length_replicate] at ho₂
  have hclient : ∀ i, (c₂.locals i).client.isWriter = cfg.isWriter i :=
    fun i => RWLockBase.run_isWriter (run_clients (hr₁.append hr₂)) i
  obtain ⟨i₀,b₀,ht₀,hb₀⟩ := (hB₂.heads w₀).of_writer ((hclient w₀).trans (by
    simp [Workload.isWriter,w₀]))
  obtain ⟨i₁,b₁,ht₁,hb₁⟩ := (hB₂.heads w₁).of_writer ((hclient w₁).trans (by
    simp [Workload.isWriter,w₁]))
  obtain ⟨i₂,ht₂⟩ := (hB₂.heads r₀).of_reader ((hclient r₀).trans (by
    simp [Workload.isWriter,r₀]
    omega))
  -- the first writer takes the lock, the other two go to sleep
  obtain ⟨i₃,hs₃,-⟩ := writer_acquires i₀ hb₀ (by omega)
    (hB₂.quiet ▸ (FairMorrisLock.uncontended cfg.Tid).writeLock w₀)
  obtain ⟨h₃,c₃,hr₃,hl₃,hc₃,hw₃,hk₃⟩ := Solo.after (c := c₂) (ht₀ ▸ hs₃)
  obtain ⟨i₄,hs₄,-⟩ := writer_acquires i₁ (s := c₃.shared) (i := w₁) (b := b₁)
    (by simpa only [hc₃] using hb₁) (by simp only [hc₃]; omega)
    (by rw [hc₃]; exact FairMorrisLock.writer_sleeps w₁)
  obtain ⟨h₄,c₄,hr₄,hl₄,hc₄,hw₄,hk₄⟩ := Solo.after (c := c₃)
    (by rw [hk₃ w₁ hww.symm,ht₁]; exact hs₄)
  rw [hc₃] at hc₄
  obtain ⟨i₅,hs₅,-⟩ := reader_acquires i₂ (s := c₄.shared) (i := r₀)
    (by simp only [hc₄]; omega) (by rw [hc₄]; exact FairMorrisLock.reader_sleeps r₀ w₁)
  obtain ⟨h₅,c₅,hr₅,hl₅,hc₅,hw₅,hk₅⟩ := Solo.after (c := c₄)
    (by rw [hk₄ r₀ hrw₁,hk₃ r₀ hrw₀,ht₂]; exact hs₅)
  rw [hc₄] at hc₅
  -- it wakes the reader, which finds the second writer waiting
  obtain ⟨s₆,i₆,hs₆,hl₆',ho₆,hp₆,-⟩ := writer_releases i₃ (s := c₅.shared) (i := w₀) (b := b₀)
    (by simpa only [hc₅] using hb₀) (by rw [hc₅]; exact FairMorrisLock.writer_wakes r₀ w₁ w₀)
  obtain ⟨h₆,c₆,hr₆,hl₆,hc₆,hw₆,hk₆⟩ := Solo.after (c := c₅)
    (by rw [hk₅ w₀ hrw₀.symm,hk₄ w₀ hww,hw₃]; exact hs₆)
  obtain ⟨i₇,hs₇,-⟩ := reader_call i₅ (s := s₆) (FairMorrisLock.reader_sleeps_again r₀ w₁) hl₆'
  obtain ⟨h₇,c₇,hr₇,hl₇,hc₇,hw₇,hk₇⟩ := Solo.after (c := c₆)
    (by rw [hk₆ r₀ hrw₀,hw₅,hc₆]; exact hs₇)
  have ho₇ : c₇.shared.opsRemaining = 0 := by
    simp only [hc₇,ho₆,hc₅]
    omega
  have hf₇ : c₇.shared.process = c₂.shared.process := by
    simp only [hc₇,hp₆,hc₅]
  -- the others leave
  have hheads : ∀ i, i ≠ r₀ → i ≠ w₁ → (c₇.locals i).AtHead c₇.shared := by
    intro i hi hi'
    rw [hk₇ i hi]
    by_cases h₀ : i = w₀
    · subst h₀
      rw [hw₆]
      exact ⟨rfl,by rw [hf₇]; exact hb₀⟩
    · rw [hk₆ i h₀,hk₅ i hi,hk₄ i hi',hk₃ i h₀]
      exact (hB₂.heads i).congr (congrArg Process.abortSignalReceived hf₇)
  obtain ⟨h₈,c₈,hr₈,hl₈,hs₈,hd₈,hk₈⟩ := leave_run (L := FairMorrisLock.lock cfg.Tid)
    (l := (List.finRange _).filter fun i => i ≠ r₀ ∧ i ≠ w₁) (c := c₇)
    ((List.nodup_finRange _).filter _)
    (fun i hi => by
      obtain ⟨hi,hi'⟩ := of_decide_eq_true (List.mem_filter.mp hi).2
      exact hheads i hi hi') ho₇.le
  have hrun := (((((((hr₁.append hr₂).append hr₃).append hr₄).append hr₅).append hr₆).append
    hr₇).append hr₈)
  have hI := FairMorrisLock.inv_run (run_clients hrun)
  have hlock : c₈.shared.lock = FairMorrisLock.abandoned r₀ w₁ := by
    rw [hs₈,hc₇]
  refine ⟨_,c₈,hrun,?_,⟨r₀,?_⟩,fun i => ?_⟩
  · simp only [List.mem_append]
    rintro e (he | he | he | he | he | he | he | he)
    · exact hl₈ e he
    · exact hl₇ e he
    · exact hl₆ e he
    · exact hl₅ e he
    · exact hl₄ e he
    · exact hl₃ e he
    · exact hl₂ e he
    · exact hl₁ e he
  · rw [hk₈ r₀ (by simp),hw₇]
    exact fun hd => by cases hd
  · by_cases hi : i = r₀
    · exact not_enabled_of_asleep hI (.inl (by rw [hlock,hi]; exact List.mem_singleton_self _))
    · by_cases hi' : i = w₁
      · exact not_enabled_of_asleep hI (.inr (by rw [hlock,hi']; exact List.mem_singleton_self _))
      · exact not_enabled_of_done (hd₈ i (by simp [hi,hi'])).1

end

end ReadersWriters
