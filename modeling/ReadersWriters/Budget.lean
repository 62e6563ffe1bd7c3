import ReadersWriters.ReaderPriority
import ReadersWriters.Worker
import Mathlib.Algebra.Order.BigOperators.Group.Finset
set_option autoImplicit false

namespace ReadersWriters
open Interleaving

/-- What a thread can have to do with the operation budget: it holds a claimed operation
that is not yet counted in `opsCompleted`, it has yet to give a failed claim back, or it
is on its way out of the loop. -/
inductive Stake where
  | held | failed | exited
  deriving DecidableEq, Repr

namespace Worker

variable {R W : Type}

/-- About to execute `opsRemaining->fetch_sub`. -/
def atClaim : Worker R W → Bool
  | .reader _ .claim | .writer _ _ .claim => true
  | _ => false

variable {ι S : Type} (L : RWLockBase ι S R W)

def held : Worker R W → Bool
  | .reader _ pc => match pc with
      | .call p => L.readLocking p
      | .read | .loadReadCount _ | .storeReadCount _ | .work => true
      | _ => false
  | .writer _ _ pc => match pc with
      | .call _ p => L.writeLocking p
      | .abortTestHeld | .loadData | .storeData _ | .loadWriteCount | .storeWriteCount _
      | .work => true
      | _ => false

def failed : Worker R W → Bool
  | .reader _ .restore | .writer _ _ .restore => true
  | _ => false

def exited : Worker R W → Bool
  | .reader _ pc => match pc with
      | .restore | .finish | .done => true
      | _ => false
  | .writer _ _ pc => match pc with
      | .call aborted _ => aborted
      | .restore | .finish | .done => true
      | _ => false

def stake (t : Worker R W) : Stake → Bool
  | .held => t.held L
  | .failed => t.failed
  | .exited => t.exited

/-- A thread's completed operations and its stakes. -/
def account (t : Worker R W) : ℤ × (Stake → ℕ) :=
  (t.info.opsCompleted,fun x => (t.stake L x).toNat)

end Worker

section
variable {ι S R W : Type}

/-- A claim that succeeds. -/
def isClaim (e : Event ι ι (Disturbance ι) (SimState S) (Worker R W)) : Bool :=
  match e.2 with
  | .thread i _ => (e.1.locals i).atClaim && 0 < e.1.shared.opsRemaining
  | .env _ => false

def claims (h : List (Event ι ι (Disturbance ι) (SimState S) (Worker R W))) : ℕ :=
  h.countP isClaim

end

/-- The budget, with `n` the sum of all accounts: the claimed operations are those that
are completed or held, and a failed claim means that there was nothing left to claim. -/
structure Budget {S : Type} (totalOps : ℤ) (claimed : ℕ) (s : SimState S) (n : ℤ × (Stake → ℕ)) :
    Prop where
  remaining : s.opsRemaining = totalOps-claimed-n.2 .failed
  spent : claimed = n.1+n.2 .held
  within : claimed ≤ totalOps
  exhausted : claimed = totalOps ∨ n.2 .failed = 0 ∧ n.2 .exited = 0

section
variable {ι S R W : Type} {L : RWLockBase ι S R W} {i w : ι} {s s' : SimState S}
  {t t' : Worker R W} {r : ℤ × (Stake → ℕ)} {totalOps : ℤ} {k : ℕ}

theorem budget_account : Budget totalOps k s (r+t.account L) ↔
    s.opsRemaining = totalOps-k-(r.2 .failed+t.failed.toNat : ℕ) ∧
    k = r.1+t.info.opsCompleted+(r.2 .held+(t.held L).toNat : ℕ) ∧ k ≤ totalOps ∧
    (k = totalOps ∨ r.2 .failed+t.failed.toNat = 0 ∧ r.2 .exited+t.exited.toNat = 0) :=
  ⟨fun ⟨hr,hc,hw,he⟩ => ⟨hr,hc,hw,he⟩,fun ⟨hr,hc,hw,he⟩ => ⟨hr,hc,hw,he⟩⟩

/-- A step that touches neither the counter nor the thread's account. -/
theorem Budget.neutral (hB : Budget totalOps k s (r+t.account L))
    (hs : s'.opsRemaining = s.opsRemaining) (hc : t'.info.opsCompleted = t.info.opsCompleted)
    (hh : t'.held L = t.held L) (hf : t'.failed = t.failed)
    (he : t'.exited = true → t.exited = true) : Budget totalOps k s' (r+t'.account L) := by
  rw [budget_account] at hB ⊢
  rw [hs,hc,hh,hf]
  have hx : t'.exited.toNat ≤ t.exited.toNat := Bool.toNat_le_toNat (Bool.le_iff_imp.mpr he)
  omega

theorem Budget.claim (hB : Budget totalOps k s (r+t.account L)) (hp : 0 < s.opsRemaining)
    (hs : s'.opsRemaining = s.opsRemaining-1) (hc : t'.info.opsCompleted = t.info.opsCompleted)
    (hh : t.held L = false) (hh' : t'.held L = true) (hf : t'.failed = t.failed)
    (he : t'.exited = t.exited) : Budget totalOps (k+1) s' (r+t'.account L) := by
  rw [budget_account] at hB ⊢
  rw [hs,hc,hh',hf,he,Bool.toNat_true]
  rw [hh,Bool.toNat_false] at hB
  omega

/-- A claim fails only when every operation is claimed. -/
theorem Budget.claimFailed (hB : Budget totalOps k s (r+t.account L)) (hp : s.opsRemaining ≤ 0)
    (hs : s'.opsRemaining = s.opsRemaining-1) (hc : t'.info.opsCompleted = t.info.opsCompleted)
    (hh : t'.held L = t.held L) (hf : t.failed = false) (hf' : t'.failed = true) :
    Budget totalOps k s' (r+t'.account L) := by
  rw [budget_account] at hB ⊢
  rw [hs,hc,hh,hf',Bool.toNat_true]
  rw [hf,Bool.toNat_false] at hB
  omega

theorem Budget.restore (hB : Budget totalOps k s (r+t.account L))
    (hs : s'.opsRemaining = s.opsRemaining+1) (hc : t'.info.opsCompleted = t.info.opsCompleted)
    (hh : t'.held L = t.held L) (hf : t.failed = true) (hf' : t'.failed = false) :
    Budget totalOps k s' (r+t'.account L) := by
  rw [budget_account] at hB ⊢
  rw [hs,hc,hh,hf',Bool.toNat_false]
  rw [hf,Bool.toNat_true] at hB
  omega

theorem Budget.complete (hB : Budget totalOps k s (r+t.account L))
    (hs : s'.opsRemaining = s.opsRemaining) (hc : t'.info.opsCompleted = t.info.opsCompleted+1)
    (hh : t.held L = true) (hh' : t'.held L = false) (hf : t'.failed = t.failed)
    (he : t'.exited = t.exited) : Budget totalOps k s' (r+t'.account L) := by
  rw [budget_account] at hB ⊢
  rw [hs,hc,hh',hf,he,Bool.toNat_false]
  rw [hh,Bool.toNat_true] at hB
  omega

/-- Without an abort signal a step keeps the budget, one claim further if it claims. -/
theorem budget_step (h : (workers L).act i w s t = some (s',t'))
    (ha : s.process.abortSignalReceived = false) (hB : Budget totalOps k s (r+t.account L)) :
    Budget totalOps (if t.atClaim ∧ 0 < s.opsRemaining then k+1 else k) s' (r+t'.account L) := by
  replace h := workers_cases h
  cases h with
  | reader h =>
    cases h
    case claim hp =>
      rw [if_pos ⟨rfl,hp⟩]
      exact hB.claim hp rfl rfl rfl L.readLock_locking rfl rfl
    case claimFailed hp =>
      rw [if_neg (by omega)]
      exact hB.claimFailed hp rfl rfl rfl rfl rfl
    all_goals rw [if_neg (by simp [Worker.atClaim])]
    case restore => exact hB.restore rfl rfl rfl rfl rfl
    case work => exact hB.complete rfl rfl rfl L.readUnlock_locking rfl rfl
    case call p l q hs =>
      have hl := L.readStep_locking hs
      cases q <;> exact hB.neutral rfl (by simp [Worker.info]) hl rfl id
    all_goals exact hB.neutral rfl rfl rfl rfl id
  | writer h =>
    cases h
    case claim hp =>
      rw [if_pos ⟨rfl,hp⟩]
      exact hB.claim hp rfl rfl rfl L.writeLock_locking rfl rfl
    case claimFailed hp =>
      rw [if_neg (by omega)]
      exact hB.claimFailed hp rfl rfl rfl rfl rfl
    case abort hs | abortHeld hs =>
      rw [ha] at hs
      cases hs
    all_goals rw [if_neg (by simp [Worker.atClaim])]
    case restore => exact hB.restore rfl rfl rfl rfl rfl
    case work => exact hB.complete rfl rfl rfl L.writeUnlock_locking rfl rfl
    case call a p l q hs =>
      have hl := L.writeStep_locking hs
      cases q with
      | inside q => exact hB.neutral rfl (by simp [Worker.info]) hl rfl id
      | holding => exact hB.neutral rfl (by simp [Worker.info]) hl rfl fun he => by cases he
      | idle => cases a <;> exact hB.neutral rfl (by simp [Worker.info]) hl rfl id
    all_goals exact hB.neutral rfl rfl rfl rfl id

/-- Only the signal itself sets the flag. -/
theorem abortSignalReceived_step (h : (workers L).act i w s t = some (s',t')) :
    s'.process.abortSignalReceived = s.process.abortSignalReceived := by
  replace h := workers_cases h
  cases h with
  | reader h => cases h <;> rfl
  | writer h => cases h <;> rfl

end

section
variable {cfg : Workload} {process : Process} {S R W : Type} {L : RWLockBase cfg.Tid S R W}
  {h : List (Event cfg.Tid cfg.Tid (Disturbance cfg.Tid) (SimState S) (Worker R W))}
  {c : Config cfg.Tid (SimState S) (Worker R W)}

theorem no_abort_signal (hp : process.abortSignalReceived = false)
    (hr : Run (workers L) (cfg.start L process) h c) (hs : ∀ e ∈ h, e.2 ≠ .env .sigusr1) :
    c.shared.process.abortSignalReceived = false := by
  refine hr.invariant (P := fun c => c.shared.process.abortSignalReceived = false) hp ?_ hs
  intro c l c' hc hl hn
  cases l with
  | thread i k =>
    obtain ⟨s,t,ha,rfl⟩ := Machine.next_thread.mp hn
    exact (abortSignalReceived_step ha).trans hc
  | env e =>
    obtain ⟨s,he,rfl⟩ := Machine.next_env.mp hn
    cases disturbance_cases he with
    | spuriousWake => exact hc
    | sigusr1 => exact absurd rfl hl

theorem account_start : total (Worker.account L) (cfg.start L process).locals = 0 :=
  total_start (Prod.ext rfl (funext fun x => by cases x <;> rfl))
    fun _ => Prod.ext rfl (funext fun x => by cases x <;> rfl)

theorem claims_cons (c : Config cfg.Tid (SimState S) (Worker R W)) (i k : cfg.Tid) :
    claims ((c,.thread i k) :: h) =
      if (c.locals i).atClaim ∧ 0 < c.shared.opsRemaining then claims h+1 else claims h := by
  simp only [claims,List.countP_cons,isClaim,Bool.and_eq_true,decide_eq_true_eq]
  split <;> rfl

theorem budget_run (hT : 0 ≤ cfg.totalOps) (hp : process.abortSignalReceived = false)
    (hr : Run (workers L) (cfg.start L process) h c) (hs : ∀ e ∈ h, e.2 ≠ .env .sigusr1) :
    Budget cfg.totalOps (claims h) c.shared (total (Worker.account L) c.locals) := by
  refine hr.total_history_invariant (I := fun h s n =>
    s.process.abortSignalReceived = false → Budget cfg.totalOps (claims h) s n) ?_ ?_ ?_
    (no_abort_signal hp hr hs)
  · intro _
    rw [account_start]
    exact ⟨by simp [Workload.start,claims],by simp [claims],by simpa [claims] using hT,by simp⟩
  · intro h c i k s t r ha hB hf
    rw [abortSignalReceived_step ha] at hf
    rw [claims_cons]
    exact budget_step ha hf (hB hf)
  · intro h c e s n he hB hf
    cases disturbance_cases he with
    | spuriousWake =>
      obtain ⟨hr,hc,hw,hx⟩ := hB hf
      exact ⟨hr,hc,hw,hx⟩
    | sigusr1 => cases hf

theorem total_completed (l : cfg.Tid → Worker R W) :
    (total (Worker.account L) l).1 = ∑ i, (l i).info.opsCompleted := Prod.fst_sum

theorem total_stake (l : cfg.Tid → Worker R W) (x : Stake) :
    (total (Worker.account L) l).2 x = ∑ i, ((l i).stake L x).toNat := by
  simp only [total,Worker.account,Prod.snd_sum,Finset.sum_apply]

theorem total_stake_pos {l : cfg.Tid → Worker R W} {x : Stake} {i : cfg.Tid}
    (hi : (l i).stake L x = true) : 0 < (total (Worker.account L) l).2 x := by
  rw [total_stake]
  refine Finset.sum_pos' (fun _ _ => Nat.zero_le _) ⟨i,Finset.mem_univ i,?_⟩
  rw [hi]
  decide

theorem total_stake_le (l : cfg.Tid → Worker R W) (x : Stake) :
    (total (Worker.account L) l).2 x ≤ cfg.numReaders+cfg.numWriters := by
  rw [total_stake]
  calc ∑ i, ((l i).stake L x).toNat ≤ ∑ _i : cfg.Tid, 1 :=
        Finset.sum_le_sum fun i _ => Bool.toNat_le _
    _ = cfg.numReaders+cfg.numWriters := by simp

theorem total_stake_done {l : cfg.Tid → Worker R W} (hd : ∀ i, (l i).Done) {x : Stake}
    (hx : x ≠ .exited) : (total (Worker.account L) l).2 x = 0 := by
  rw [total_stake]
  refine Finset.sum_eq_zero fun i _ => ?_
  have hi := hd i
  cases hl : l i with
  | reader info pc =>
    rw [hl] at hi
    cases hi
    cases x <;> first | rfl | exact absurd rfl hx
  | writer info b pc =>
    rw [hl] at hi
    cases hi
    cases x <;> first | rfl | exact absurd rfl hx

theorem Worker.exited_of_done {t : Worker R W} (h : t.Done) : t.exited = true := by
  cases t <;> cases h <;> rfl

/-- The operation budget is exact over any lock, as long as no abort signal arrives. -/
theorem operation_budget (hT : 0 ≤ cfg.totalOps) (hT' : cfg.totalOps ≤ 2147483647)
    (hn : 0 < cfg.numReaders+cfg.numWriters) (hp : process.abortSignalReceived = false)
    (hr : Run (workers L) (cfg.start L process) h c) (hs : ∀ e ∈ h, e.2 ≠ .env .sigusr1) :
    claims h ≤ cfg.totalOps ∧
    (∀ i, (c.locals i).atClaim = true → c.shared.opsRemaining ≤ 0 → claims h = cfg.totalOps) ∧
    (∀ i, (c.locals i).exited = true → claims h = cfg.totalOps) ∧
    -2147483648 ≤ c.shared.opsRemaining ∧ c.shared.opsRemaining ≤ 2147483647 ∧
    ((∀ i, (c.locals i).Done) → c.shared.opsRemaining = 0 ∧
      ∑ i, (c.locals i).info.opsCompleted = cfg.totalOps) := by
  obtain ⟨hb,hc,hw,he⟩ := budget_run hT hp hr hs
  have hf := total_stake_le (L := L) c.locals .failed
  have ht := cfg.totalThreads_int
  have hx : ∀ i, (c.locals i).exited = true → claims h = cfg.totalOps := by
    intro i hi
    have hpos := total_stake_pos (L := L) (x := .exited) (i := i) hi
    omega
  refine ⟨hw,fun i _ hle => by omega,hx,by omega,by omega,fun hd => ?_⟩
  have hz := fun x => total_stake_done (L := L) (x := x) hd
  rw [hz .failed (by decide)] at hb
  rw [hz .held (by decide),total_completed] at hc
  have hall := hx ⟨0,hn⟩ (Worker.exited_of_done (hd _))
  constructor <;> omega

end

/-- The reader does the only operation; the writer's claim fails, whereupon both finish. -/
theorem operation_budget_witness : ∃ h c,
    Run (workers (ReaderPriorityLock.lock (oneOfEach 1 false).Tid))
      ((oneOfEach 1 false).start (ReaderPriorityLock.lock (oneOfEach 1 false).Tid) {}) h c ∧
    c.shared.opsRemaining = 0 ∧ ∑ i, (c.locals i).info.opsCompleted = 1 := by
  obtain ⟨h,hr,hl,-⟩ := Run.of_turns
    (m := workers (ReaderPriorityLock.lock (oneOfEach 1 false).Tid))
    (c := (oneOfEach 1 false).start (ReaderPriorityLock.lock (oneOfEach 1 false).Tid) {})
    0 [(0,12),(1,6),(0,8)] rfl
  have hs : ∀ e ∈ h, e.2 ≠ .env .sigusr1 := by
    intro e he hs
    obtain ⟨i,k,hk⟩ := hl e he
    cases hs.symm.trans hk
  obtain ⟨-,-,-,-,-,hd⟩ := operation_budget (by decide) (by decide)
    (by decide) rfl hr hs
  exact ⟨h,_,hr,hd (Fin.forall_fin_two.mpr ⟨rfl,rfl⟩)⟩

section
variable {ι S R W : Type}

/-- The exit of a writer that has been admitted when it sees the abort signal. -/
def Worker.abortsHeld (s : SimState S) : Worker R W → Bool
  | .writer _ isAbortTarget .abortTestHeld => isAbortTarget && s.process.abortSignalReceived
  | _ => false

def isAbortHeld (e : Event ι ι (Disturbance ι) (SimState S) (Worker R W)) : Bool :=
  match e.2 with
  | .thread i _ => (e.1.locals i).abortsHeld e.1.shared
  | .env _ => false

/-- The claims of a thread that are not given back: completed, held or failed. -/
def Worker.settled (L : RWLockBase ι S R W) (t : Worker R W) : ℤ :=
  t.info.opsCompleted+(t.held L).toNat+t.failed.toNat

variable {L : RWLockBase ι S R W} {i w : ι} {s s' : SimState S} {t t' : Worker R W}

/-- The abort exit drops a claim; every other step moves it to where it belongs. -/
theorem settled_step (h : (workers L).act i w s t = some (s',t')) :
    s'.opsRemaining+t'.settled L =
      s.opsRemaining+t.settled L-if t.abortsHeld s then 1 else 0 := by
  replace h := workers_cases h
  cases h with
  | reader h =>
    rw [if_neg (by simp [Worker.abortsHeld])]
    cases h
    case claim =>
      simp only [Worker.settled,Worker.info,Worker.held,Worker.failed,L.readLock_locking,
        Bool.toNat_true,Bool.toNat_false]
      omega
    case claimFailed | restore =>
      simp only [Worker.settled,Worker.info,Worker.held,Worker.failed,Bool.toNat_true,
        Bool.toNat_false]
      omega
    case work =>
      simp only [Worker.settled,Worker.info,Worker.held,Worker.failed,L.readUnlock_locking,
        Bool.toNat_true,Bool.toNat_false]
      omega
    case call p l q hs =>
      have hl := L.readStep_locking hs
      cases q <;> simp_all [Worker.settled,Worker.info,Worker.held,Worker.failed,ReaderAt.resume,
        Pos.locking]
    all_goals simp [Worker.settled,Worker.info,Worker.held,Worker.failed]
  | writer h =>
    cases h
    case abortHeld hb hs =>
      rw [if_pos (by simp [Worker.abortsHeld,hb,hs])]
      simp only [Worker.settled,Worker.info,Worker.held,Worker.failed,L.writeUnlock_locking,
        Bool.toNat_true,Bool.toNat_false]
      omega
    case abortTestHeld hn =>
      rw [if_neg (by simp [Worker.abortsHeld,hn])]
      simp [Worker.settled,Worker.info,Worker.held,Worker.failed]
    all_goals rw [if_neg (by simp [Worker.abortsHeld])]
    case claim =>
      simp only [Worker.settled,Worker.info,Worker.held,Worker.failed,L.writeLock_locking,
        Bool.toNat_true,Bool.toNat_false]
      omega
    case claimFailed | restore =>
      simp only [Worker.settled,Worker.info,Worker.held,Worker.failed,Bool.toNat_true,
        Bool.toNat_false]
      omega
    case work =>
      simp only [Worker.settled,Worker.info,Worker.held,Worker.failed,L.writeUnlock_locking,
        Bool.toNat_true,Bool.toNat_false]
      omega
    case call a p l q hs =>
      have hl := L.writeStep_locking hs
      cases q <;> cases a <;> simp_all [Worker.settled,Worker.info,Worker.held,Worker.failed,
        WriterAt.resume,Pos.locking]
    all_goals simp [Worker.settled,Worker.info,Worker.held,Worker.failed]

end

section
variable {cfg : Workload} {process : Process} {S R W : Type} {L : RWLockBase cfg.Tid S R W}
  {h : List (Event cfg.Tid cfg.Tid (Disturbance cfg.Tid) (SimState S) (Worker R W))}
  {c : Config cfg.Tid (SimState S) (Worker R W)}

/-- Each abort exit of a writer that has been admitted costs the budget an operation. -/
theorem settled_run (hr : Run (workers L) (cfg.start L process) h c) :
    c.shared.opsRemaining+total (Worker.settled L) c.locals =
      cfg.totalOps-h.countP isAbortHeld := by
  refine hr.total_history_invariant (I := fun h s n =>
    s.opsRemaining+n = cfg.totalOps-h.countP isAbortHeld) ?_ ?_ ?_
  · rw [total_start rfl fun _ => rfl]
    simp [Workload.start]
  · intro h c i k s t r ha hI
    have hs := settled_step ha
    simp only [List.countP_cons,isAbortHeld]
    split at hs <;> simp_all <;> omega
  · intro h c e s n he hI
    simpa [List.countP_cons,isAbortHeld,(disturbance_keeps he).1] using hI

/-- Every claimed operation is completed, held or given back, exactly as long as no writer
leaves after its admission because of the abort signal. -/
theorem claims_settled (hr : Run (workers L) (cfg.start L process) h c) :
    (c.shared.opsRemaining+(∑ i, ((c.locals i).held L).toNat+∑ i, (c.locals i).failed.toNat : ℕ)+
        ∑ i, (c.locals i).info.opsCompleted = cfg.totalOps ∧
      ∀ i, (c.locals i).Done → (c.locals i).held L = false ∧ (c.locals i).failed = false) ↔
    ∀ e ∈ h, isAbortHeld e = false := by
  have hT := settled_run hr
  have hsum : total (Worker.settled L) c.locals = ∑ i, (c.locals i).info.opsCompleted+
      (∑ i, ((c.locals i).held L).toNat : ℕ)+(∑ i, (c.locals i).failed.toNat : ℕ) := by
    simp only [total,Worker.settled,Finset.sum_add_distrib,Nat.cast_sum]
  have hcount : h.countP isAbortHeld = 0 ↔ ∀ e ∈ h, isAbortHeld e = false := by
    simp only [List.countP_eq_zero,Bool.not_eq_true]
  rw [← hcount]
  refine ⟨fun hs => ?_,fun h0 => ⟨by omega,fun i hi => ?_⟩⟩
  · have he := hs.1
    omega
  · cases ht : c.locals i with
    | reader | writer =>
      rw [ht] at hi
      cases hi
      exact ⟨rfl,rfl⟩

end

/-- The signal finds the writer at the head of its loop; the operation is left to the reader. -/
theorem claims_settled_witness : ∃ h c,
    Run (workers (ReaderPriorityLock.lock (oneOfEach 1 true).Tid))
      ((oneOfEach 1 true).start (ReaderPriorityLock.lock (oneOfEach 1 true).Tid) {}) h c ∧
    (c.locals 1).Done ∧ c.shared.process.abortSignalReceived = true ∧
    c.shared.opsRemaining+
      (∑ i, ((c.locals i).held (ReaderPriorityLock.lock (oneOfEach 1 true).Tid)).toNat+
        ∑ i, (c.locals i).failed.toNat : ℕ)+∑ i, (c.locals i).info.opsCompleted = 1 := by
  let ls : List (Label (oneOfEach 1 true).Tid (oneOfEach 1 true).Tid
      (Disturbance (oneOfEach 1 true).Tid)) :=
    turns 0 [(0,6),(1,1)] ++ .env .sigusr1 :: turns 0 [(1,3)]
  obtain ⟨h,c,hr,hd,hs,hn⟩ : ∃ h c,
      Run (workers (ReaderPriorityLock.lock (oneOfEach 1 true).Tid))
        ((oneOfEach 1 true).start (ReaderPriorityLock.lock (oneOfEach 1 true).Tid) {}) h c ∧
      (c.locals 1).Done ∧ c.shared.process.abortSignalReceived = true ∧
      ∀ e ∈ h, isAbortHeld e = false :=
    ⟨_,_,Run.events ls rfl,rfl,rfl,by decide⟩
  exact ⟨h,c,hr,hd,hs,((claims_settled hr).mpr hn).1⟩

/-- The writer is aborted after its admission: the only operation is done by nobody. -/
theorem aborted_claim_lost : ∃ h c,
    Run (workers (ReaderPriorityLock.lock (oneOfEach 1 true).Tid))
      ((oneOfEach 1 true).start (ReaderPriorityLock.lock (oneOfEach 1 true).Tid) {}) h c ∧
    (∀ i, (c.locals i).Done) ∧ c.shared.opsRemaining = 0 ∧
    ∑ i, (c.locals i).info.opsCompleted = 0 := by
  obtain ⟨h,hr,-⟩ := Run.of_exec (m := workers (ReaderPriorityLock.lock (oneOfEach 1 true).Tid))
    (c := (oneOfEach 1 true).start (ReaderPriorityLock.lock (oneOfEach 1 true).Tid) {})
    (turns 0 [(1,8)] ++ .env .sigusr1 :: turns 0 [(1,5),(0,4)]) rfl
  exact ⟨h,_,hr,Fin.forall_fin_two.mpr ⟨rfl,rfl⟩,rfl,rfl⟩

end ReadersWriters
