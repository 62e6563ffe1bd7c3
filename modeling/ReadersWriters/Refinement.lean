import ReadersWriters.Uncontended
import ReadersWriters.Watchdog
set_option autoImplicit false

namespace ReadersWriters
open Interleaving

namespace RWLockBase

section
variable {ι S R W : Type} (L : RWLockBase ι S R W)

/-- What an observer sees of a client: whether it holds the lock. -/
def holds (t : Client R W) : Bool := decide (L.Holds t)

variable {L}

@[simp] theorem holds_readIdle : L.holds (.reader .idle) = false := rfl

@[simp] theorem holds_readHolding : L.holds (.reader .holding) = true := rfl

@[simp] theorem holds_writeIdle : L.holds (.writer .idle) = false := rfl

@[simp] theorem holds_writeHolding : L.holds (.writer .holding) = true := rfl

@[simp] theorem holds_readInside (p : R) :
    L.holds (.reader (.inside p)) = L.readAdmitted p := by
  simp [holds,Holds,HoldsRead,HoldsWrite]

@[simp] theorem holds_writeInside (p : W) :
    L.holds (.writer (.inside p)) = L.writeAdmitted p := by
  simp [holds,Holds,HoldsRead,HoldsWrite]

theorem holdsWrite_of_holds {t : Client R W} (h : L.holds t = true) (hw : t.isWriter = true) :
    L.HoldsWrite t := by
  cases t with
  | reader q => cases hw
  | writer q => exact (of_decide_eq_true h).resolve_left id

end

section
variable {ι S R W : Type} [Fintype ι] {L : RWLockBase ι S R W} {isWriter : ι → Bool}

/-- The holders of the lock, under mutual exclusion. -/
def access (c : Config ι S (Client R W)) (hc : L.Exclusive c)
    (hw : ∀ i, (c.locals i).isWriter = isWriter i) : Access isWriter where
  holders := Finset.univ.filter fun i => L.holds (c.locals i) = true
  alone i hi hiw := by
    rw [Finset.mem_filter] at hi
    refine Finset.eq_singleton_iff_unique_mem.mpr ⟨Finset.mem_filter.mpr hi,fun j hj => ?_⟩
    by_contra hji
    obtain ⟨hnw,hnr⟩ := hc i j (Ne.symm hji) (holdsWrite_of_holds hi.2 ((hw i).trans hiw))
    exact (of_decide_eq_true (Finset.mem_filter.mp hj).2).elim hnr hnw

theorem mem_access {c : Config ι S (Client R W)} (hc : L.Exclusive c)
    (hw : ∀ i, (c.locals i).isWriter = isWriter i) {i : ι} :
    i ∈ (access c hc hw).holders ↔ L.holds (c.locals i) = true := by
  simp [access]

variable [DecidableEq ι]

/-- A lock that keeps mutual exclusion lets nothing happen that the abstract lock forbids. -/
theorem history_of_run (hL : ∀ h c, Run L.client (L.fresh isWriter) h c → L.Exclusive c)
    {h : List (Event ι ι ι S (Client R W))} {c : Config ι S (Client R W)}
    (hr : Run L.client (L.fresh isWriter) h c) : ∃ a : Access isWriter,
    Access.History (trace L.holds h c) a ∧ ∀ i, i ∈ a.holders ↔ L.holds (c.locals i) = true := by
  induction hr with
  | start =>
    refine ⟨.free,.start,fun i => ?_⟩
    simp only [fresh,Access.free,Finset.notMem_empty,false_iff,Bool.not_eq_true]
    split <;> rfl
  | @step h c c' l hr hn ih =>
    obtain ⟨a,ha,hm⟩ := ih
    cases l with
    | env e =>
      obtain ⟨s,-,rfl⟩ := Machine.next_env.mp hn
      exact ⟨a,ha,hm⟩
    | thread i k =>
      have hm' : ∀ j, j ∈ (access c' (hL _ _ (hr.step hn)) (run_isWriter (hr.step hn))).holders ↔
          L.holds (c'.locals j) = true := fun j => mem_access _ _
      generalize access c' (hL _ _ (hr.step hn)) (run_isWriter (hr.step hn)) = a' at hm'
      obtain ⟨s,t,-,rfl⟩ := Machine.next_thread.mp hn
      have hother : ∀ j, j ≠ i → (j ∈ a'.holders ↔ j ∈ a.holders) := by
        intro j hj
        rw [hm',hm]
        simp only [Function.update_of_ne hj]
      have hi := hm i
      have hi' := hm' i
      simp only [Function.update_self] at hi'
      by_cases ho : L.holds t = L.holds (c.locals i)
      · rw [trace_silent (by simpa only [Function.update_self] using ho)]
        refine ⟨a,ha,fun j => ?_⟩
        by_cases hj : j = i
        · subst hj
          simpa only [Function.update_self,ho] using hi
        · simpa only [Function.update_of_ne hj] using hm j
      · rw [trace_visible (by simpa only [Function.update_self] using ho)]
        refine ⟨a',.step ha ?_,hm'⟩
        simp only [Function.update_self]
        cases ht : L.holds t with
        | true =>
          have hc : i ∉ a.holders := fun hc => ho (ht.trans (hi.mp hc).symm)
          refine .enter hc (Finset.ext fun j => ?_)
          by_cases hj : j = i
          · subst hj
            simp [hi',ht]
          · rw [hother j hj,Finset.mem_insert,or_iff_right hj]
        | false =>
          have hc : i ∈ a.holders := by
            by_contra hc
            have hf : L.holds (c.locals i) = false := by simpa using mt hi.mpr hc
            exact ho (ht.trans hf.symm)
          refine .leave hc (Finset.ext fun j => ?_)
          by_cases hj : j = i
          · subst hj
            simp [hi',ht]
          · rw [hother j hj,Finset.mem_erase,and_iff_right hj]

end

namespace Uncontended

section
variable {ι S R W : Type} [DecidableEq ι] {L : RWLockBase ι S R W} (U : L.Uncontended)
  {isWriter : ι → Bool}

/-- The holders are between their calls, everybody else is outside the lock. -/
def settled (a : Access isWriter) : Config ι S (Client R W) where
  shared := U.rest a.occupancy
  locals i :=
    if isWriter i then .writer (if i ∈ a.holders then .holding else .idle)
    else .reader (if i ∈ a.holders then .holding else .idle)

theorem settled_free : U.settled (Access.free : Access isWriter) = L.fresh isWriter := by
  simp only [settled,Access.occupancy_free,U.rest_init]
  simp only [Access.free,Finset.notMem_empty,if_false,fresh]

theorem holds_settled (a : Access isWriter) (i : ι) :
    L.holds ((U.settled a).locals i) = true ↔ i ∈ a.holders := by
  simp only [settled]
  split <;> split <;> rename_i h <;> simp [h]

theorem settled_update {a a' : Access isWriter} {i : ι} {t : Client R W}
    (ht : t = (U.settled a').locals i)
    (h : ∀ j, j ≠ i → (j ∈ a'.holders ↔ j ∈ a.holders)) :
    Function.update (U.settled a).locals i t = (U.settled a').locals := by
  funext j
  by_cases hj : j = i
  · subst hj
    rw [Function.update_self,ht]
  · rw [Function.update_of_ne hj]
    simp only [settled,h j hj]

/-- A call from one resting state to the next changes what an observer sees once. -/
theorem call_run {P : Type} {step : ι → ι → S → P → Option (S × Pos P)} {f : Pos P → Client R W}
    {V : P → Prop} {c : Config ι S (Client R W)} {i : ι} {s' : S} {p : P} {q r : Pos P}
    (hcall : ∀ s, L.client.act i i s (f q) = some (s,f (.inside p)))
    (hact : ∀ k s p, L.client.act i k s (f (.inside p)) =
      (step i k s p).map fun x => (x.1,f x.2))
    (hV : ∀ k s p s' p', V p → step i k s p = some (s',.inside p') →
      V p' ∧ (L.holds (f (.inside p)) = L.holds (f r) →
        L.holds (f (.inside p')) = L.holds (f r)))
    (hs : Returns step .inside i r c.shared p s') (hp : V p)
    (ho : L.holds (f (.inside p)) = L.holds (f q)) (ho' : L.holds (f r) ≠ L.holds (f q))
    (hi : c.locals i = f q) : ∃ h,
    Run L.client c h ⟨s',Function.update c.locals i (f r)⟩ ∧
      trace L.holds h ⟨s',Function.update c.locals i (f r)⟩ = [(i,L.holds (f r))] := by
  obtain ⟨h,hr,-,ht⟩ := hs.run (m := L.client) (o := L.holds) hact hV hp
    (c := ⟨c.shared,Function.update c.locals i (f (.inside p))⟩) rfl (Function.update_self ..)
  have ha : L.client.act i i c.shared (c.locals i) = some (c.shared,f (.inside p)) := by
    rw [hi,hcall]
  refine ⟨h ++ [(c,.thread i i)],run_cons ha hr,?_⟩
  have hta := trace_append (o := L.holds) (h := [(c,Label.thread i i)]) hr
  simp only [Function.update_idem] at hta ht
  rw [hta,ht,ho,if_neg ho',trace_silent (by simp [hi,ho])]
  rfl

variable {a a' : Access isWriter} {i : ι}

theorem settled_reader (hw : isWriter i = false) : (U.settled a).locals i =
    .reader (if i ∈ a.holders then .holding else .idle) := by
  simp [settled,hw]

theorem settled_writer (hw : isWriter i = true) : (U.settled a).locals i =
    .writer (if i ∈ a.holders then .holding else .idle) := by
  simp [settled,hw]

/-- The lock does whatever the abstract lock allows. -/
theorem step_run {e : ι × Bool} (hs : Access.Step a e a') : ∃ h,
    Run L.client (U.settled a) h (U.settled a') ∧ trace L.holds h (U.settled a') = [e] := by
  cases hs with
  | @enter a' i hi ha =>
    have hi' : i ∈ a'.holders := ha ▸ Finset.mem_insert_self i _
    have hm : ∀ j, j ≠ i → (j ∈ a'.holders ↔ j ∈ a.holders) := by
      intro j hj
      rw [ha,Finset.mem_insert,or_iff_right hj]
    cases hw : isWriter i with
    | false =>
      obtain ⟨hn,hn'⟩ := Access.enter_reader hi ha hw
      have hret := U.readLock i a.holders.card
      rw [← hn,← hn'] at hret
      obtain ⟨h,hr,ht⟩ := call_run (f := .reader) (V := fun p => L.readLocking p = true)
        (q := .idle) (r := .holding) (fun s => rfl) (fun k s p => rfl)
        (fun k s p s' p' hp hs => ⟨(L.readStep_locking hs).trans hp,fun h => by
          simpa using (U.readAdmitted hs).1 hp (by simpa using h)⟩)
        hret L.readLock_locking (by simpa using U.readLock_admitted) (by simp)
        (by rw [U.settled_reader hw,if_neg hi])
      rw [U.settled_update (by rw [U.settled_reader hw,if_pos hi']) hm] at hr ht
      exact ⟨h,hr,ht⟩
    | true =>
      obtain ⟨hn,hn'⟩ := Access.enter_writer hi ha hw
      have hret := U.writeLock i
      rw [← hn,← hn'] at hret
      obtain ⟨h,hr,ht⟩ := call_run (f := .writer) (V := fun p => L.writeLocking p = true)
        (q := .idle) (r := .holding) (fun s => rfl) (fun k s p => rfl)
        (fun k s p s' p' hp hs => ⟨(L.writeStep_locking hs).trans hp,fun h => by
          simpa using (U.writeAdmitted hs).1 hp (by simpa using h)⟩)
        hret L.writeLock_locking (by simpa using U.writeLock_admitted) (by simp)
        (by rw [U.settled_writer hw,if_neg hi])
      rw [U.settled_update (by rw [U.settled_writer hw,if_pos hi']) hm] at hr ht
      exact ⟨h,hr,ht⟩
  | @leave a' i hi ha =>
    have hi' : i ∉ a'.holders := by simp [ha]
    have hm : ∀ j, j ≠ i → (j ∈ a'.holders ↔ j ∈ a.holders) := by
      intro j hj
      rw [ha,Finset.mem_erase,and_iff_right hj]
    cases hw : isWriter i with
    | false =>
      obtain ⟨n,hn,hn'⟩ := Access.leave_reader hi ha hw
      have hret := U.readUnlock i n
      rw [← hn,← hn'] at hret
      obtain ⟨h,hr,ht⟩ := call_run (f := .reader) (V := fun p => L.readLocking p = false)
        (q := .holding) (r := .idle) (fun s => rfl) (fun k s p => rfl)
        (fun k s p s' p' hp hs => ⟨(L.readStep_locking hs).trans hp,fun h => by
          simpa using (U.readAdmitted hs).2 hp (by simpa using h)⟩)
        hret L.readUnlock_locking (by simpa using U.readUnlock_admitted) (by simp)
        (by rw [U.settled_reader hw,if_pos hi])
      rw [U.settled_update (by rw [U.settled_reader hw,if_neg hi']) hm] at hr ht
      exact ⟨h,hr,ht⟩
    | true =>
      obtain ⟨hn,hn'⟩ := Access.leave_writer hi ha hw
      have hret := U.writeUnlock i
      rw [← hn,← hn'] at hret
      obtain ⟨h,hr,ht⟩ := call_run (f := .writer) (V := fun p => L.writeLocking p = false)
        (q := .holding) (r := .idle) (fun s => rfl) (fun k s p => rfl)
        (fun k s p s' p' hp hs => ⟨(L.writeStep_locking hs).trans hp,fun h => by
          simpa using (U.writeAdmitted hs).2 hp (by simpa using h)⟩)
        hret L.writeUnlock_locking (by simpa using U.writeUnlock_admitted) (by simp)
        (by rw [U.settled_writer hw,if_pos hi])
      rw [U.settled_update (by rw [U.settled_writer hw,if_neg hi']) hm] at hr ht
      exact ⟨h,hr,ht⟩

theorem run_of_history {ts : List (ι × Bool)} (ha : Access.History ts a) : ∃ h,
    Run L.client (L.fresh isWriter) h (U.settled a) ∧ trace L.holds h (U.settled a) = ts := by
  induction ha with
  | start => exact ⟨[],U.settled_free ▸ .start,rfl⟩
  | step _ hs ih =>
    obtain ⟨h,hr,ht⟩ := ih
    obtain ⟨h',hr',ht'⟩ := U.step_run hs
    refine ⟨h' ++ h,hr.append hr',?_⟩
    rw [trace_append hr',ht,ht',List.singleton_append]

end

end Uncontended

end RWLockBase

/-- The three locks refine the abstract readers-writers lock and restrict it in nothing: the
orders in which threads can be admitted and let the lock go are the same for all of them. -/
theorem admissions_iff {ι : Type} [Fintype ι] [DecidableEq ι] (algo : AlgoType)
    (isWriter : ι → Bool) (ts : List (ι × Bool)) (H : Finset ι) :
    (∃ h c, Run (algo.lock ι).client ((algo.lock ι).fresh isWriter) h c ∧
      trace (algo.lock ι).holds h c = ts ∧ ∀ i, (algo.lock ι).Holds (c.locals i) ↔ i ∈ H) ↔
    ∃ a : Access isWriter, a.holders = H ∧ Access.History ts a := by
  constructor
  · rintro ⟨h,c,hr,rfl,hH⟩
    obtain ⟨a,ha,hm⟩ := RWLockBase.history_of_run (fun _ _ => AlgoType.exclusive) hr
    refine ⟨a,Finset.ext fun i => ?_,ha⟩
    rw [hm,← hH]
    exact decide_eq_true_iff
  · rintro ⟨a,rfl,ha⟩
    obtain ⟨h,hr,ht⟩ := (algo.uncontended ι).run_of_history ha
    refine ⟨h,_,hr,ht,fun i => ?_⟩
    rw [← (algo.uncontended ι).holds_settled]
    exact decide_eq_true_iff.symm

end ReadersWriters
