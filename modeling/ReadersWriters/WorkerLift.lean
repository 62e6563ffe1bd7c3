import ReadersWriters.Worker
set_option autoImplicit false

namespace ReadersWriters
open Interleaving

/-- The steps that a worker makes by itself before its next call of the lock or inside it,
while it neither aborts nor leaves its loop. -/
def Worker.ahead {R W : Type} : Worker R W → Option ℕ
  | .reader _ pc => match pc with
      | .claim | .call _ | .work => some 0
      | .start | .storeReadCount _ => some 1
      | .loadReadCount _ => some 2
      | .read => some 3
      | _ => none
  | .writer _ true _ => none
  | .writer _ false pc => match pc with
      | .claim | .call false _ | .work => some 0
      | .abortTest | .storeWriteCount _ => some 1
      | .start | .loadWriteCount => some 2
      | .sigaction | .storeData _ => some 3
      | .loadData => some 4
      | .abortTestHeld => some 5
      | _ => none

/-- The thread is outside the lock. -/
def Client.isIdle {R W : Type} : Client R W → Bool
  | .reader .idle | .writer .idle => true
  | _ => false

section
variable {ι S R W : Type} {L : RWLockBase ι S R W} {i w : ι} {s : SimState S} {t : Worker R W}

/-- A worker that is not at a call makes a step that its lock does not see. -/
theorem ahead_silent {n : ℕ} (h : t.ahead = some (n+1)) (w : ι) : ∃ s' t',
    (workers L).act i w s t = some (s',t') ∧ t.callsLock s = false ∧ t'.ahead = some n ∧
      s'.opsRemaining = s.opsRemaining := by
  match t with
  | .reader info pc =>
    cases pc <;> simp only [Worker.ahead,reduceCtorEq,Option.some.injEq] at h
    case start | read | loadReadCount | storeReadCount =>
      refine ⟨_,_,rfl,rfl,?_,rfl⟩
      simp only [Worker.ahead]
      congr 1
      omega
  | .writer info true pc => cases h
  | .writer info false pc =>
    cases pc <;> simp only [Worker.ahead,reduceCtorEq,Option.some.injEq] at h
    case call a p => cases a <;> simp at h
    case abortTest =>
      refine ⟨s,.writer info false .claim,by simp [workers,writerThread],rfl,?_,rfl⟩
      simp only [Worker.ahead]
      congr 1
      omega
    case abortTestHeld =>
      refine ⟨s,.writer info false .loadData,by simp [workers,writerThread],rfl,?_,rfl⟩
      simp only [Worker.ahead]
      congr 1
      omega
    case sigaction | start | loadData | storeData | loadWriteCount | storeWriteCount =>
      refine ⟨_,_,rfl,rfl,?_,rfl⟩
      simp only [Worker.ahead]
      congr 1
      omega

/-- A worker at a call makes the step of the client that it is. -/
theorem ahead_visible {l : S} {q : Client R W} (h : t.ahead = some 0)
    (hb : t.client.isIdle = true → 0 < s.opsRemaining)
    (hq : L.client.act i w s.lock t.client = some (l,q)) : ∃ s' t',
    (workers L).act i w s t = some (s',t') ∧ t.callsLock s = true ∧ s'.lock = l ∧ t'.client = q ∧
      (∃ n, t'.ahead = some n) ∧
      s'.opsRemaining = s.opsRemaining-(t.client.isIdle.toNat : ℤ) := by
  match t with
  | .reader info pc =>
    cases pc <;> simp only [Worker.ahead,reduceCtorEq,Option.some.injEq,one_ne_zero,
      OfNat.ofNat_ne_zero] at h
    case claim =>
      have hp := hb rfl
      cases hq
      refine ⟨{ s with opsRemaining := s.opsRemaining-1 },.reader info (.call L.readLock),?_,?_,rfl,
        rfl,⟨0,rfl⟩,rfl⟩
      · simp [workers,readerThread,hp]
      · simpa [Worker.callsLock] using hp
    case call p =>
      obtain ⟨⟨l',q'⟩,hs,he⟩ := Option.map_eq_some_iff.mp hq
      cases he
      refine ⟨{ s with lock := l' },.reader (info.publish (L.readPublish p)) (.resume q'),?_,rfl,rfl,
        ?_,?_,?_⟩
      · simp [workers,readerThread,hs]
      · cases q' <;> rfl
      · cases q' <;> exact ⟨_,rfl⟩
      · exact (Int.sub_zero _).symm
    case work =>
      cases hq
      exact ⟨_,_,rfl,rfl,rfl,rfl,⟨0,rfl⟩,(Int.sub_zero _).symm⟩
  | .writer info true pc => cases h
  | .writer info false pc =>
    cases pc <;> simp only [Worker.ahead,reduceCtorEq,Option.some.injEq,one_ne_zero,
      OfNat.ofNat_ne_zero] at h
    case claim =>
      have hp := hb rfl
      cases hq
      refine ⟨{ s with opsRemaining := s.opsRemaining-1 },
        .writer info false (.call false L.writeLock),?_,?_,rfl,rfl,⟨0,rfl⟩,rfl⟩
      · simp [workers,writerThread,hp]
      · simpa [Worker.callsLock] using hp
    case call a p =>
      cases a
      case true => simp at h
      obtain ⟨⟨l',q'⟩,hs,he⟩ := Option.map_eq_some_iff.mp hq
      cases he
      refine ⟨{ s with lock := l' },
        .writer (info.publish (L.writePublish p)) false (.resume false q'),?_,rfl,rfl,?_,?_,?_⟩
      · simp [workers,writerThread,hs]
      · cases q' <;> rfl
      · cases q' <;> exact ⟨_,rfl⟩
      · exact (Int.sub_zero _).symm
    case work =>
      cases hq
      exact ⟨_,_,rfl,rfl,rfl,rfl,⟨0,rfl⟩,(Int.sub_zero _).symm⟩

end

/-- The calls of `readLock` and `writeLock`. -/
def lockCalls {ι S R W : Type} (h : List (Event ι ι ι S (Client R W))) : ℕ :=
  h.countP fun e => match e.2 with
    | .thread i _ => (e.1.locals i).isIdle
    | .env _ => false

theorem lockCalls_thread {ι S R W : Type} (c : Config ι S (Client R W)) (i w : ι)
    (h : List (Event ι ι ι S (Client R W))) :
    lockCalls ((c,.thread i w) :: h) = lockCalls h+(c.locals i).isIdle.toNat := by
  simp only [lockCalls,List.countP_cons]
  split <;> rename_i hi <;> simp [hi]

section
variable {ι S R W : Type} [DecidableEq ι] {L : RWLockBase ι S R W}
  {c : Config ι (SimState S) (Worker R W)}

/-- All workers go on working. -/
def Ready (c : Config ι (SimState S) (Worker R W)) : Prop := ∀ i, ∃ n, (c.locals i).ahead = some n

theorem lift_silent (L : RWLockBase ι S R W) {i : ι} {n : ℕ} (hi : (c.locals i).ahead = some n) :
    ∃ h c', Run (workers L) c h c' ∧ (lockView L).history h = [] ∧
      (lockView L).view c' = (lockView L).view c ∧
      c'.shared.opsRemaining = c.shared.opsRemaining ∧ (c'.locals i).ahead = some 0 ∧
      ∀ j, j ≠ i → c'.locals j = c.locals j := by
  induction n generalizing c with
  | zero => exact ⟨[],c,.start,rfl,rfl,rfl,hi,fun _ _ => rfl⟩
  | succ n ih =>
    obtain ⟨s',t',ha,hc,hn,ho⟩ := ahead_silent (L := L) (s := c.shared) hi i
    have hx : (workers L).next c (.thread i i) = some ⟨s',Function.update c.locals i t'⟩ :=
      Machine.next_thread.mpr ⟨_,_,ha,rfl⟩
    have hl : (lockView L).label (c,.thread i i) = none := by
      simp [lockView,Simulation.ofThreads,hc]
    obtain ⟨h,c',hr,hh,hv,ho',hz,hj⟩ := ih (c := ⟨s',Function.update c.locals i t'⟩)
      (by simpa only [Function.update_self] using hn)
    refine ⟨h ++ [(c,.thread i i)],c',(Run.step .start hx).append hr,?_,?_,ho'.trans ho,hz,?_⟩
    · rw [(lockView L).history_append,hh,(lockView L).history_silent hl]
      rfl
    · exact hv.trans ((lockView L).silent hx hl)
    · intro j hji
      rw [hj j hji]
      simp only [Function.update_of_ne hji]

/-- A step of the clients is one of the workers, after steps that the lock does not see. -/
theorem lift_step (hc : Ready c) {l : Label ι ι ι} {c₁ : Config ι S (Client R W)}
    (hn : L.client.next ((lockView L).view c) l = some c₁)
    (hb : lockCalls [((lockView L).view c,l)] ≤ c.shared.opsRemaining) :
    ∃ h c', Run (workers L) c h c' ∧ (lockView L).history h = [((lockView L).view c,l)] ∧
      (lockView L).view c' = c₁ ∧ Ready c' ∧
      c'.shared.opsRemaining = c.shared.opsRemaining-lockCalls [((lockView L).view c,l)] := by
  cases l with
  | thread i w =>
    obtain ⟨n,hi⟩ := hc i
    obtain ⟨h,c',hr,hh,hv,ho,hz,hj⟩ := lift_silent L hi
    rw [← hv] at hn hb ⊢
    rw [← ho] at hb ⊢
    rw [lockCalls_thread,lockView_locals] at hb ⊢
    obtain ⟨l,q,ha,rfl⟩ := Machine.next_thread.mp hn
    have hpos : (c'.locals i).client.isIdle = true → 0 < c'.shared.opsRemaining := by
      intro hid
      simp only [hid,Bool.toNat_true,lockCalls,List.countP_nil] at hb
      omega
    obtain ⟨s',t',hw,hcall,-,-,hr',ho'⟩ := ahead_visible hz hpos ha
    have hx : (workers L).next c' (.thread i w) = some ⟨s',Function.update c'.locals i t'⟩ :=
      Machine.next_thread.mpr ⟨_,_,hw,rfl⟩
    have hlab : (lockView L).label (c',.thread i w) = some (.thread i w) := by
      simp [lockView,Simulation.ofThreads,hcall]
    refine ⟨(c',.thread i w) :: h,_,hr.step hx,?_,?_,?_,?_⟩
    · rw [(lockView L).history_visible hlab,hh]
    · have hvis := (lockView L).visible hx hlab
      rw [hn] at hvis
      exact (Option.some.inj hvis).symm
    · intro j
      by_cases hji : j = i
      · subst hji
        simpa only [Function.update_self] using hr'
      · simpa only [Function.update_of_ne hji,hj j hji] using hc j
    · simpa [lockCalls] using ho'
  | env e =>
    obtain ⟨l,he,rfl⟩ := Machine.next_env.mp hn
    have hx : (workers L).next c (.env (.spuriousWake e)) =
        some ⟨{ c.shared with lock := l },c.locals⟩ :=
      Machine.next_env.mpr ⟨_,Option.map_eq_some_iff.mpr ⟨l,he,rfl⟩,rfl⟩
    exact ⟨[(c,.env (.spuriousWake e))],_,.step .start hx,rfl,rfl,hc,(Int.sub_zero _).symm⟩

end

/-- Every run of clients is what the lock sees of some run of workers, if the budget has an
operation for each of its lock calls. -/
theorem run_lift (cfg : Workload) {S R W : Type} {L : RWLockBase cfg.Tid S R W}
    (process : Process) (ha : cfg.enableAbortTest = false)
    {h : List (Event cfg.Tid cfg.Tid cfg.Tid S (Client R W))} {c : Config cfg.Tid S (Client R W)}
    (hr : Run L.client (L.fresh cfg.isWriter) h c) (hb : lockCalls h ≤ cfg.totalOps) :
    ∃ h' c', Run (workers L) (cfg.start L process) h' c' ∧ (lockView L).history h' = h ∧
      (lockView L).view c' = c ∧ Ready c' ∧
      c'.shared.opsRemaining = cfg.totalOps-lockCalls h := by
  induction hr with
  | start =>
    refine ⟨[],_,.start,rfl,lockView_start cfg L process,fun i => ?_,(Int.sub_zero _).symm⟩
    simp only [Workload.start]
    split
    · exact ⟨3,by simp [Worker.ahead,Workload.isAbortTarget,ha]⟩
    · exact ⟨1,rfl⟩
  | @step h c c₁ l hr hn ih =>
    have hsum : lockCalls ((c,l) :: h) = lockCalls h+lockCalls [(c,l)] := by
      rw [← List.singleton_append,lockCalls,List.countP_append,Nat.add_comm]
      rfl
    rw [hsum] at hb ⊢
    obtain ⟨h',c',hr',rfl,rfl,hR,ho⟩ := ih (by omega)
    obtain ⟨h'',c'',hr'',hh,rfl,hR',ho'⟩ := lift_step hR hn (by omega)
    refine ⟨h'' ++ h',c'',hr'.append hr'',?_,rfl,hR',by omega⟩
    rw [(lockView L).history_append,hh,List.singleton_append]

end ReadersWriters
