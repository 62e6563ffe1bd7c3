import ReadersWriters.FairMorris
import ReadersWriters.Interleaving.WaitQueue
set_option autoImplicit false

namespace ReadersWriters.FairMorrisLock
open Interleaving

section
variable {ι : Type} [DecidableEq ι] {i w : ι} {s s' : Shared ι} {t t' : Thread}

theorem readCond_step (h : (lock ι).client.act i w s t = some (s',t')) :
    QueueStep Shared.readCond (reading .lockCondWait) i s t s' t' := by
  rcases RWLockBase.client_cases h with ⟨rfl,hc⟩ | ⟨p,q,rfl,rfl,hs⟩ | ⟨p,q,rfl,rfl,hs⟩
  · cases hc <;> exact .wake (by simp) (.refl _)
  · cases readStep_cases hs
    case sleep | sleepAgain => exact .sleep (by decide) rfl rfl
    case lockCondWait hi _ => exact .wake (fun _ => hi) (.refl _)
    case broadcast => exact .wake (by simp) (List.nil_sublist _)
    all_goals exact .wake (by simp) (.refl _)
  · cases writeStep_cases hs
    case broadcast => exact .wake (by simp) (List.nil_sublist _)
    all_goals exact .wake (by simp) (.refl _)

theorem writeCond_step (h : (lock ι).client.act i w s t = some (s',t')) :
    QueueStep Shared.writeCond (writing .lockCondWait) i s t s' t' := by
  rcases RWLockBase.client_cases h with ⟨rfl,hc⟩ | ⟨p,q,rfl,rfl,hs⟩ | ⟨p,q,rfl,rfl,hs⟩
  · cases hc <;> exact .wake (by simp) (.refl _)
  · cases readStep_cases hs
    case signal => exact .wake (by simp) List.erase_sublist
    all_goals exact .wake (by simp) (.refl _)
  · cases writeStep_cases hs
    case sleep | sleepAgain => exact .sleep (by decide) rfl rfl
    case lockCondWait hi _ => exact .wake (fun _ => hi) (.refl _)
    case signal => exact .wake (by simp) List.erase_sublist
    all_goals exact .wake (by simp) (.refl _)

theorem spuriousWake_sublist (h : spuriousWake i s = some s') :
    List.Sublist s'.readCond s.readCond ∧ List.Sublist s'.writeCond s.writeCond := by
  simp only [spuriousWake] at h
  split at h
  · cases h
    exact ⟨List.erase_sublist,.refl _⟩
  · obtain ⟨q,hq,rfl⟩ := Option.map_eq_some_iff.mp h
    obtain ⟨-,hq⟩ := Option.ite_none_right_eq_some.mp hq
    cases hq
    exact ⟨.refl _,List.erase_sublist⟩

/-- The points where a thread can block. -/
theorem readStep_eq_none {p : ReadPC} (h : ∀ w, readStep i w s p = none) :
    (p = .lockMutexLock ∨ p = .unlockMutexLock) ∧ s.mtx.locked ∨
      p = .lockCondWait ∧ (i ∈ s.readCond ∨ s.mtx.locked) := by
  cases p
  case lockMutexLock | unlockMutexLock =>
    have h := h i
    simp only [readStep,Option.map_eq_none_iff,Mutex.lock_eq_none] at h
    simp [h]
  case lockCondWait =>
    have h := h i
    simp only [readStep] at h
    split at h <;> rename_i hi
    · exact .inr ⟨rfl,.inl hi⟩
    · exact .inr ⟨rfl,.inr (Mutex.lock_eq_none.mp (Option.map_eq_none_iff.mp h))⟩
  case lockTest | lockRetest =>
    have h := h i
    simp only [readStep] at h
    split at h <;> cases h
  case unlockNotify =>
    obtain ⟨w,q,hq⟩ := CondVar.exists_signal s.writeCond i
    have h := h w
    simp only [readStep,hq] at h
    split at h
    · cases h
    · split at h <;> cases h
  all_goals
    have h := h i
    cases h

theorem writeStep_eq_none {p : WritePC} (h : ∀ w, writeStep i w s p = none) :
    (p = .lockMutexLock ∨ p = .unlockMutexLock) ∧ s.mtx.locked ∨
      p = .lockCondWait ∧ (i ∈ s.writeCond ∨ s.mtx.locked) := by
  cases p
  case lockMutexLock | unlockMutexLock =>
    have h := h i
    simp only [writeStep,Option.map_eq_none_iff,Mutex.lock_eq_none] at h
    simp [h]
  case lockCondWait =>
    have h := h i
    simp only [writeStep] at h
    split at h <;> rename_i hi
    · exact .inr ⟨rfl,.inl hi⟩
    · exact .inr ⟨rfl,.inr (Mutex.lock_eq_none.mp (Option.map_eq_none_iff.mp h))⟩
  case lockTest | lockRetest =>
    have h := h i
    simp only [writeStep] at h
    split at h <;> cases h
  case unlockNotify =>
    obtain ⟨w,q,hq⟩ := CondVar.exists_signal s.writeCond i
    have h := h w
    simp only [writeStep,hq] at h
    split at h
    · cases h
    · split at h <;> cases h
  all_goals
    have h := h i
    cases h

end

section
variable {ι : Type} [Fintype ι] {c : Config ι (Shared ι) Thread}

/-- The counters and the queues, as they are in every state reached. -/
structure Inv (c : Config ι (Shared ι) Thread) : Prop where
  counted : Counted c
  readers : WaitQueue Shared.readCond (reading .lockCondWait) c
  writers : WaitQueue Shared.writeCond (writing .lockCondWait) c

theorem readCond_eq_nil (hI : Inv c) (h : c.shared.waitingReaders ≤ 0) : c.shared.readCond = [] := by
  rw [List.eq_nil_iff_forall_not_mem]
  intro j hj
  have hp : 0 < headcount c.locals (places .waitingReader) :=
    headcount_pos (i := j) (by rw [hI.readers.asleep j hj]; decide)
  have hw := hI.counted.waitingReaders
  omega

theorem writeCond_eq_nil (hI : Inv c) (h : c.shared.waitingWriters ≤ 0) :
    c.shared.writeCond = [] := by
  rw [List.eq_nil_iff_forall_not_mem]
  intro j hj
  have hp : 0 < headcount c.locals (places .waitingWriter) :=
    headcount_pos (i := j) (by rw [hI.writers.asleep j hj]; decide)
  have hw := hI.counted.waitingWriters
  omega

end

/-- Threads that are bound to hand the free lock on: a releasing thread before its
wake-up decision, or a writer that is awake and on its way to `activeWriter_`. -/
def Pending {ι : Type} (s : Shared ι) (j : ι) (t : Thread) : Prop :=
  t ∈ [reading .unlockNotify,writing .unlockNotify,writing .lockWake,writing .lockRetest,
    writing .lockStore] ∨ t = writing .lockCondWait ∧ j ∉ s.writeCond

def Free {ι : Type} (s : Shared ι) : Prop := s.activeReaders = 0 ∧ s.activeWriter = false

section
variable {ι : Type} [DecidableEq ι]

/-- While the lock is free, sleepers have somebody who is bound to hand it on. -/
def Served (c : Config ι (Shared ι) Thread) : Prop :=
  Free c.shared → c.shared.readCond ≠ [] ∨ c.shared.writeCond ≠ [] →
    ∃ j, Pending c.shared j (c.locals j)

/-- A writer decides whom to wake: there are waiting readers, so it signals no writer,
though a writer sleeps and no other one has been woken. -/
def MissedWakeup (e : Event ι ι ι (Shared ι) Thread) : Prop :=
  ∃ i k, e.2 = .thread i k ∧ e.1.locals i = writing .unlockNotify ∧
    e.1.shared.waitingReaders > 0 ∧ e.1.shared.writeCond ≠ [] ∧
    ∀ j, e.1.locals j = writing .lockCondWait → j ∈ e.1.shared.writeCond

instance [Fintype ι] : (e : Event ι ι ι (Shared ι) Thread) → Decidable (MissedWakeup e)
  | (_,.env _) => .isFalse fun ⟨_,_,h,_⟩ => by cases h
  | (c,.thread i k) => decidable_of_iff (c.locals i = writing .unlockNotify ∧
      c.shared.waitingReaders > 0 ∧ c.shared.writeCond ≠ [] ∧
      ∀ j, c.locals j = writing .lockCondWait → j ∈ c.shared.writeCond)
    ⟨fun h => ⟨i,k,rfl,h⟩,fun ⟨_,_,h,h'⟩ => by
      cases h
      exact h'⟩

variable {c : Config ι (Shared ι) Thread} {i : ι} {s' : Shared ι} {t' : Thread}

/-- A pending thread stays so while others move, unless they put it to sleep. -/
theorem served_other {j : ι} (hj : Pending c.shared j (c.locals j)) (hji : j ≠ i)
    (hw : s'.writeCond = c.shared.writeCond) : Served ⟨s',Function.update c.locals i t'⟩ := by
  refine fun _ _ => ⟨j,?_⟩
  simp only [Function.update_of_ne hji]
  exact hj.imp id fun ⟨ht,hq⟩ => ⟨ht,hw ▸ hq⟩

theorem served_pending (h : Pending s' i t') : Served ⟨s',Function.update c.locals i t'⟩ :=
  fun _ _ => ⟨i,by simpa only [Function.update_self] using h⟩

theorem served_mono (h : Served c) (hf : Free s' → Free c.shared)
    (hr : s'.readCond ≠ [] → c.shared.readCond ≠ []) (hw : s'.writeCond = c.shared.writeCond)
    (hi : Pending c.shared i (c.locals i) → Pending s' i t') :
    Served ⟨s',Function.update c.locals i t'⟩ := by
  intro hfree hs
  obtain ⟨j,hj⟩ := h (hf hfree) (hs.imp hr (hw ▸ id))
  by_cases hji : j = i
  · exact served_pending (hi (hji ▸ hj)) hfree hs
  · exact served_other hj hji hw hfree hs

variable [Fintype ι]

/-- A waiting writer sleeps or is pending. -/
theorem waiting_writer (hI : Counted c) (h : c.shared.waitingWriters > 0) :
    c.shared.writeCond ≠ [] ∨
      ∃ j, Pending c.shared j (c.locals j) ∧ c.locals j ∈ places .waitingWriter := by
  have hp : 0 < headcount c.locals (places .waitingWriter) := by
    have hw := hI.waitingWriters
    omega
  obtain ⟨j,hj⟩ := Finset.card_pos.mp hp
  simp only [Finset.mem_filter,Finset.mem_univ,true_and] at hj
  have hl := hj
  simp only [places,List.mem_cons,List.not_mem_nil,or_false] at hl
  rcases hl with hl | hl
  · by_cases hq : j ∈ c.shared.writeCond
    · exact .inl (List.ne_nil_of_mem hq)
    · exact .inr ⟨j,.inr ⟨hl,hq⟩,hj⟩
  · exact .inr ⟨j,.inl (by rw [hl]; decide),hj⟩

theorem inv_run {isWriter : ι → Bool} {h : List (Event ι ι ι (Shared ι) Thread)}
    (hr : Run (lock ι).client ((lock ι).fresh isWriter) h c) : Inv c where
  counted := counted_run hr
  readers := .run rfl (fun _ _ _ _ _ _ => readCond_step)
    (fun _ _ _ hs => (spuriousWake_sublist hs).1) hr
  writers := .run rfl (fun _ _ _ _ _ _ => writeCond_step)
    (fun _ _ _ hs => (spuriousWake_sublist hs).2) hr

/-- A signalled writer is awake. -/
theorem signalled {w : ι} (hI : Inv c) (hw : w ∈ c.shared.writeCond)
    (hi : c.locals i ≠ writing .lockCondWait) (hs : s'.writeCond = c.shared.writeCond.erase w) :
    Served ⟨s',Function.update c.locals i t'⟩ := by
  have hl := hI.writers.asleep w hw
  have hwi : w ≠ i := fun he => hi (he ▸ hl)
  refine fun _ _ => ⟨w,.inr ⟨?_,?_⟩⟩
  · simpa only [Function.update_of_ne hwi] using hl
  · rw [hs]
    exact fun hm => (hI.writers.nodup.mem_erase_iff.mp hm).1 rfl

/-- With a waiting writer but none asleep, the waiting one is awake. -/
theorem awake (hI : Inv c) (hi : c.locals i ∉ places .waitingWriter)
    (hw : c.shared.waitingWriters > 0) (hq : c.shared.writeCond = [])
    (hs : s'.writeCond = c.shared.writeCond) : Served ⟨s',Function.update c.locals i t'⟩ := by
  obtain ⟨j,hj,hl⟩ := (waiting_writer hI.counted hw).resolve_left (not_not_intro hq)
  exact served_other hj (fun he => hi (he ▸ hl)) hs

theorem served_readStep {w : ι} {p : ReadPC} {q : Pos ReadPC} (hI : Inv c) (h : Served c)
    (ht : c.locals i = reading p) (hs : readStep i w c.shared p = some (s',q)) :
    Served ⟨s',Function.update c.locals i (.reader q)⟩ := by
  have hn : p ≠ .unlockNotify → ¬ Pending c.shared i (c.locals i) := by
    rw [ht]
    intro hp hc
    simp [Pending,hp] at hc
  have hl : c.locals i ∉ places .waitingWriter := by simp [ht,places]
  cases readStep_cases hs
  case sleep hc | sleepAgain hc =>
    rintro ⟨hf,ha⟩ hr
    have hw := hc.resolve_left (by simp [show c.shared.activeWriter = false from ha])
    by_cases hq : c.shared.writeCond = []
    · exact awake hI hl hw hq rfl ⟨hf,ha⟩ hr
    · obtain ⟨j,hj⟩ := h ⟨hf,ha⟩ (.inr hq)
      exact served_other hj (fun he => hn (by decide) (he ▸ hj)) rfl ⟨hf,ha⟩ hr
  case lockFetchAdd =>
    rintro ⟨hf,-⟩
    have hr := hI.counted.readers
    simp only at hf
    omega
  case unlockLast => exact served_pending (.inl (by decide))
  case unlockFetchSub hc =>
    rintro ⟨hf,-⟩
    simp only at hf
    omega
  case signal hw => exact signalled hI hw (by simp [ht]) rfl
  case signalNobody hw hq => exact awake hI hl hw hq rfl
  case broadcast hw _ =>
    intro _ hs
    simp [writeCond_eq_nil hI hw] at hs
  case quiet hw hr =>
    intro _ hs
    simp [writeCond_eq_nil hI hw,readCond_eq_nil hI hr] at hs
  all_goals exact served_mono h id id rfl fun hp => absurd hp (hn (by decide))

theorem served_writeStep {w : ι} {p : WritePC} {q : Pos WritePC} (hI : Inv c) (h : Served c)
    (hm : ¬ MissedWakeup (c,.thread i w)) (ht : c.locals i = writing p)
    (hs : writeStep i w c.shared p = some (s',q)) :
    Served ⟨s',Function.update c.locals i (.writer q)⟩ := by
  have hn : p ∉ [.lockCondWait,.lockWake,.lockRetest,.lockStore,.unlockNotify] →
      ¬ Pending c.shared i (c.locals i) := by
    rw [ht]
    intro hp hc
    simp only [List.mem_cons,List.not_mem_nil,or_false,not_or] at hp
    simp [Pending,hp] at hc
  cases writeStep_cases hs
  case lockCondWait | lockWake | pass | passAgain | unlockStore =>
    exact served_pending (.inl (by decide))
  case sleep hc | sleepAgain hc =>
    rintro ⟨hf,ha⟩
    simp only at hf ha
    simp [hf,ha] at hc
  case lockStore =>
    rintro ⟨-,ha⟩
    cases ha
  case broadcast hr =>
    by_cases hq : c.shared.writeCond = []
    · intro _ hs
      simp [hq] at hs
    · have hx : ∃ j, c.locals j = writing .lockCondWait ∧ j ∉ c.shared.writeCond := by
        by_contra hx
        simp only [not_exists,not_and,not_not] at hx
        exact hm ⟨i,w,rfl,ht,hr,hq,hx⟩
      obtain ⟨j,hj,hjq⟩ := hx
      exact served_other (.inr ⟨hj,hjq⟩) (fun he => by simp [he,ht] at hj) rfl
  case signal hw => exact signalled hI hw (by simp [ht]) rfl
  case signalNobody hw hq => exact awake hI (by simp [ht,places]) hw hq rfl
  case quiet hr hw =>
    intro _ hs
    simp [writeCond_eq_nil hI hw,readCond_eq_nil hI hr] at hs
  all_goals exact served_mono h id id rfl fun hp => absurd hp (hn (by decide))

theorem served_spuriousWake (hI : Inv c) (h : Served c)
    (hs : spuriousWake i c.shared = some s') : Served ⟨s',c.locals⟩ := by
  simp only [spuriousWake] at hs
  split at hs
  · cases hs
    intro hf hs
    exact h hf (hs.imp (fun hq he => hq (by simp [he])) id)
  · obtain ⟨q,hq,rfl⟩ := Option.map_eq_some_iff.mp hs
    obtain ⟨hw,hq⟩ := Option.ite_none_right_eq_some.mp hq
    cases hq
    exact fun _ _ => ⟨i,.inr ⟨hI.writers.asleep i hw,
      fun hm => (hI.writers.nodup.mem_erase_iff.mp hm).1 rfl⟩⟩

theorem served_run {isWriter : ι → Bool} {h : List (Event ι ι ι (Shared ι) Thread)}
    (hr : Run (lock ι).client ((lock ι).fresh isWriter) h c)
    (hm : ∀ e ∈ h, ¬ MissedWakeup e) : Served c := by
  induction hr with
  | start => exact fun _ hs => by simp [RWLockBase.fresh,lock] at hs
  | @step h c c' l hr hn ih =>
    rw [List.forall_mem_cons] at hm
    have hI := inv_run hr
    have hS := ih hm.2
    cases l with
    | thread i k =>
      obtain ⟨s',t',ha,rfl⟩ := Machine.next_thread.mp hn
      generalize ht : c.locals i = t at ha
      rcases RWLockBase.client_cases ha with ⟨rfl,hc⟩ | ⟨p,q,rfl,rfl,hs⟩ | ⟨p,q,rfl,rfl,hs⟩
      · refine served_mono hS id id rfl fun hp => ?_
        rw [ht] at hp
        cases hc <;> simp [Pending] at hp
      · exact served_readStep hI hS ht hs
      · exact served_writeStep hI hS hm.1 ht hs
    | env e =>
      obtain ⟨s',he,rfl⟩ := Machine.next_env.mp hn
      exact served_spuriousWake hI hS he

/-- In a stuck state `mtx_` is free, since whoever has it moves. -/
theorem stuck_unlocked (hI : Counted c) (hs : (lock ι).Stuck c) :
    c.shared.mtx.locked = false := by
  have hz : ∀ x, x = .mutex ∨ x = .fetchAdd ∨ x = .store → headcount c.locals (places x) = 0 := by
    intro x hx
    rw [headcount_eq_zero]
    intro j hj
    rcases hs j with (⟨p,hp,hb⟩ | ⟨p,hp,hb⟩) | hp | hp
    · rw [hp] at hj
      rcases readStep_eq_none hb with ⟨rfl | rfl,-⟩ | ⟨rfl,-⟩ <;> rcases hx with rfl | rfl | rfl <;>
        simp [places] at hj
    · rw [hp] at hj
      rcases writeStep_eq_none hb with ⟨rfl | rfl,-⟩ | ⟨rfl,-⟩ <;> rcases hx with rfl | rfl | rfl <;>
        simp [places] at hj
    all_goals
      rw [hp] at hj
      rcases hx with rfl | rfl | rfl <;> simp [places] at hj
  have hm := hI.mutex
  simp only [hz,true_or,or_true] at hm
  exact Bool.toNat_eq_zero.mp hm

/-- In a stuck state every thread is outside the lock or asleep. -/
theorem stuck_asleep (hI : Counted c) (hs : (lock ι).Stuck c) (i : ι) :
    c.locals i = .reader .idle ∨ c.locals i = .writer .idle ∨
    c.locals i = reading .lockCondWait ∧ i ∈ c.shared.readCond ∨
    c.locals i = writing .lockCondWait ∧ i ∈ c.shared.writeCond := by
  have hm := stuck_unlocked hI hs
  rcases hs i with (⟨p,hp,hb⟩ | ⟨p,hp,hb⟩) | hp | hp
  · have h := readStep_eq_none hb
    simp only [hm,Bool.false_eq_true,and_false,or_false,false_or] at h
    exact .inr (.inr (.inl ⟨h.1 ▸ hp,h.2⟩))
  · have h := writeStep_eq_none hb
    simp only [hm,Bool.false_eq_true,and_false,or_false,false_or] at h
    exact .inr (.inr (.inr ⟨h.1 ▸ hp,h.2⟩))
  · exact .inl hp
  · exact .inr (.inl hp)

/-- In a stuck state nobody is admitted, so the lock is free; sleepers would have
somebody pending, who is neither outside nor asleep. -/
theorem progress (hI : Inv c) (hS : Served c) : (lock ι).Progress c := by
  intro hs i hb
  have ha := stuck_asleep hI.counted hs
  have hz : ∀ x, x = .activeReader ∨ x = .activeWriter → headcount c.locals (places x) = 0 := by
    intro x hx
    rw [headcount_eq_zero]
    intro j hj
    rcases ha j with hp | hp | ⟨hp,-⟩ | ⟨hp,-⟩ <;> rw [hp] at hj <;>
      rcases hx with rfl | rfl <;> simp [places] at hj
  have hf : Free c.shared := by
    have hr := hI.counted.readers
    have hw := hI.counted.writers
    simp only [hz,true_or,or_true] at hr hw
    exact ⟨hr,Bool.toNat_eq_zero.mp hw⟩
  have hq : c.shared.readCond ≠ [] ∨ c.shared.writeCond ≠ [] := by
    rcases ha i with hp | hp | ⟨-,hq⟩ | ⟨-,hq⟩
    · rcases hb with ⟨p,hc,-⟩ | ⟨p,hc,-⟩ <;> simp [hp] at hc
    · rcases hb with ⟨p,hc,-⟩ | ⟨p,hc,-⟩ <;> simp [hp] at hc
    · exact .inl (List.ne_nil_of_mem hq)
    · exact .inr (List.ne_nil_of_mem hq)
  obtain ⟨j,hj⟩ := hS hf hq
  rcases ha j with hp | hp | ⟨hp,-⟩ | ⟨hp,hm⟩
  · simp [Pending,hp] at hj
  · simp [Pending,hp] at hj
  · simp [Pending,hp] at hj
  · simp [Pending,hp,hm] at hj

end

end ReadersWriters.FairMorrisLock
