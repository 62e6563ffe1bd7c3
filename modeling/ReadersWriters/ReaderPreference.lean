import ReadersWriters.ReaderPriority
set_option autoImplicit false

namespace ReadersWriters.ReaderPriorityLock
open Interleaving

/-- Readers from the return of `readLock` to `mutex_.wait` in `readUnlock`. -/
def inCriticalSection : List Thread := [.reader .holding,reading .unlockMutexWait]

/-- Readers between `mutex_.wait` and `mutex_.post`. -/
def inMutex : List Thread := [reading .lockCount,reading .lockWrtWait,reading .lockMutexPost,
  reading .unlockCount,reading .unlockWrtPost,reading .unlockMutexPost]

theorem mem_inMutex (t : Thread) : t ∈ inMutex ↔ phase t ∈ Lightswitch.inMutex := by
  match t with
  | .reader (.inside p) => cases p <;> decide
  | .writer (.inside p) => cases p <;> decide
  | .reader .idle | .reader .holding | .writer .idle | .writer .holding => decide

/-- The steps to `mutex_.post`. -/
def toPost : ReadPC → ℕ
  | .lockCount | .unlockCount => 3
  | .lockWrtWait | .unlockWrtPost => 2
  | .lockMutexPost | .unlockMutexPost => 1
  | _ => 0

/-- Where a reader is after `mutex_.post`. -/
def afterPost (p : ReadPC) : ReadPC := if readLocking p then .lockActive else .unlockReleasing

/-- With `mutex_` a reader can step, except at `wrt_`, until it posts `mutex_`. -/
theorem readStep_inMutex (s : Shared) {p : ReadPC} (hp : 0 < toPost p) (hw : p ≠ .lockWrtWait) :
    ∃ s' q, readStep s p = some (s',.inside q) ∧
      (toPost q < toPost p ∧ 0 < toPost q ∧ afterPost q = afterPost p ∨
        q = afterPost p ∧ 0 < s'.mutex.value) := by
  cases p <;> simp only [toPost,lt_irrefl] at hp
  case lockCount | unlockCount =>
    refine ⟨_,_,rfl,.inl ?_⟩
    split <;> decide
  case lockWrtWait => exact absurd rfl hw
  case unlockWrtPost => exact ⟨_,_,rfl,.inl (by decide)⟩
  case lockMutexPost | unlockMutexPost => exact ⟨_,_,rfl,.inr ⟨rfl,by simp⟩⟩

section
variable {ι : Type} [Fintype ι] {i j k : ι} {c : Config ι Shared Thread}

/-- No reader waits at `wrt_` while another one is in its critical section. -/
theorem not_wrtWait (hI : Inv c) (hi : c.locals i ∈ inCriticalSection) :
    c.locals j ≠ reading .lockWrtWait := by
  intro hj
  refine ((wrtWait_alone hI hj).1 i).1 ?_
  simp only [inCriticalSection,List.mem_cons,List.not_mem_nil,or_false] at hi
  rcases hi with hi | hi <;> rw [hi] <;> simp [RWLockBase.HoldsRead,lock]

/-- A mutex that is held has a holder, who can step. -/
theorem holder (hI : Inv c) (hi : c.locals i ∈ inCriticalSection) :
    (c.shared.mutex.value = 0 → ∃ k, c.locals k ∈ inMutex) ∧
      ∀ k, c.locals k ∈ inMutex → (lock ι).client.Enabled c k := by
  refine ⟨fun hm => ?_,fun k hk => ⟨k,?_⟩⟩
  · obtain ⟨k,hk⟩ := Lightswitch.mutex_held (c := ⟨store c.shared,phase ∘ c.locals⟩) hI hm
    exact ⟨k,(mem_inMutex _).mpr hk⟩
  · have hw : c.locals k ≠ reading .lockWrtWait := not_wrtWait hI hi
    simp only [inMutex,List.mem_cons,List.not_mem_nil,or_false] at hk
    rcases hk with hk | hk | hk | hk | hk | hk
    case inr.inl => exact absurd hk hw
    all_goals
      rw [hk]
      rfl

end

section
variable {ι : Type} [DecidableEq ι] {i j k : ι} {c c' c'' : Config ι Shared Thread}

/-- Readers other than `i` can bring the lock from one state to the other. -/
def ByReaders (i : ι) (c c' : Config ι Shared Thread) : Prop :=
  ∃ h, Run (lock ι).client c h c' ∧
    ∀ e ∈ h, ∃ k w, e.2 = .thread k w ∧ k ≠ i ∧ (e.1.locals k).isWriter = false

theorem ByReaders.trans (h : ByReaders i c c') (h' : ByReaders i c' c'') : ByReaders i c c'' := by
  obtain ⟨l,hr,hl⟩ := h
  obtain ⟨l',hr',hl'⟩ := h'
  exact ⟨l' ++ l,hr.append hr',List.forall_mem_append.mpr ⟨hl',hl⟩⟩

theorem ByReaders.step {s' : Shared} {p : ReadPC} {q : Pos ReadPC} (hk : c.locals k = reading p)
    (hki : k ≠ i) (hs : readStep c.shared p = some (s',q)) :
    ByReaders i c ⟨s',Function.update c.locals k (.reader q)⟩ := by
  refine ⟨[(c,.thread k k)],.step .start (Machine.next_thread.mpr ⟨s',.reader q,?_,rfl⟩),?_⟩
  · simp [hk,RWLockBase.client,lock,hs]
  · simp only [List.mem_singleton,forall_eq]
    exact ⟨k,k,rfl,hki,by rw [hk]; rfl⟩

theorem ByReaders.stays (h : ByReaders i c c') : c'.locals i = c.locals i := by
  obtain ⟨l,hr,hl⟩ := h
  induction hr with
  | start => rfl
  | step _ hn ih =>
    rw [List.forall_mem_cons] at hl
    obtain ⟨⟨k,w,rfl,hki,-⟩,hl⟩ := hl
    obtain ⟨s,t,-,rfl⟩ := Machine.next_thread.mp hn
    simpa only [Function.update_of_ne hki.symm] using ih hl

variable [Fintype ι] {isWriter : ι → Bool} {h : List (Event ι ι ι Shared Thread)}

/-- The reader with `mutex_` posts it by its own steps. -/
theorem release (hr : Run (lock ι).client ((lock ι).fresh isWriter) h c)
    (hi : c.locals i ∈ inCriticalSection) {p : ReadPC} (hk : c.locals k = reading p)
    (hki : k ≠ i) (hp : 0 < toPost p) :
    ∃ c', ByReaders i c c' ∧ c'.locals k = reading (afterPost p) ∧ 0 < c'.shared.mutex.value ∧
      ∀ j, j ≠ k → c'.locals j = c.locals j := by
  induction hn : toPost p using Nat.strong_induction_on generalizing h c p with
  | _ n ih =>
    have hw : p ≠ .lockWrtWait := fun hw => not_wrtWait (inv_run hr) hi (hw ▸ hk)
    obtain ⟨s',q,hs,hq⟩ := readStep_inMutex c.shared hp hw
    have hB := ByReaders.step hk hki hs
    rcases hq with ⟨hlt,hpos,ha⟩ | ⟨rfl,hm⟩
    · obtain ⟨l,hl,-⟩ := id hB
      obtain ⟨c',hB',hk',hm,ho⟩ := ih _ (hn ▸ hlt) (hr.append hl)
        (by simpa only [Function.update_of_ne hki.symm] using hi) (Function.update_self ..) hpos rfl
      refine ⟨c',hB.trans hB',ha ▸ hk',hm,fun j hj => ?_⟩
      simpa only [Function.update_of_ne hj] using ho j hj
    · exact ⟨_,hB,Function.update_self ..,hm,fun j hj => Function.update_of_ne hj ..⟩

/-- From `mutex_` on a reader is admitted by its own steps. -/
theorem admitted_inMutex (hr : Run (lock ι).client ((lock ι).fresh isWriter) h c)
    (hi : c.locals i ∈ inCriticalSection) {p : ReadPC} (hj : c.locals j = reading p)
    (hji : j ≠ i) (hp : 0 < toPost p) (hl : readLocking p = true) :
    ∃ c', ByReaders i c c' ∧ c'.locals j = .reader .holding := by
  obtain ⟨c',hB,hk,-,-⟩ := release hr hi hj hji hp
  rw [afterPost,if_pos hl] at hk
  exact ⟨_,hB.trans (.step hk hji rfl),Function.update_self ..⟩

/-- At `mutex_.wait` a reader is admitted after the reader that has `mutex_`, if any. -/
theorem admitted_mutexWait (hr : Run (lock ι).client ((lock ι).fresh isWriter) h c)
    (hi : c.locals i ∈ inCriticalSection) (hj : c.locals j = reading .lockMutexWait)
    (hji : j ≠ i) : ∃ c', ByReaders i c c' ∧ c'.locals j = .reader .holding := by
  obtain ⟨c₁,hB,hi₁,hj₁,hm⟩ : ∃ c₁, ByReaders i c c₁ ∧ c₁.locals i ∈ inCriticalSection ∧
      c₁.locals j = reading .lockMutexWait ∧ 0 < c₁.shared.mutex.value := by
    by_cases hm : c.shared.mutex.value = 0
    · obtain ⟨k,hk⟩ := (holder (inv_run hr) hi).1 hm
      have hkj : k ≠ j := fun he => by
        rw [he,hj] at hk
        exact absurd hk (by decide)
      have hki : k ≠ i := fun he =>
        (by decide : ∀ t ∈ inCriticalSection,t ∉ inMutex) _ hi (he ▸ hk)
      obtain ⟨p,hp,hpos⟩ : ∃ p, c.locals k = reading p ∧ 0 < toPost p := by
        simp only [inMutex,List.mem_cons,List.not_mem_nil,or_false] at hk
        rcases hk with hk | hk | hk | hk | hk | hk <;> exact ⟨_,hk,by decide⟩
      obtain ⟨c₁,hB,-,hm,ho⟩ := release hr hi hp hki hpos
      exact ⟨c₁,hB,ho i hki.symm ▸ hi,ho j hkj.symm ▸ hj,hm⟩
    · exact ⟨c,⟨[],.start,by simp⟩,hi,hj,Nat.pos_of_ne_zero hm⟩
  obtain ⟨v,hv⟩ : ∃ v, c₁.shared.mutex.wait = some v :=
    ⟨⟨c₁.shared.mutex.value-1⟩,Semaphore.wait_eq_some.mpr (by simp only; omega)⟩
  have hs : readStep c₁.shared .lockMutexWait =
      some ({ c₁.shared with mutex := v },.inside .lockCount) := by simp [readStep,hv]
  have hB' := hB.trans (ByReaders.step hj₁ hji hs)
  obtain ⟨l,hl,-⟩ := id hB'
  obtain ⟨c',hB'',hh⟩ := admitted_inMutex (hr.append hl)
    (by simpa only [Function.update_of_ne hji.symm] using hi₁) (Function.update_self ..) hji
    (by decide) rfl
  exact ⟨c',hB'.trans hB'',hh⟩

/-- Readers never wait while another reader holds the lock: `mutex_` is all that stops them,
and it is passed on by readers. -/
theorem readers_never_wait (hr : Run (lock ι).client ((lock ι).fresh isWriter) h c)
    (hi : c.locals i ∈ inCriticalSection) :
    (∀ j, c.locals j ≠ reading .lockWrtWait) ∧
    (c.shared.mutex.value = 0 → ∃ k, c.locals k ∈ inMutex) ∧
    (∀ k, c.locals k ∈ inMutex → (lock ι).client.Enabled c k) ∧
    ∀ j p, c.locals j = reading p → readLocking p = true →
      ∃ c', ByReaders i c c' ∧ c'.locals i = c.locals i ∧ c'.locals j = .reader .holding := by
  have hI := inv_run hr
  obtain ⟨hm,he⟩ := holder hI hi
  refine ⟨fun j => not_wrtWait hI hi,hm,he,fun j p hj hl => ?_⟩
  have hji : j ≠ i := by
    rintro rfl
    rw [hj] at hi
    simp only [inCriticalSection,List.mem_cons,reduceCtorEq,false_or,List.not_mem_nil,or_false,
      Client.reader.injEq,Pos.inside.injEq] at hi
    rw [hi] at hl
    cases hl
  suffices h : ∃ c', ByReaders i c c' ∧ c'.locals j = .reader .holding by
    obtain ⟨c',hB,hh⟩ := h
    exact ⟨c',hB,hB.stays,hh⟩
  cases p <;> simp [readLocking] at hl
  case lockWaiting =>
    have hs : readStep c.shared .lockWaiting = some (c.shared,.inside .lockMutexWait) := rfl
    have hB := ByReaders.step hj hji hs
    obtain ⟨l,hl,-⟩ := id hB
    obtain ⟨c',hB',hh⟩ := admitted_mutexWait (hr.append hl)
      (by simpa only [Function.update_of_ne hji.symm] using hi) (Function.update_self ..) hji
    exact ⟨c',hB.trans hB',hh⟩
  case lockMutexWait => exact admitted_mutexWait hr hi hj hji
  case lockActive => exact ⟨_,.step hj hji rfl,Function.update_self ..⟩
  all_goals exact admitted_inMutex hr hi hj hji (by decide) rfl

end

/-- A reader is in its critical section, a writer sleeps on `wrt_` and a second reader is
after `mutex_`. -/
theorem readers_never_wait_witness : ∃ h c,
    Run (lock (Fin 3)).client ((lock (Fin 3)).fresh (· = 1)) h c ∧
    c.locals 1 = writing .lockWrtWait ∧ c.locals 2 = reading .lockMutexWait ∧
    ∃ c', ByReaders 0 c c' ∧ c'.locals 0 = .reader .holding ∧ c'.locals 2 = .reader .holding := by
  obtain ⟨h,c,hr,h₀,h₁,h₂⟩ : ∃ h c, Run (lock (Fin 3)).client ((lock (Fin 3)).fresh (· = 1)) h c ∧
      c.locals 0 = .reader .holding ∧ c.locals 1 = writing .lockWrtWait ∧
      c.locals 2 = reading .lockMutexWait := by
    obtain ⟨h,hr,-⟩ := Run.of_exec (m := (lock (Fin 3)).client) (c := (lock (Fin 3)).fresh (· = 1))
      (turns 0 [(0,7),(1,2),(2,2)]) rfl
    exact ⟨h,_,hr,rfl,rfl,rfl⟩
  obtain ⟨-,-,-,ha⟩ := readers_never_wait hr (i := 0) (by rw [h₀]; decide)
  obtain ⟨c',hB,hs,hh⟩ := ha 2 _ h₂ rfl
  exact ⟨h,c,hr,h₁,h₂,c',hB,hs.trans h₀,hh⟩

end ReadersWriters.ReaderPriorityLock
