import ReadersWriters.WriterPriority
set_option autoImplicit false

namespace ReadersWriters.WriterPriorityLock
open Interleaving

section
variable {ι : Type} {i w : ι} {s s' : Shared} {t t' : Thread}

/-- The gate of the writers is shut: `rsem_` is taken, and not by a reader. -/
def Closed (c : Config ι Shared Thread) : Prop :=
  c.shared.rsem.value = 0 ∧ ∀ i, writePhase (c.locals i) ≠ .opponent

/-- The last writer gives `rsem_` back. -/
def Opens (e : Event ι ι ι Shared Thread) : Prop :=
  ∃ i k, e.2 = .thread i k ∧ e.1.locals i = writing .unlockRsemPost

theorem last_iff {t : Thread} : writePhase t = .last ↔ t = writing .unlockRsemPost := by
  match t with
  | .writer (.inside p) => cases p <;> simp [writePhase]
  | .reader (.inside p) => cases p <;> simp [writePhase]
  | .reader .idle | .reader .holding | .writer .idle | .writer .holding => simp [writePhase]

/-- While the gate is shut only `unlockRsemPost` can open it. -/
theorem closed_act (h : (lock ι).client.act i w s t = some (s',t')) (hs : s.rsem.value = 0)
    (ht : writePhase t ≠ .opponent) (ho : t ≠ writing .unlockRsemPost) :
    s'.rsem.value = 0 ∧ writePhase t' ≠ .opponent := by
  cases hm : writeMove t with
  | none =>
    obtain ⟨he,hp⟩ := writeSwitch_silent h hm
    simp only [writeStore,Lightswitch.Store.mk.injEq] at he
    exact ⟨he.2.2.trans hs,hp ▸ ht⟩
  | some k =>
    exact Lightswitch.gate_act (writeSwitch_visible h hm) hs ht fun hl => ho (last_iff.mp hl)

variable [DecidableEq ι]

theorem closed_step {c c' : Config ι Shared Thread} {l : Label ι ι ι} (hc : Closed c)
    (ho : ¬ Opens (c,l)) (hn : (lock ι).client.next c l = some c') : Closed c' := by
  cases l with
  | thread i k =>
    obtain ⟨s,t,ha,rfl⟩ := Machine.next_thread.mp hn
    obtain ⟨hs,ht⟩ := closed_act ha hc.1 (hc.2 i) fun hi => ho ⟨i,k,rfl,hi⟩
    refine ⟨hs,fun j => ?_⟩
    by_cases hji : j = i
    · subst hji
      simpa only [Function.update_self] using ht
    · simpa only [Function.update_of_ne hji] using hc.2 j
  | env e =>
    obtain ⟨s,he,rfl⟩ := Machine.next_env.mp hn
    cases he

/-- The writer that raised `writeCount_` from 0 shuts the gate by taking `rsem_`. -/
theorem closed_of_rsemWait [Fintype ι] {isWriter : ι → Bool} {c₀ c₁ : Config ι Shared Thread}
    {h₀ : List (Event ι ι ι Shared Thread)}
    (hr : Run (lock ι).client ((lock ι).fresh isWriter) h₀ c₀)
    (hi : c₀.locals i = writing .lockRsemWait)
    (hn : (lock ι).client.next c₀ (.thread i w) = some c₁) : Closed c₁ := by
  have hI := inv_run (hr.step hn)
  have hl : c₁.locals i = writing .lockMutex2Post := by
    obtain ⟨s,t,ha,rfl⟩ := Machine.next_thread.mp hn
    rw [hi] at ha
    obtain ⟨q,hs,rfl⟩ := RWLockBase.client_writer ha
    obtain ⟨m,-,he⟩ := Option.map_eq_some_iff.mp hs
    cases he
    exact Function.update_self ..
  exact Lightswitch.gate_closed (c := ⟨writeStore c₁.shared,writePhase ∘ c₁.locals⟩) hI.writers
    (i := i) (congrArg writePhase hl)

end

/-- Readers that are counted and on their way into the critical section. -/
def awaiting : List Thread := [reading .lockWrtWait,reading .lockMutex1Post,reading .lockRsemPost,
  reading .lockReadTryPost,reading .lockActive]

/-- The step into the critical section. -/
def entries {ι : Type} [DecidableEq ι] (j : ι) (h : List (Event ι ι ι Shared Thread)) : ℕ :=
  h.countP fun e => match e.2 with
    | .thread i _ => i = j ∧ e.1.locals i = reading .lockActive
    | .env _ => false

section
variable {s s' : Shared}

/-- Without the increment of `readCount_` a reader neither becomes counted nor gets a
further way into the critical section. -/
theorem readStep_counted {p : ReadPC} {q : Pos ReadPC} (h : readStep s p = some (s',q))
    (hp : p ≠ .lockCount) : (.reader q ∈ counted → reading p ∈ counted) ∧
      presence [reading .lockActive] (reading p)+presence awaiting (.reader q) ≤
        presence awaiting (reading p) := by
  cases readStep_cases h
  case lockFirst | lockCount => exact absurd rfl hp
  all_goals decide

variable {ι : Type} {i w : ι} {t t' : Thread}

theorem client_counted (h : (lock ι).client.act i w s t = some (s',t'))
    (ht : t ≠ reading .lockCount) : (t' ∈ counted → t ∈ counted) ∧
      presence [reading .lockActive] t+presence awaiting t' ≤ presence awaiting t := by
  rcases RWLockBase.client_cases h with ⟨-,hc⟩ | ⟨p,q,rfl,rfl,hs⟩ | ⟨p,q,rfl,rfl,hs⟩
  · cases hc <;> simp only [lock] <;> decide
  · exact readStep_counted hs fun hp => ht (hp ▸ rfl)
  · cases q <;> simp [counted,presence,awaiting]

end

/-- With the gate shut no reader is about to increment `readCount_` or to take `wrt_`. -/
theorem not_counting {ι : Type} {c : Config ι Shared Thread} (hc : Closed c) (j : ι) :
    c.locals j ≠ reading .lockCount ∧ c.locals j ≠ reading .lockWrtWait := by
  refine ⟨fun hj => hc.2 j ?_,fun hj => hc.2 j ?_⟩ <;> rw [hj] <;> rfl

section
variable {ι : Type} [DecidableEq ι] {c₁ c : Config ι Shared Thread}
  {h : List (Event ι ι ι Shared Thread)}

/-- What a reader has left to do in the period, against what it had to do at its start. -/
theorem period_run (hc₁ : Closed c₁) (hr : Run (lock ι).client c₁ h c)
    (hp : ∀ e ∈ h, ¬ Opens e) (j : ι) : (c.locals j ∈ counted → c₁.locals j ∈ counted) ∧
      entries j h+presence awaiting (c.locals j) ≤ presence awaiting (c₁.locals j) := by
  induction hr with
  | start => exact ⟨id,by simp [entries]⟩
  | @step h c c' l hr hn ih =>
    rw [List.forall_mem_cons] at hp
    obtain ⟨hm,he⟩ := ih hp.2
    have hc := hr.invariant hc₁ (fun _ _ _ => closed_step) hp.2
    cases l with
    | thread i k =>
      obtain ⟨s,t,ha,rfl⟩ := Machine.next_thread.mp hn
      obtain ⟨hct,hpt⟩ := client_counted ha (not_counting hc i).1
      by_cases hji : i = j
      · subst hji
        simp only [Function.update_self]
        refine ⟨fun ht => hm (hct ht),?_⟩
        have hx : entries i ((c,.thread i k) :: h) =
            entries i h+presence [reading .lockActive] (c.locals i) := by
          simp only [entries,List.countP_cons,presence,List.mem_singleton]
          by_cases hl : c.locals i = reading .lockActive <;> simp [hl]
        omega
      · have hx : entries j ((c,.thread i k) :: h) = entries j h := by
          simp [entries,hji]
        simp only [Function.update_of_ne (Ne.symm hji),hx]
        exact ⟨hm,he⟩
    | env e =>
      obtain ⟨s,he,rfl⟩ := Machine.next_env.mp hn
      cases he

/-- The period starts when a writer that raised `writeCount_` from 0 completes
`rsem_.wait`, and lasts until a last writer posts `rsem_`. In it no reader increments
`readCount_`; a reader in its critical section was counted at the start; no reader is in
there more than once; and whoever takes `wrt_` is a writer. -/
theorem writers_have_priority [Fintype ι] {isWriter : ι → Bool} {c₀ : Config ι Shared Thread}
    {h₀ : List (Event ι ι ι Shared Thread)} {i w : ι}
    (hr₀ : Run (lock ι).client ((lock ι).fresh isWriter) h₀ c₀)
    (hi : c₀.locals i = writing .lockRsemWait)
    (hn : (lock ι).client.next c₀ (.thread i w) = some c₁)
    (hr : Run (lock ι).client c₁ h c) (hp : ∀ e ∈ h, ¬ Opens e) :
    (∀ e ∈ h, ∀ j k, e.2 = .thread j k → e.1.locals j ≠ reading .lockCount) ∧
    (∀ j, c.locals j = .reader .holding → c₁.locals j ∈ counted) ∧
    (∀ j, entries j h+presence [.reader .holding] (c₁.locals j) ≤ 1) ∧
    ∀ e ∈ h, ∀ j k, e.2 = .thread j k → e.1.locals j ≠ reading .lockWrtWait := by
  have hc₁ := closed_of_rsemWait hr₀ hi hn
  have hev := hr.invariant_events hc₁ (fun _ _ _ => closed_step) hp
  refine ⟨fun e he j _ _ => (not_counting (hev e he) j).1,fun j hj => ?_,fun j => ?_,
    fun e he j _ _ => (not_counting (hev e he) j).2⟩
  · exact (period_run hc₁ hr hp j).1 (by rw [hj]; decide)
  · have hx := (period_run hc₁ hr hp j).2
    have hb : presence awaiting (c₁.locals j)+presence [.reader .holding] (c₁.locals j) ≤ 1 := by
      by_cases hl : c₁.locals j = .reader .holding
      · rw [hl]
        decide
      · simp only [presence,List.mem_singleton,hl,if_false]
        split <;> omega
    omega

end

/-- A reader is in its critical section when the writer shuts the gate. -/
theorem writers_have_priority_witness : ∃ h₀ c₀ c₁ h c,
    Run (lock (Fin 2)).client ((lock (Fin 2)).fresh (· = 1)) h₀ c₀ ∧
    c₀.locals 1 = writing .lockRsemWait ∧
    (lock (Fin 2)).client.next c₀ (.thread 1 0) = some c₁ ∧ Run (lock (Fin 2)).client c₁ h c ∧
    c₁.locals 0 = .reader .holding ∧ entries 0 h = 0 ∧
    c.locals 0 = reading .unlockMutex1Wait ∧ c.locals 1 = writing .lockWrtWait := by
  obtain ⟨h₀,hr₀,-⟩ := Run.of_exec (m := (lock (Fin 2)).client) (c := (lock (Fin 2)).fresh (· = 1))
    (turns 0 [(0,11),(1,4)]) rfl
  have hx := fun h c hr hp => And.intro hr
    (writers_have_priority (h := h) (c := c) (i := 1) (w := 0) hr₀ rfl rfl hr hp)
  obtain ⟨hr,-,-,he,-⟩ := hx _ _
    ((Run.start.step (l := .thread 1 0) rfl).step (l := .thread 0 0) rfl) (by
      rintro e he ⟨i,k,hk,hl⟩
      simp only [List.mem_cons,List.not_mem_nil,or_false] at he
      rcases he with rfl | rfl <;> cases hk <;> cases hl)
  exact ⟨_,_,_,_,_,hr₀,rfl,rfl,hr,rfl,Nat.le_zero.mp (Nat.le_of_add_le_add_right (he 0)),rfl,rfl⟩

end ReadersWriters.WriterPriorityLock
