import ReadersWriters.Interleaving.Stuttering
import ReadersWriters.WriterPriority
set_option autoImplicit false

namespace ReadersWriters.WriterPriorityLock
open Interleaving

/-- Readers between `mutex1_.wait` and `mutex1_.post`. -/
def inMutex1 : List Thread := [reading .lockCount,reading .lockWrtWait,reading .lockMutex1Post,
  reading .unlockCount,reading .unlockWrtPost,reading .unlockMutex1Post]

theorem mem_inMutex1 (t : Thread) : t ∈ inMutex1 ↔ readPhase t ∈ Lightswitch.inMutex := by
  match t with
  | .reader (.inside p) => cases p <;> decide
  | .writer (.inside p) => cases p <;> decide
  | .reader .idle | .reader .holding | .writer .idle | .writer .holding => decide

/-- A writer that has `wrt_` is still counted by the writers, whose group has `rsem_`. -/
theorem writePhase_inWrt {t : Thread} (h : t ∈ inWrt) : writePhase t = .inside := by
  simp only [inWrt,List.mem_cons,List.not_mem_nil,or_false] at h
  rcases h with rfl | rfl | rfl | rfl | rfl <;> rfl

/-- The steps to `mutex1_.post`. -/
def toPost : ReadPC → ℕ
  | .lockCount | .unlockCount => 3
  | .lockWrtWait | .unlockWrtPost => 2
  | .lockMutex1Post | .unlockMutex1Post => 1
  | _ => 0

/-- With `mutex1_` a reader can step, except at `wrt_`, until it posts `mutex1_`. -/
theorem readStep_inMutex1 (s : Shared) {p : ReadPC} (hp : 0 < toPost p)
    (hw : p = .lockWrtWait → 0 < s.wrt.value) :
    ∃ s' q, readStep s p = some (s',.inside q) ∧
      (toPost q < toPost p ∧ 0 < toPost q ∨ 0 < s'.mutex1.value) := by
  cases p <;> simp only [toPost,lt_irrefl] at hp
  case lockCount | unlockCount =>
    refine ⟨_,_,rfl,.inl ?_⟩
    split <;> decide
  case lockWrtWait =>
    have hwait := hw rfl
    refine ⟨{ s with wrt := ⟨s.wrt.value-1⟩ },.lockMutex1Post,?_,.inl (by decide)⟩
    simp [readStep,Semaphore.wait,Nat.ne_of_gt hwait]
  case unlockWrtPost => exact ⟨_,_,rfl,.inl (by decide)⟩
  case lockMutex1Post | unlockMutex1Post => exact ⟨_,_,rfl,.inr (by simp)⟩

section
variable {ι : Type} [Fintype ι] {i k : ι} {c : Config ι Shared Thread}

/-- The first reader has passed `rsem_`, so no writer is past it and none has `wrt_`. -/
theorem wrt_free (hI : Inv c) (hi : c.locals i = reading .lockWrtWait) :
    c.shared.readCount = 1 ∧ c.shared.wrt.value = 1 := by
  have hfirst : readPhase (c.locals i) = .first := congrArg readPhase hi
  have hpast : writePhase (c.locals i) = .opponent := congrArg writePhase hi
  have hgate := (Lightswitch.first_unique (c := ⟨readStore c.shared,readPhase ∘ c.locals⟩)
    hI.readers hfirst).2
  have hnone : census (readPhase ∘ c.locals) .opponent = 0 := by
    refine census_eq_zero.mpr fun j hj => ?_
    have hin := writePhase_inWrt ((mem_inWrt _).mpr hj)
    have hone := Lightswitch.opponent_excluded
      (c := ⟨writeStore c.shared,writePhase ∘ c.locals⟩) hI.writers hpast (j := j)
      (by simp only [Function.comp_apply,hin]; decide)
    simp only [Function.comp_apply,hin] at hone
    cases hone
  refine ⟨?_,?_⟩
  · have hpos : 0 < census (readPhase ∘ c.locals) .first := census_pos.mpr ⟨i,hfirst⟩
    exact hI.readers.first.resolve_left hpos.ne'
  · simp only [hnone,readStore,Nat.add_zero] at hgate
    exact hgate

theorem not_blocked_inMutex1 (hI : Inv c) (hi : c.locals i ∈ inMutex1) :
    ¬ (lock ι).Blocked c i := by
  rintro (⟨p,hp,hb⟩ | ⟨p,hp,-⟩)
  · rcases readStep_eq_none (hb i) with ⟨rfl,-⟩ | ⟨rfl,-⟩ | ⟨rfl | rfl,-⟩ | ⟨rfl,hw⟩
    case inr.inr.inr =>
      have hfree := (wrt_free hI hp).2
      omega
    all_goals
      rw [hp] at hi
      exact absurd hi (by decide)
  · rw [hp] at hi
    simp [inMutex1] at hi

variable [DecidableEq ι] {isWriter : ι → Bool} {h : List (Event ι ι ι Shared Thread)}

/-- A reader that has `mutex1_` posts it by its own steps. -/
theorem mutex1_posted (hr : Run (lock ι).client ((lock ι).fresh isWriter) h c) {p : ReadPC}
    (hk : c.locals k = reading p) (hp : 0 < toPost p) :
    ∃ s t, Solo (lock ι).client k c.shared (c.locals k) s t ∧ 0 < s.mutex1.value := by
  induction hn : toPost p using Nat.strong_induction_on generalizing h c p with
  | _ n ih =>
    obtain ⟨s',q,hs,hq⟩ := readStep_inMutex1 c.shared hp fun hw => by
      rw [(wrt_free (inv_run hr) (hw ▸ hk)).2]
      exact Nat.one_pos
    have ha : (lock ι).client.act k k c.shared (c.locals k) = some (s',reading q) := by
      simp [hk,RWLockBase.client,lock,hs]
    rcases hq with ⟨hlt,hpos⟩ | hm
    · obtain ⟨s,t,hsolo,hm⟩ := ih _ (hn ▸ hlt)
        (hr.step (Machine.next_thread.mpr ⟨s',reading q,ha,rfl⟩)) (Function.update_self ..) hpos rfl
      simp only [Function.update_self] at hsolo
      exact ⟨s,t,.step ha hsolo,hm⟩
    · exact ⟨s',reading q,.one ha,hm⟩

/-- A reader never sleeps on `wrt_`: whoever has `mutex1_`, always a reader, can step, and a
reader that waits for `mutex1_` in `readUnlock` gets it by the holder's steps alone. -/
theorem reader_never_sleeps (hr : Run (lock ι).client ((lock ι).fresh isWriter) h c) :
    (∀ i, c.locals i = reading .lockWrtWait →
      c.shared.readCount = 1 ∧ c.shared.wrt.value = 1) ∧
    (∀ i, c.locals i ∈ inMutex1 → ¬ (lock ι).Blocked c i) ∧
    ∀ i, c.locals i = reading .unlockMutex1Wait → (lock ι).Blocked c i →
      ∃ k, c.locals k ∈ inMutex1 ∧
        ∃ s t, Solo (lock ι).client k c.shared (c.locals k) s t ∧ 0 < s.mutex1.value := by
  have hI := inv_run hr
  refine ⟨fun i => wrt_free hI,fun i => not_blocked_inMutex1 hI,fun i hi hb => ?_⟩
  have hm : c.shared.mutex1.value = 0 := by
    rcases hb with ⟨p,hp,hb⟩ | ⟨p,hp,-⟩ <;> rw [hi] at hp <;> cases hp
    exact Semaphore.wait_eq_none.mp (Option.map_eq_none_iff.mp (hb i))
  obtain ⟨k,hk⟩ := Lightswitch.mutex_held (c := ⟨readStore c.shared,readPhase ∘ c.locals⟩)
    hI.readers hm
  replace hk := (mem_inMutex1 _).mpr hk
  obtain ⟨p,hp,hpos⟩ : ∃ p, c.locals k = reading p ∧ 0 < toPost p := by
    simp only [inMutex1,List.mem_cons,List.not_mem_nil,or_false] at hk
    rcases hk with hk | hk | hk | hk | hk | hk <;> exact ⟨_,hk,by decide⟩
  exact ⟨k,hk,mutex1_posted hr hp hpos⟩

end

/-- The first writer is asleep on `rsem_` while a reader is about to take `wrt_`. -/
theorem reader_never_sleeps_witness : ∃ h c,
    Run (lock (Fin 2)).client ((lock (Fin 2)).fresh (· = 1)) h c ∧
    c.locals 0 = reading .lockWrtWait ∧ (lock (Fin 2)).Blocked c 1 ∧
    c.shared.wrt.value = 1 ∧ ¬ (lock (Fin 2)).Blocked c 0 := by
  obtain ⟨h,hr,-⟩ := Run.of_turns (m := (lock (Fin 2)).client) (c := (lock (Fin 2)).fresh (· = 1))
    0 [(0,6),(1,4)] rfl
  obtain ⟨hw,hb,-⟩ := reader_never_sleeps hr
  exact ⟨h,_,hr,rfl,.inr ⟨.lockRsemWait,rfl,fun _ => rfl⟩,(hw 0 rfl).2,hb 0 (by decide)⟩

end ReadersWriters.WriterPriorityLock
