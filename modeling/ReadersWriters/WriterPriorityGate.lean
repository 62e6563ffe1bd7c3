import ReadersWriters.Interleaving.HandOff
import ReadersWriters.WriterPriority
set_option autoImplicit false

namespace ReadersWriters.WriterPriorityLock
open Interleaving

inductive Sem where
  | mutex1 | mutex2 | rsem | wrt | readTry
  deriving DecidableEq, Repr

def Shared.units (s : Shared) : Sem → ℕ
  | .mutex1 => s.mutex1.value
  | .mutex2 => s.mutex2.value
  | .rsem => s.rsem.value
  | .wrt => s.wrt.value
  | .readTry => s.readTry.value

def Shared.withUnits (s : Shared) (f : Sem → ℕ) : Shared :=
  { s with
    mutex1 := ⟨f .mutex1⟩
    mutex2 := ⟨f .mutex2⟩
    rsem := ⟨f .rsem⟩
    wrt := ⟨f .wrt⟩
    readTry := ⟨f .readTry⟩ }

/-- The semaphore that a thread waits for or posts next. -/
def semOp : Thread → Option (SemOp Sem)
  | .reader (.inside p) => match p with
      | .lockReadTryWait => some (.wait .readTry)
      | .lockRsemWait => some (.wait .rsem)
      | .lockMutex1Wait | .unlockMutex1Wait => some (.wait .mutex1)
      | .lockWrtWait => some (.wait .wrt)
      | .lockMutex1Post | .unlockMutex1Post => some (.post .mutex1)
      | .lockRsemPost => some (.post .rsem)
      | .lockReadTryPost => some (.post .readTry)
      | .unlockWrtPost => some (.post .wrt)
      | _ => none
  | .writer (.inside p) => match p with
      | .lockMutex2Wait | .unlockMutex2Wait => some (.wait .mutex2)
      | .lockRsemWait => some (.wait .rsem)
      | .lockWrtWait => some (.wait .wrt)
      | .lockMutex2Post | .unlockMutex2Post => some (.post .mutex2)
      | .unlockRsemPost => some (.post .rsem)
      | .unlockWrtPost => some (.post .wrt)
      | _ => none
  | _ => none

/-- What a step does to the counts. -/
def Moves (o : Option (SemOp Sem)) (f f' : Sem → ℕ) : Prop :=
  match o with
  | none => f' = f
  | some (.wait x) => f = f'+Pi.single x 1
  | some (.post x) => f' = f+Pi.single x 1

section
variable {s s' : Shared}

theorem readStep_moves {p : ReadPC} {q : Pos ReadPC} (h : readStep s p = some (s',q)) :
    Moves (semOp (reading p)) s.units s'.units := by
  cases readStep_cases h
  case lockReadTryWait hn | lockRsemWait hn | lockMutex1Wait hn | lockWrtWait hn |
      unlockMutex1Wait hn =>
    funext x
    cases x <;> simp [Shared.units,hn]
  case lockMutex1Post | lockRsemPost | lockReadTryPost | unlockWrtPost | unlockMutex1Post =>
    funext x
    cases x <;> simp [Shared.units]
  all_goals rfl

theorem writeStep_moves {p : WritePC} {q : Pos WritePC} (h : writeStep s p = some (s',q)) :
    Moves (semOp (writing p)) s.units s'.units := by
  cases writeStep_cases h
  case lockMutex2Wait hn | lockRsemWait hn | lockWrtWait hn | unlockMutex2Wait hn =>
    funext x
    cases x <;> simp [Shared.units,hn]
  case lockMutex2Post | unlockRsemPost | unlockWrtPost | unlockMutex2Post =>
    funext x
    cases x <;> simp [Shared.units]
  all_goals rfl

theorem readStep_more {p : ReadPC} {q : Pos ReadPC} (h : readStep s p = some (s',q))
    (f : Sem → ℕ) :
    readStep (s.withUnits (s.units+f)) p = some (s'.withUnits (s'.units+f),q) := by
  cases readStep_cases h
  case lockReadTryWait hn | lockRsemWait hn | lockMutex1Wait hn | lockWrtWait hn |
      unlockMutex1Wait hn =>
    simp [readStep,Semaphore.wait,Shared.withUnits,Shared.units,hn,Nat.add_right_comm]
  case lockFirst hc | lockCount hc | unlockLast hc | unlockCount hc =>
    simp [readStep,Shared.withUnits,Shared.units,hc]
  all_goals simp [readStep,Semaphore.post,Shared.withUnits,Shared.units,Nat.add_right_comm]

theorem writeStep_more {p : WritePC} {q : Pos WritePC} (h : writeStep s p = some (s',q))
    (f : Sem → ℕ) :
    writeStep (s.withUnits (s.units+f)) p = some (s'.withUnits (s'.units+f),q) := by
  cases writeStep_cases h
  case lockMutex2Wait hn | lockRsemWait hn | lockWrtWait hn | unlockMutex2Wait hn =>
    simp [writeStep,Semaphore.wait,Shared.withUnits,Shared.units,hn,Nat.add_right_comm]
  case lockFirst hc | lockCount hc | unlockLast hc | unlockCount hc =>
    simp [writeStep,Shared.withUnits,Shared.units,hc]
  all_goals simp [writeStep,Semaphore.post,Shared.withUnits,Shared.units,Nat.add_right_comm]

theorem client_moves {ι : Type} {i w : ι} {t t' : Thread}
    (h : (lock ι).client.act i w s t = some (s',t')) : Moves (semOp t) s.units s'.units := by
  rcases RWLockBase.client_cases h with ⟨rfl,hc⟩ | ⟨p,q,rfl,rfl,hp⟩ | ⟨p,q,rfl,rfl,hp⟩
  · cases hc <;> rfl
  · exact readStep_moves hp
  · exact writeStep_moves hp

theorem client_more {ι : Type} {i w : ι} {t t' : Thread}
    (h : (lock ι).client.act i w s t = some (s',t')) (f : Sem → ℕ) :
    (lock ι).client.act i w (s.withUnits (s.units+f)) t =
      some (s'.withUnits (s'.units+f),t') := by
  rcases RWLockBase.client_cases h with ⟨rfl,hc⟩ | ⟨p,q,rfl,rfl,hp⟩ | ⟨p,q,rfl,rfl,hp⟩
  · cases hc <;> rfl
  · exact Option.map_eq_some_iff.mpr ⟨_,readStep_more hp f,rfl⟩
  · exact Option.map_eq_some_iff.mpr ⟨_,writeStep_more hp f,rfl⟩

end

def semaphores (ι : Type) : Semaphores (lock ι).client Sem where
  units := Shared.units
  withUnits := Shared.withUnits
  op := semOp
  units_withUnits s f := by funext x; cases x <;> rfl
  withUnits_units s := rfl
  withUnits_withUnits s f g := rfl
  other h ho := by simpa only [Moves,ho] using client_moves h
  wait h ho := by simpa only [Moves,ho] using client_moves h
  post h ho := by simpa only [Moves,ho] using client_moves h
  more := client_more

/-- The clients of the lock when each `sem_post` hands its unit to a blocked thread. -/
abbrev handOffClient (ι : Type) [DecidableEq ι] :
    Machine ι (ι × ι) Empty (Queues ι Sem Shared) Thread := handOff (semaphores ι)

def handOffFresh {ι : Type} (isWriter : ι → Bool) : Config ι (Queues ι Sem Shared) Thread where
  shared := { store := (lock ι).init }
  locals := ((lock ι).fresh isWriter).locals

/-- Readers between `rsem_.wait` and `rsem_.post`. -/
def inRsem : List Thread := [reading .lockMutex1Wait,reading .lockCount,reading .lockWrtWait,
  reading .lockMutex1Post,reading .lockRsemPost]

section
variable {ι : Type}

/-- The first writer is blocked in `rsem_.wait`. -/
def WriterBlocked (c : Config ι (Queues ι Sem Shared) Thread) (i : ι) : Prop :=
  c.locals i = writing .lockRsemWait ∧ i ∈ c.shared.waiters .rsem

instance [DecidableEq ι] (c : Config ι (Queues ι Sem Shared) Thread) (i : ι) :
    Decidable (WriterBlocked c i) := inferInstanceAs (Decidable (_ ∧ _))

/-- The reader has passed `rsem_.wait`, or has been handed the unit that lets it pass. -/
def HasRsem (c : Config ι (Queues ι Sem Shared) Thread) (k : ι) : Prop :=
  c.locals k ∈ inRsem ∨ c.locals k = reading .lockRsemWait ∧ k ∈ c.shared.handed .rsem

theorem HasRsem.inReadTry {c : Config ι (Queues ι Sem Shared) Thread} {k : ι}
    (h : HasRsem c k) : c.locals k ∈ inReadTry := by
  rcases h with h | ⟨h,-⟩
  · simp only [inRsem,List.mem_cons,List.not_mem_nil,or_false] at h
    rcases h with h | h | h | h | h <;> rw [h] <;> decide
  · rw [h]
    decide

theorem semOp_rsem {t : Thread} (h : semOp t = some (.wait .rsem)) :
    t = reading .lockRsemWait ∨ t = writing .lockRsemWait := by
  match t with
  | .reader (.inside p) =>
    cases p
    case lockRsemWait => exact .inl rfl
    all_goals simp [semOp] at h
  | .writer (.inside p) =>
    cases p
    case lockRsemWait => exact .inr rfl
    all_goals simp [semOp] at h
  | .reader .idle | .reader .holding | .writer .idle | .writer .holding => simp [semOp] at h

theorem mem_inRsem {t : Thread} : t ∈ inRsem ↔ writePhase t = .opponent := by
  match t with
  | .reader (.inside p) => cases p <;> decide
  | .writer (.inside p) => cases p <;> decide
  | .reader .idle | .reader .holding | .writer .idle | .writer .holding => decide

variable [DecidableEq ι] {isWriter : ι → Bool}
  {h : List (Event ι (ι × ι) Empty (Queues ι Sem Shared) Thread)}
  {c : Config ι (Queues ι Sem Shared) Thread} {i : ι}

theorem handOff_queued (hr : Run (handOffClient ι) (handOffFresh isWriter) h c) :
    Queued (semaphores ι) c := by
  have h₀ : Queued (semaphores ι) (handOffFresh isWriter) :=
    ⟨fun _ _ hi => (List.not_mem_nil hi).elim,fun _ => List.nodup_nil,fun _ hx => absurd rfl hx⟩
  exact queued_run h₀ hr

variable [Fintype ι]

theorem handOff_inv (hr : Run (handOffClient ι) (handOffFresh isWriter) h c) :
    Inv (bargingView (semaphores ι) c) := by
  obtain ⟨h',hr'⟩ := barging_run hr
  exact inv_run hr'

/-- While a first writer is blocked, the unit of `rsem_` is in the hands of a reader. That
reader has `readTry_` as well, so no other reader can have got to `rsem_`. -/
theorem rsem_holder (hr : Run (handOffClient ι) (handOffFresh isWriter) h c)
    (hb : WriterBlocked c i) : (∀ j ∈ c.shared.waiters .rsem, j=i) ∧
      ∃ k, HasRsem c k ∧ ∀ j, c.locals j ∈ inReadTry → j=k := by
  have hI := handOff_inv hr
  have hQ := handOff_queued hr
  obtain ⟨hfirst,hgate⟩ := Lightswitch.first_unique
    (c := ⟨writeStore (c.shared.barging (semaphores ι)),writePhase ∘ c.locals⟩) hI.writers
    (i := i) (congrArg writePhase hb.1)
  have hdisj : ∀ j, j ∈ c.shared.waiters .rsem → j ∉ c.shared.handed .rsem :=
    fun j hw hh => (List.nodup_append.mp (hQ.nodup .rsem)).2.2 j hw j hh rfl
  have hwriter : ∀ j, c.locals j = writing .lockRsemWait → j=i :=
    fun j hj => hfirst j (congrArg writePhase hj)
  have hunits : (c.shared.barging (semaphores ι)).rsem.value = (c.shared.handed .rsem).length := by
    have h0 : c.shared.store.rsem.value = 0 := hQ.empty .rsem (List.ne_nil_of_mem hb.2)
    change c.shared.store.rsem.value+(c.shared.handed .rsem).length = _
    omega
  have hholder : ∃ k, HasRsem c k := by
    simp only [writeStore,hunits] at hgate
    rcases Nat.eq_zero_or_pos (c.shared.handed .rsem).length with hz | hpos
    · obtain ⟨k,hk⟩ := census_pos.mp (show 0 < census (writePhase ∘ c.locals) .opponent by omega)
      exact ⟨k,.inl (mem_inRsem.mpr hk)⟩
    · obtain ⟨k,hk⟩ := List.exists_mem_of_length_pos hpos
      refine ⟨k,.inr ⟨?_,hk⟩⟩
      rcases semOp_rsem (hQ.op .rsem k (List.mem_append_right _ hk)) with hr | hw
      · exact hr
      · exact absurd hk (hdisj k (hwriter k hw ▸ hb.2))
  obtain ⟨k,hk⟩ := hholder
  have hone : ∀ j, c.locals j ∈ inReadTry → j=k := by
    have ht : headcount c.locals inReadTry ≤ 1 := by
      have h1 : _+headcount c.locals inReadTry = 1 := hI.readTry
      omega
    exact fun j hj => headcount_unique ht hj hk.inReadTry
  refine ⟨fun j hj => ?_,k,hk,hone⟩
  rcases semOp_rsem (hQ.op .rsem j (List.mem_append_left _ hj)) with hread | hw
  · exfalso
    have hjk := hone j (by rw [hread]; decide)
    subst hjk
    rcases hk with hk | ⟨-,hk⟩
    · rw [hread] at hk
      revert hk
      decide
    · exact hdisj j hj hk
  · exact hwriter j hw

end

section
variable {ι : Type} [DecidableEq ι]

/-- The thread that the step lets increment `readCount_`. -/
def increments (e : Event ι (ι × ι) Empty (Queues ι Sem Shared) Thread) : Option ι :=
  match e.2 with
  | .thread j _ => if e.1.locals j = reading .lockCount then some j else none
  | .env _ => none

/-- Holders of `rsem_` that have yet to increment `readCount_`. -/
def uncounted : List Thread := [reading .lockRsemWait,reading .lockMutex1Wait,reading .lockCount]

theorem mem_holders {t : Thread} (h : t ∈ reading .lockRsemWait :: inRsem) :
    ∃ p ∈ [ReadPC.lockRsemWait,.lockMutex1Wait,.lockCount,.lockWrtWait,.lockMutex1Post,
      .lockRsemPost], t = reading p := by
  simp only [inRsem,List.mem_cons,List.not_mem_nil,or_false] at h
  rcases h with h | h | h | h | h | h <;> exact ⟨_,by decide,h⟩

/-- A reader with `rsem_` keeps `readTry_` at its next step, and it increments but once. -/
theorem holder_step {i : ι} {k : ι × ι} {s s' : Queues ι Sem Shared} {t t' : Thread}
    (ht : t ∈ reading .lockRsemWait :: inRsem)
    (h : (handOffClient ι).act i k s t = some (s',t')) : t' ∈ inReadTry ∧
      presence uncounted t'+(if t = reading .lockCount then 1 else 0) ≤ presence uncounted t := by
  obtain ⟨p,hp,rfl⟩ := mem_holders ht
  rcases handOff_locals h with ⟨rfl,x,hx⟩ | ⟨s₀,s₁,ha⟩
  · cases p
    case lockCount => cases hx
    case lockRsemWait | lockMutex1Wait | lockWrtWait | lockMutex1Post | lockRsemPost => decide
    all_goals exact absurd hp (by decide)
  · obtain ⟨q,hs,rfl⟩ : ∃ q, readStep s₀ p = some (s₁,q) ∧ t' = .reader q :=
      RWLockBase.client_reader ha
    cases readStep_cases hs
    case lockRsemWait | lockMutex1Wait | lockFirst | lockCount | lockWrtWait | lockMutex1Post |
        lockRsemPost => decide
    all_goals exact absurd hp (by decide)

end

section
variable {ι : Type} {c : Config ι (Queues ι Sem Shared) Thread} {k : ι}

theorem HasRsem.mem (hk : HasRsem c k) : c.locals k ∈ reading .lockRsemWait :: inRsem :=
  List.mem_cons.mpr (hk.elim .inr fun hk => .inl hk.1)

end

section
variable {ι : Type} [DecidableEq ι] [Fintype ι] {isWriter : ι → Bool}
  {h h₀ : List (Event ι (ι × ι) Empty (Queues ι Sem Shared) Thread)}
  {c c' : Config ι (Queues ι Sem Shared) Thread} {i k : ι}

/-- The reader that has `rsem_` keeps it, or passes it on to the writer. -/
theorem holder_next (hr : Run (handOffClient ι) (handOffFresh isWriter) h c)
    (hb : WriterBlocked c i) (hk : HasRsem c k) {j : ι} {w : ι × ι}
    (hn : (handOffClient ι).next c (.thread j w) = some c') :
    (c.locals j = reading .lockCount → j=k) ∧ (WriterBlocked c' i → HasRsem c' k) ∧
      presence uncounted (c'.locals k)+(if c.locals j = reading .lockCount then 1 else 0) ≤
        presence uncounted (c.locals k) := by
  obtain ⟨-,k',hk',hone⟩ := rsem_holder hr hb
  obtain rfl := hone k hk.inReadTry
  have hj : c.locals j = reading .lockCount → j=k := fun hj => hone j (by rw [hj]; decide)
  obtain ⟨s',t',ha,rfl⟩ := Machine.next_thread.mp hn
  have hstep : (Function.update c.locals j t') k ∈ inReadTry ∧
      presence uncounted (Function.update c.locals j t' k)+
        (if c.locals j = reading .lockCount then 1 else 0) ≤ presence uncounted (c.locals k) := by
    by_cases hkj : k = j
    · subst hkj
      simpa only [Function.update_self] using holder_step hk.mem ha
    · rw [Function.update_of_ne hkj,if_neg fun hc => hkj (hj hc).symm]
      exact ⟨hk.inReadTry,le_refl _⟩
  refine ⟨hj,fun hb' => ?_,hstep.2⟩
  obtain ⟨-,k',hk',hone'⟩ := rsem_holder (hr.step hn) hb'
  obtain rfl := hone' k hstep.1
  exact hk'

/-- While the first writer is blocked, the reader that has `rsem_` stays the same and is the
only one to increment `readCount_`, once at most. -/
theorem holder_run (hr : Run (handOffClient ι) (handOffFresh isWriter) h₀ c) (hk : HasRsem c k)
    (hr' : Run (handOffClient ι) c h c') (hb : ∀ e ∈ h, WriterBlocked e.1 i) :
    (∀ e ∈ h, ∀ j ∈ increments e, j=k) ∧
    h.countP (fun e => (increments e).isSome)+presence uncounted (c'.locals k) ≤ 1 ∧
    (WriterBlocked c' i → HasRsem c' k) := by
  induction hr' with
  | start =>
    refine ⟨fun e he => (List.not_mem_nil he).elim,?_,fun _ => hk⟩
    simp only [presence,List.countP_nil]
    split <;> decide
  | @step h c₁ c₂ l hr₁ hn ih =>
    obtain ⟨hb₁,hb⟩ := List.forall_mem_cons.mp hb
    obtain ⟨hinc,hcount,hlast⟩ := ih hb
    rcases l with ⟨j,w⟩ | e
    · obtain ⟨hj,hk₂,hle⟩ := holder_next (hr.append hr₁) hb₁ (hlast hb₁) hn
      refine ⟨List.forall_mem_cons.mpr ⟨fun x hx => ?_,hinc⟩,?_,hk₂⟩
      · obtain ⟨hc,he⟩ := Option.ite_none_right_eq_some.mp hx
        cases he
        exact hj hc
      · have he : (if (increments (c₁,.thread j w)).isSome = true then 1 else 0) =
            if c₁.locals j = reading .lockCount then 1 else 0 := by
          simp only [increments]
          split <;> rfl
        rw [List.countP_cons,he]
        omega
    · exact e.elim

/-- From the moment the first writer blocks at the gate until it is let through, no reader is
blocked there, the next post goes to the writer, and at most one reader, which had passed the
gate before, increments `readCount_`. -/
theorem one_reader_let_through (hr : Run (handOffClient ι) (handOffFresh isWriter) h₀ c)
    (hb : WriterBlocked c i) :
    (∀ j ∈ c.shared.waiters .rsem, j=i) ∧
    (∀ j w c', semOp (c.locals j) = some (.post .rsem) →
      (handOffClient ι).next c (.thread j w) = some c' → i ∈ c'.shared.handed .rsem) ∧
    ∃ k, HasRsem c k ∧ ∀ h c', Run (handOffClient ι) c h c' →
      (∀ e ∈ h, WriterBlocked e.1 i) →
      (∀ e ∈ h, ∀ j ∈ increments e, j=k) ∧ h.countP (fun e => (increments e).isSome) ≤ 1 := by
  obtain ⟨hw,k,hk,-⟩ := rsem_holder hr hb
  refine ⟨hw,fun j w c' ho hn => ?_,k,hk,fun h c' hr' hb' => ?_⟩
  · obtain ⟨s',t',ha,rfl⟩ := Machine.next_thread.mp hn
    have hsame : ∀ {x}, (semaphores ι).op (c.locals j) = some (.post x) → x = .rsem := by
      intro x hx
      cases hx.symm.trans ho
      rfl
    cases handOff_cases ha with
    | other hx | take hx | resume hx | block hx => cases hx.symm.trans ho
    | post hx he =>
      obtain rfl := hsame hx
      have hi := hb.2
      rw [he] at hi
      exact (List.not_mem_nil hi).elim
    | hand hx hm =>
      obtain rfl := hsame hx
      simp only [Function.update_self,List.mem_append,List.mem_singleton]
      exact .inr (hw _ hm).symm
  · obtain ⟨hinc,hcount,-⟩ := holder_run hr hk hr' hb'
    exact ⟨hinc,by omega⟩

end

/-- A reader is past the gate when the writer blocks there; it increments and is about to let
the writer through. -/
theorem one_reader_let_through_witness : ∃ h₀ c,
    Run (handOffClient (Fin 2)) (handOffFresh (· = 1)) h₀ c ∧ WriterBlocked c 1 ∧
    (∀ j ∈ c.shared.waiters .rsem, j=1) ∧
    ∃ h c', Run (handOffClient (Fin 2)) c h c' ∧ c'.locals 0 = reading .lockRsemPost ∧
      h.countP (fun e => (increments e).isSome) ≤ 1 := by
  let ls₀ : List (Label (Fin 2) (Fin 2 × Fin 2) Empty) :=
    List.replicate 4 (.thread 0 (0,0)) ++ List.replicate 5 (.thread 1 (1,1))
  let ls : List (Label (Fin 2) (Fin 2 × Fin 2) Empty) := List.replicate 4 (.thread 0 (0,0))
  obtain ⟨h₀,c,hr,hb,h,c',hr',hp,hall⟩ : ∃ h₀ c,
      Run (handOffClient (Fin 2)) (handOffFresh (· = 1)) h₀ c ∧ WriterBlocked c 1 ∧
      ∃ h c', Run (handOffClient (Fin 2)) c h c' ∧ c'.locals 0 = reading .lockRsemPost ∧
        ∀ e ∈ h, WriterBlocked e.1 1 :=
    ⟨_,_,Run.events ls₀ rfl,⟨rfl,by decide⟩,_,_,Run.events ls rfl,rfl,by decide⟩
  obtain ⟨hw,-,k,-,hk⟩ := one_reader_let_through hr hb
  exact ⟨h₀,c,hr,hb,hw,h,c',hr',hp,(hk h c' hr' hall).2⟩

end ReadersWriters.WriterPriorityLock
