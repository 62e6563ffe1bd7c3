import ReadersWriters.Interleaving.Census
import ReadersWriters.ThreadInfo
set_option autoImplicit false

namespace ReadersWriters
open Interleaving

/-- Where a thread stands towards its lock: outside it, inside one of the member
functions, or between the return of the lock call and the unlock call. -/
inductive Pos (P : Type) where
  | idle : Pos P
  | inside : P → Pos P
  | holding : Pos P
  deriving DecidableEq, Repr

/-- A member function keeps to its own program points: a step from a point of the lock
call stays among these or gives `holding`, one from a point of the unlock call `idle`. -/
def Pos.locking {P : Type} (f : P → Bool) : Pos P → Bool
  | .idle => false
  | .inside p => f p
  | .holding => true

/-- `RWLockBase`, for threads `ι` and a lock with fields `S`. The member functions
run in steps between the program points `R` (of `readLock` and `readUnlock`) and `W`
(of `writeLock` and `writeUnlock`). The first argument of a step is the calling thread,
the second the waiter that a signal in it would wake. -/
structure RWLockBase (ι S R W : Type) where
  init : S
  readLock : R
  readUnlock : R
  writeLock : W
  writeUnlock : W
  readStep : ι → ι → S → R → Option (S × Pos R)
  writeStep : ι → ι → S → W → Option (S × Pos W)
  spuriousWake : ι → S → Option S
  /-- The state that `transitionWaiting`, `transitionActive` or `transitionReleasing` stores. -/
  readPublish : R → Option ThreadState
  writePublish : W → Option ThreadState
  readerCount : S → Int
  writerActive : S → Bool
  /-- The program points after admission and before release. -/
  readAdmitted : R → Bool
  writeAdmitted : W → Bool
  /-- The program points of the lock call. -/
  readLocking : R → Bool
  writeLocking : W → Bool
  readLock_locking : readLocking readLock = true
  readUnlock_locking : readLocking readUnlock = false
  writeLock_locking : writeLocking writeLock = true
  writeUnlock_locking : writeLocking writeUnlock = false
  readStep_locking : ∀ {i w s p s' q}, readStep i w s p = some (s',q) →
    q.locking readLocking = readLocking p
  writeStep_locking : ∀ {i w s p s' q}, writeStep i w s p = some (s',q) →
    q.locking writeLocking = writeLocking p

/-- A thread as its lock sees it. -/
inductive Client (R W : Type) where
  | reader : Pos R → Client R W
  | writer : Pos W → Client R W
  deriving DecidableEq, Repr

def Client.isWriter {R W : Type} : Client R W → Bool
  | .reader _ => false
  | .writer _ => true

namespace RWLockBase

section
variable {ι S R W : Type} (L : RWLockBase ι S R W)

/-- Threads that pair their lock and unlock calls and are free in all else: when
they call, how long they hold the lock and how often they come back. -/
def client : Machine ι ι ι S (Client R W) where
  act i w s
    | .reader .idle => some (s,.reader (.inside L.readLock))
    | .reader (.inside p) => (L.readStep i w s p).map fun r => (r.1,.reader r.2)
    | .reader .holding => some (s,.reader (.inside L.readUnlock))
    | .writer .idle => some (s,.writer (.inside L.writeLock))
    | .writer (.inside p) => (L.writeStep i w s p).map fun r => (r.1,.writer r.2)
    | .writer .holding => some (s,.writer (.inside L.writeUnlock))
  env := L.spuriousWake

/-- The client enters a member function. -/
inductive Call : Client R W → Client R W → Prop where
  | readLock : Call (.reader .idle) (.reader (.inside L.readLock))
  | readUnlock : Call (.reader .holding) (.reader (.inside L.readUnlock))
  | writeLock : Call (.writer .idle) (.writer (.inside L.writeLock))
  | writeUnlock : Call (.writer .holding) (.writer (.inside L.writeUnlock))

/-- Readers and writers, all outside the lock. -/
def fresh (isWriter : ι → Bool) : Config ι S (Client R W) where
  shared := L.init
  locals i := if isWriter i then .writer .idle else .reader .idle

/-- The thread holds the lock for reading: from admission to release. -/
def HoldsRead : Client R W → Prop
  | .reader (.inside p) => L.readAdmitted p
  | .reader .holding => True
  | _ => False

def HoldsWrite : Client R W → Prop
  | .writer (.inside p) => L.writeAdmitted p
  | .writer .holding => True
  | _ => False

/-- A writer that holds the lock is alone. -/
def Exclusive (c : Config ι S (Client R W)) : Prop :=
  ∀ i j, i ≠ j → L.HoldsWrite (c.locals i) →
    ¬ L.HoldsWrite (c.locals j) ∧ ¬ L.HoldsRead (c.locals j)

/-- Inside a member function, with no step whatever waiter a signal would wake. -/
def Blocked (c : Config ι S (Client R W)) (i : ι) : Prop :=
  (∃ p, c.locals i = .reader (.inside p) ∧ ∀ w, L.readStep i w c.shared p = none) ∨
  ∃ p, c.locals i = .writer (.inside p) ∧ ∀ w, L.writeStep i w c.shared p = none

/-- No thread moves: each one is outside the lock or blocked inside it. -/
def Stuck (c : Config ι S (Client R W)) : Prop :=
  ∀ i, L.Blocked c i ∨ c.locals i = .reader .idle ∨ c.locals i = .writer .idle

/-- The lock is never the reason that nothing moves: in a stuck state no thread is inside. -/
def Progress (c : Config ι S (Client R W)) : Prop := L.Stuck c → ∀ i, ¬ L.Blocked c i

end

section
variable {ι S R W : Type} {L : RWLockBase ι S R W} {i w : ι} {s s' : S} {t' : Client R W}

theorem client_reader {p : R} (h : L.client.act i w s (.reader (.inside p)) = some (s',t')) :
    ∃ q, L.readStep i w s p = some (s',q) ∧ t' = .reader q := by
  obtain ⟨⟨s₁,q⟩,hs,he⟩ := Option.map_eq_some_iff.mp h
  cases he
  exact ⟨q,hs,rfl⟩

theorem client_writer {p : W} (h : L.client.act i w s (.writer (.inside p)) = some (s',t')) :
    ∃ q, L.writeStep i w s p = some (s',q) ∧ t' = .writer q := by
  obtain ⟨⟨s₁,q⟩,hs,he⟩ := Option.map_eq_some_iff.mp h
  cases he
  exact ⟨q,hs,rfl⟩

/-- A client calls or is inside one of the member functions. -/
theorem client_cases {t : Client R W} (h : L.client.act i w s t = some (s',t')) :
    s' = s ∧ L.Call t t' ∨
    (∃ p q, t = .reader (.inside p) ∧ t' = .reader q ∧ L.readStep i w s p = some (s',q)) ∨
    ∃ p q, t = .writer (.inside p) ∧ t' = .writer q ∧ L.writeStep i w s p = some (s',q) := by
  match t with
  | .reader (.inside p) =>
    obtain ⟨q,hs,rfl⟩ := client_reader h
    exact .inr (.inl ⟨p,q,rfl,rfl,hs⟩)
  | .writer (.inside p) =>
    obtain ⟨q,hs,rfl⟩ := client_writer h
    exact .inr (.inr ⟨p,q,rfl,rfl,hs⟩)
  | .reader .idle | .reader .holding | .writer .idle | .writer .holding =>
    cases h
    exact .inl ⟨rfl,by constructor⟩

end

section
variable {ι S R W : Type} [Fintype ι] {L : RWLockBase ι S R W}

theorem headcount_fresh [DecidableEq R] [DecidableEq W] (isWriter : ι → Bool)
    {T : List (Client R W)}
    (hr : .reader .idle ∉ T) (hw : .writer .idle ∉ T) :
    headcount (L.fresh isWriter).locals T = 0 := by
  rw [headcount,Finset.card_eq_zero,Finset.filter_eq_empty_iff]
  intro i _
  simp only [fresh]
  split
  · exact hw
  · exact hr

/-- Readers stay readers and writers writers. -/
theorem run_isWriter {ι S R W : Type} [DecidableEq ι] {L : RWLockBase ι S R W}
    {isWriter : ι → Bool} {h : List (Event ι ι ι S (Client R W))} {c : Config ι S (Client R W)}
    (hr : Run L.client (L.fresh isWriter) h c) (i : ι) : (c.locals i).isWriter = isWriter i := by
  refine hr.always (P := fun c => (c.locals i).isWriter = isWriter i) ?_ ?_
  · simp only [fresh]
    split <;> rename_i h <;> simp [h,Client.isWriter]
  · rintro c (⟨j,k⟩ | e) c' hc hn
    · obtain ⟨s',t',ha,rfl⟩ := Machine.next_thread.mp hn
      by_cases hij : i = j
      · subst hij
        rw [← hc]
        generalize c.locals i = t at ha
        simp only [Function.update_self]
        rcases client_cases ha with ⟨-,hc⟩ | ⟨p,q,rfl,rfl,-⟩ | ⟨p,q,rfl,rfl,-⟩
        · cases hc <;> rfl
        · rfl
        · rfl
      · simpa only [Function.update_of_ne hij] using hc
    · obtain ⟨s',-,rfl⟩ := Machine.next_env.mp hn
      exact hc

/-- A relation between the store and a total of the clients survives a run if each step
of the member functions and each call of them preserves it. -/
theorem run_invariant [DecidableEq ι] {M : Type} [AddCommMonoid M] {m : Client R W → M}
    {I : S → M → Prop} {isWriter : ι → Bool}
    (h₀ : I L.init (total m (L.fresh isWriter).locals))
    (hread : ∀ i w s p s' q (r : M), L.readStep i w s p = some (s',q) →
      I s (r+m (.reader (.inside p))) → I s' (r+m (.reader q)))
    (hwrite : ∀ i w s p s' q (r : M), L.writeStep i w s p = some (s',q) →
      I s (r+m (.writer (.inside p))) → I s' (r+m (.writer q)))
    (hcall : ∀ s t t' (r : M), L.Call t t' → I s (r+m t) → I s (r+m t'))
    (hwake : ∀ i s s' n, L.spuriousWake i s = some s' → I s n → I s' n)
    {h : List (Event ι ι ι S (Client R W))} {c : Config ι S (Client R W)}
    (hr : Run L.client (L.fresh isWriter) h c) : I c.shared (total m c.locals) := by
  refine hr.total_invariant h₀ ?_ hwake
  intro i w s t s' t' r ha hI
  rcases client_cases ha with ⟨rfl,hc⟩ | ⟨p,q,rfl,rfl,hs⟩ | ⟨p,q,rfl,rfl,hs⟩
  · exact hcall _ _ _ r hc hI
  · exact hread i w s p _ _ r hs hI
  · exact hwrite i w s p _ _ r hs hI

end

end RWLockBase

end ReadersWriters
