import Mathlib.Data.List.Nodup
set_option autoImplicit false

namespace ReadersWriters

/-- The count of a POSIX semaphore. -/
structure Semaphore where
  value : Nat
  deriving DecidableEq, Repr

/-- `sem_wait`: an atomic decrement, possible only while the count is positive.
The `EINTR` retries of the source leave the count alone and are not steps. -/
def Semaphore.wait (s : Semaphore) : Option Semaphore :=
  if s.value = 0 then none else some ⟨s.value-1⟩

def Semaphore.post (s : Semaphore) : Semaphore := ⟨s.value+1⟩

@[simp] theorem Semaphore.value_post (s : Semaphore) : s.post.value = s.value+1 := rfl

theorem Semaphore.wait_eq_some {s s' : Semaphore} :
    s.wait = some s' ↔ s.value = s'.value+1 := by
  obtain ⟨v⟩ := s
  obtain ⟨v'⟩ := s'
  simp only [wait,Option.ite_none_left_eq_some,Option.some.injEq,mk.injEq]
  omega

theorem Semaphore.wait_map_eq_some {α : Type} {s : Semaphore} {f : Semaphore → α} {x : α} :
    s.wait.map f = some x ↔ ∃ n, s.value = n+1 ∧ f ⟨n⟩ = x := by
  rw [Option.map_eq_some_iff]
  constructor
  · rintro ⟨m,hm,hx⟩
    exact ⟨m.value,wait_eq_some.mp hm,hx⟩
  · rintro ⟨n,hn,hx⟩
    exact ⟨⟨n⟩,wait_eq_some.mpr hn,hx⟩

theorem Semaphore.wait_eq_none {s : Semaphore} : s.wait = none ↔ s.value = 0 := by
  simp [wait]

/-- A `pthread_mutex_t`. -/
structure Mutex where
  locked : Bool
  deriving DecidableEq, Repr

/-- `pthread_mutex_lock` has no step while another thread has the mutex. -/
def Mutex.lock (m : Mutex) : Option Mutex := if m.locked then none else some ⟨true⟩

def Mutex.unlock (_ : Mutex) : Mutex := ⟨false⟩

@[simp] theorem Mutex.locked_unlock (m : Mutex) : m.unlock.locked = false := rfl

theorem Mutex.lock_map_eq_some {α : Type} {m : Mutex} {f : Mutex → α} {x : α} :
    m.lock.map f = some x ↔ m.locked = false ∧ f ⟨true⟩ = x := by
  cases h : m.locked <;> simp [lock,h]

theorem Mutex.lock_eq_none {m : Mutex} : m.lock = none ↔ m.locked := by simp [lock]

/-- The threads asleep in `pthread_cond_wait` on one condition variable, the
longest asleep first. A waiter that left the list has been woken and has yet to
take the mutex back. -/
abbrev CondVar (ι : Type) := List ι

section
variable {ι : Type} [DecidableEq ι]

def CondVar.sleep (q : CondVar ι) (i : ι) : CondVar ι := q ++ [i]

/-- `pthread_cond_signal`: wakes the waiter `w` of the system's choice, if there is any. -/
def CondVar.signal (q : CondVar ι) (w : ι) : Option (CondVar ι) :=
  if q = [] then some [] else if w ∈ q then some (q.erase w) else none

/-- `pthread_cond_broadcast` wakes all of them. -/
def CondVar.broadcast (_ : CondVar ι) : CondVar ι := []

/-- A spurious wake-up of thread `i`. -/
def CondVar.wake (q : CondVar ι) (i : ι) : Option (CondVar ι) :=
  if i ∈ q then some (q.erase i) else none

theorem CondVar.signal_eq_some {q q' : CondVar ι} {w : ι} :
    q.signal w = some q' ↔ q = [] ∧ q' = [] ∨ w ∈ q ∧ q' = q.erase w := by
  simp only [signal]
  split <;> rename_i hq
  · simp [hq,eq_comm]
  · simp [hq,eq_comm]

/-- The system can always choose a waiter. -/
theorem CondVar.exists_signal (q : CondVar ι) (i : ι) : ∃ w q', q.signal w = some q' := by
  by_cases hq : q = []
  · exact ⟨i,[],signal_eq_some.mpr (.inl ⟨hq,rfl⟩)⟩
  · obtain ⟨w,hw⟩ := List.exists_mem_of_ne_nil q hq
    exact ⟨w,q.erase w,signal_eq_some.mpr (.inr ⟨hw,rfl⟩)⟩

end

end ReadersWriters
