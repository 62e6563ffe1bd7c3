import Mathlib.Tactic.Linarith
import ReadersWriters.Interleaving.Machine
import ReadersWriters.Primitives
set_option autoImplicit false

namespace ReadersWriters
open Interleaving

/-- `struct timespec`. -/
structure Timespec where
  tv_sec : Int
  tv_nsec : Int
  deriving DecidableEq, Repr

namespace Timespec

def Normalized (t : Timespec) : Prop := 0 ≤ t.tv_nsec ∧ t.tv_nsec < 1000000000

instance : DecidablePred Normalized := fun _ => inferInstanceAs (Decidable (_ ∧ _))

/-- The time in nanoseconds. -/
def nanos (t : Timespec) : Int := t.tv_sec*1000000000+t.tv_nsec

end Timespec

/-- What `clock_gettime` fills in. -/
structure RealTime extends Timespec where
  normalized : toTimespec.Normalized

inductive Errno where
  | EINTR | EINVAL | ETIMEDOUT
  deriving DecidableEq, Repr

/-- `sem_timedwait`, which succeeds or fails with the given `errno`. An invalid `abstime`
matters only to a call that would block. -/
def Semaphore.semTimedwait (s : Semaphore) (abstime now : Timespec) :
    Option Errno → Option Semaphore
  | none => s.wait
  | some .EINTR => some s
  | some .ETIMEDOUT =>
      if s.value = 0 ∧ abstime.Normalized ∧ abstime.nanos ≤ now.nanos then some s else none
  | some .EINVAL => if s.value = 0 ∧ ¬ abstime.Normalized then some s else none

/-- The `abstime` that `timed_wait` computes. C++ division truncates. -/
def abstime (timeoutMs : Int) (now : Timespec) : Timespec :=
  let addNs := timeoutMs*1000000
  let nsec := now.tv_nsec+addNs
  if nsec ≥ 1000000000 then ⟨now.tv_sec+nsec.tdiv 1000000000,nsec.tmod 1000000000⟩
  else ⟨now.tv_sec,nsec⟩

/-- The program points of `timed_wait`. -/
inductive TimedWaitAt where
  | gettime
  | retry (abstime : Timespec)
  | returned (acquired : Bool)
  | thrown (errno : Errno) (context : String)
  deriving DecidableEq, Repr

structure TimedStore where
  sem : Semaphore
  clock : RealTime

/-- The steps of the other threads, and of the clock. -/
inductive Meanwhile where
  | wait | post | clock (t : RealTime)

/-- A call of `timed_wait`, in steps of one call of `sem_timedwait` each. -/
def timedWait (timeoutMs : Int) :
    Machine Unit (Option Errno) Meanwhile TimedStore TimedWaitAt where
  act _ k s
    | .gettime => some (s,.retry (abstime timeoutMs s.clock.toTimespec))
    | .retry a => (s.sem.semTimedwait a s.clock.toTimespec k).map fun m => ({ s with sem := m },
        match k with
        | none => .returned true
        | some .ETIMEDOUT => .returned false
        | some .EINTR => .retry a
        | some e => .thrown e "sem_timedwait")
    | .returned _ | .thrown _ _ => none
  env
    | .wait, s => s.sem.wait.map fun m => { s with sem := m }
    | .post, s => some { s with sem := s.sem.post }
    | .clock t, s => some { s with clock := t }

abbrev TimedConfig := Config Unit TimedStore TimedWaitAt

abbrev TimedEvent := Event Unit (Option Errno) Meanwhile TimedStore TimedWaitAt

section
variable {timeoutMs : Int} {now : Timespec}

theorem abstime_normalized (hn : now.Normalized) :
    (abstime timeoutMs now).Normalized ↔ 0 ≤ now.tv_nsec+timeoutMs*1000000 := by
  obtain ⟨hl,hu⟩ := hn
  simp only [abstime,Timespec.Normalized]
  split <;> rename_i hc
  · have hpos : 0 ≤ now.tv_nsec+timeoutMs*1000000 := by omega
    rw [Int.tmod_eq_emod_of_nonneg hpos]
    dsimp only
    omega
  · dsimp only
    omega

theorem abstime_nanos : (abstime timeoutMs now).nanos = now.nanos+timeoutMs*1000000 := by
  simp only [abstime,Timespec.nanos]
  split
  · have hdiv := Int.tdiv_mul_add_tmod (now.tv_nsec+timeoutMs*1000000) 1000000000
    dsimp only
    linarith
  · dsimp only
    omega

/-- For an `int` the intermediate values fit into a 64-bit `long`, and the carry into the
seconds is small. -/
theorem abstime_fits (hn : now.Normalized) (hl : -2147483648 ≤ timeoutMs)
    (hu : timeoutMs ≤ 2147483647) :
    |timeoutMs*1000000| < 9223372036854775808 ∧
    |now.tv_nsec+timeoutMs*1000000| < 9223372036854775808 ∧
    now.tv_sec ≤ (abstime timeoutMs now).tv_sec ∧
    (abstime timeoutMs now).tv_sec ≤ now.tv_sec+2147484 := by
  obtain ⟨hn₀,hn₁⟩ := hn
  refine ⟨abs_lt.mpr ⟨by omega,by omega⟩,abs_lt.mpr ⟨by omega,by omega⟩,?_⟩
  simp only [abstime]
  split <;> rename_i hc
  · rw [Int.tdiv_eq_ediv_of_nonneg (by omega)]
    dsimp only
    omega
  · dsimp only
    omega

end

/-- What a step of the caller does to the count, if anything. -/
def ownChange (timeoutMs : Int) (e : TimedEvent) : Option Int :=
  match e.2 with
  | .thread i k => ((timedWait timeoutMs).next e.1 (.thread i k)).bind fun c' =>
      if c'.shared.sem.value = e.1.shared.sem.value then none
      else some (c'.shared.sem.value-e.1.shared.sem.value)
  | .env _ => none

/-- All that the caller did to the count, its last change first. -/
def ownChanges (timeoutMs : Int) (h : List TimedEvent) : List Int :=
  h.filterMap (ownChange timeoutMs)

/-- The step after which the call has timed out, with `d` passed. -/
def TimesOut (timeoutMs : Int) (d : Timespec) (e : TimedEvent) : Prop :=
  d.nanos ≤ e.1.shared.clock.nanos ∧
    ∃ c', (timedWait timeoutMs).next e.1 e.2 = some c' ∧ e.1.locals () = .retry d ∧
      c'.locals () = .returned false

/-- What `timed_wait` promises for the deadline `d`, at any moment of the call. -/
structure Exact (timeoutMs : Int) (d : Timespec) (h : List TimedEvent) (c : TimedConfig) :
    Prop where
  retries : ∀ e ∈ h, ∀ a, e.1.locals () = .retry a → a=d
  retry : ∀ a, c.locals () = .retry a → a=d
  acquired : c.locals () = .returned true → ownChanges timeoutMs h = [-1]
  timedOut : c.locals () = .returned false →
    ownChanges timeoutMs h = [] ∧ ∃ e ∈ h, TimesOut timeoutMs d e
  not_thrown : ∀ e context, c.locals () ≠ .thrown e context
  returns : d.nanos ≤ c.shared.clock.nanos → c.locals () = .retry d →
    ∃ k c' b, (timedWait timeoutMs).next c (.thread () k) = some c' ∧ c'.locals () = .returned b

section
variable {timeoutMs : Int} {d : Timespec} {h : List TimedEvent} {c c₀ c' : TimedConfig}

/-- One case for each way in which a call of `sem_timedwait` returns. -/
inductive RetryCase (timeoutMs : Int) (d : Timespec) (c : TimedConfig) :
    Option Errno → TimedConfig → Prop where
  | acquired {n : ℕ} : c.shared.sem.value = n+1 → RetryCase timeoutMs d c none
      ⟨{ c.shared with sem := ⟨n⟩ },fun _ => .returned true⟩
  | interrupted : RetryCase timeoutMs d c (some .EINTR) ⟨c.shared,fun _ => .retry d⟩
  | timedOut : d.nanos ≤ c.shared.clock.nanos → RetryCase timeoutMs d c (some .ETIMEDOUT)
      ⟨c.shared,fun _ => .returned false⟩
  | invalid : c.shared.sem.value = 0 → ¬ d.Normalized → RetryCase timeoutMs d c (some .EINVAL)
      ⟨c.shared,fun _ => .thrown .EINVAL "sem_timedwait"⟩

theorem update_unit {τ : Type} (l : Unit → τ) (t : τ) :
    Function.update l () t = fun _ => t := funext fun _ => Function.update_self ..

theorem retry_cases {k : Option Errno} (hc : c.locals () = .retry d)
    (hn : (timedWait timeoutMs).next c (.thread () k) = some c') :
    RetryCase timeoutMs d c k c' := by
  obtain ⟨s,t,ha,rfl⟩ := Machine.next_thread.mp hn
  rw [update_unit]
  simp only [hc,timedWait] at ha
  obtain ⟨m,hm,he⟩ := Option.map_eq_some_iff.mp ha
  rcases k with _ | _ | _ | _
  · cases he
    exact .acquired (Semaphore.wait_eq_some.mp hm)
  · cases hm
    cases he
    exact .interrupted
  · obtain ⟨⟨hv,hd⟩,hm⟩ := Option.ite_none_right_eq_some.mp hm
    cases hm
    cases he
    exact .invalid hv hd
  · obtain ⟨⟨-,-,ht⟩,hm⟩ := Option.ite_none_right_eq_some.mp hm
    cases hm
    cases he
    exact .timedOut ht

/-- How far the call is, and what it has done to the count by then. -/
inductive Stage (timeoutMs : Int) (d : Timespec) (h : List TimedEvent) (c : TimedConfig) :
    Prop where
  | retry : c.locals () = .retry d → ownChanges timeoutMs h = [] → Stage timeoutMs d h c
  | acquired : c.locals () = .returned true → ownChanges timeoutMs h = [-1] →
      Stage timeoutMs d h c
  | timedOut : c.locals () = .returned false → ownChanges timeoutMs h = [] →
      (∃ e ∈ h, TimesOut timeoutMs d e) → Stage timeoutMs d h c

theorem ownChanges_cons {k : Option Errno} {i : Unit}
    (hn : (timedWait timeoutMs).next c (.thread i k) = some c') :
    ownChanges timeoutMs ((c,.thread i k) :: h) =
      (if c'.shared.sem.value = c.shared.sem.value then []
        else [(c'.shared.sem.value-c.shared.sem.value : Int)]) ++ ownChanges timeoutMs h := by
  simp only [ownChanges,List.filterMap_cons,ownChange,hn,Option.bind_some]
  split <;> rename_i hv <;> split at hv <;> cases hv <;> rename_i hs <;> simp [hs]

theorem stage_step {l : Label Unit (Option Errno) Meanwhile}
    (hn : (timedWait timeoutMs).next c l = some c') (hd : d.Normalized)
    (hs : Stage timeoutMs d h c) : Stage timeoutMs d ((c,l) :: h) c' := by
  rcases l with ⟨⟨⟩,k⟩ | e
  · cases hs with
    | retry hc hch =>
      have hcons := ownChanges_cons (h := h) hn
      cases retry_cases hc hn with
      | @acquired n hv =>
        refine .acquired rfl ?_
        rw [hcons,hch]
        simp [hv]
      | interrupted =>
        refine .retry rfl ?_
        rw [hcons,hch]
        simp
      | timedOut ht =>
        refine .timedOut rfl ?_ ⟨_,List.mem_cons_self,ht,_,hn,hc,rfl⟩
        rw [hcons,hch]
        simp
      | invalid _ hi => exact absurd hd hi
    | acquired hc | timedOut hc =>
      obtain ⟨s,t,ha,-⟩ := Machine.next_thread.mp hn
      simp only [hc,timedWait] at ha
      cases ha
  · obtain ⟨s,-,rfl⟩ := Machine.next_env.mp hn
    have hcons : ownChanges timeoutMs ((c,.env e) :: h) = ownChanges timeoutMs h := rfl
    cases hs with
    | retry hc hch => exact .retry hc (hcons.trans hch)
    | acquired hc hch => exact .acquired hc (hcons.trans hch)
    | timedOut hc hch ht =>
      obtain ⟨x,hx,ht⟩ := ht
      exact .timedOut hc (hcons.trans hch) ⟨x,List.mem_cons_of_mem _ hx,ht⟩

theorem stage_run (hr : Run (timedWait timeoutMs) c₀ h c) (hc : c₀.locals () = .retry d)
    (hd : d.Normalized) :
    Stage timeoutMs d h c ∧ ∀ e ∈ h, ∀ a, e.1.locals () = .retry a → a=d := by
  induction hr with
  | start => exact ⟨.retry hc rfl,fun e he => by cases he⟩
  | step _ hn ih =>
    obtain ⟨hs,hall⟩ := ih
    refine ⟨stage_step hn hd hs,List.forall_mem_cons.mpr ⟨fun a ha => ?_,hall⟩⟩
    cases hs with
    | retry hc => cases hc.symm.trans ha; rfl
    | acquired hc | timedOut hc => cases hc.symm.trans ha

/-- Once the deadline has passed the call can return: with the semaphore if it is free. -/
theorem returns_of_passed (timeoutMs : Int) (hd : d.Normalized) (ht : d.nanos ≤ c.shared.clock.nanos)
    (hc : c.locals () = .retry d) :
    ∃ k c' b, (timedWait timeoutMs).next c (.thread () k) = some c' ∧
      c'.locals () = .returned b := by
  by_cases hv : c.shared.sem.value = 0
  · refine ⟨some .ETIMEDOUT,⟨c.shared,Function.update c.locals () (.returned false)⟩,false,
      Machine.next_thread.mpr ⟨c.shared,.returned false,?_,rfl⟩,rfl⟩
    simp only [hc,timedWait,Semaphore.semTimedwait,hv,hd,ht,and_self,if_true,Option.map_some]
  · refine ⟨none,⟨{ c.shared with sem := ⟨c.shared.sem.value-1⟩ },
      Function.update c.locals () (.returned true)⟩,true,
      Machine.next_thread.mpr ⟨_,.returned true,?_,rfl⟩,rfl⟩
    simp only [hc,timedWait,Semaphore.semTimedwait,Semaphore.wait,hv,if_false,Option.map_some]

theorem exact_run (hr : Run (timedWait timeoutMs) c₀ h c) (hc : c₀.locals () = .retry d)
    (hd : d.Normalized) : Exact timeoutMs d h c := by
  obtain ⟨hs,hall⟩ := stage_run hr hc hd
  have hret := returns_of_passed (c := c) timeoutMs hd
  cases hs with
  | retry hl =>
    refine ⟨hall,fun a ha => ?_,fun ha => ?_,fun ha => ?_,fun e x ha => ?_,hret⟩
    · cases hl.symm.trans ha
      rfl
    all_goals cases hl.symm.trans ha
  | acquired hl hch =>
    refine ⟨hall,fun a ha => ?_,fun _ => hch,fun ha => ?_,fun e x ha => ?_,hret⟩
    all_goals cases hl.symm.trans ha
  | timedOut hl hch ht =>
    refine ⟨hall,fun a ha => ?_,fun ha => ?_,fun _ => ⟨hch,ht⟩,fun e x ha => ?_,hret⟩
    all_goals cases hl.symm.trans ha

/-- Without a count to take, a call whose `abstime` is invalid throws. -/
theorem throws (timeoutMs : Int) (hc : c.locals () = .retry d) (hv : c.shared.sem.value = 0)
    (hd : ¬ d.Normalized) : ∃ h c', Run (timedWait timeoutMs) c h c' ∧
      c'.locals () = .thrown .EINVAL "sem_timedwait" := by
  refine ⟨_,_,.step .start (l := .thread () (some .EINVAL)) (Machine.next_thread.mpr
    ⟨c.shared,.thrown .EINVAL "sem_timedwait",?_,rfl⟩),rfl⟩
  simp only [hc,timedWait,Semaphore.semTimedwait,hv,hd,not_false_eq_true,and_self,if_true,
    Option.map_some]

end

/-- `timed_wait` keeps its promises, whatever the count and the other threads do, exactly when
the timeout does not reach back beyond the current second. -/
theorem timed_wait_exact (timeoutMs : Int) (now : RealTime) :
    (∃ d : Timespec, d.Normalized ∧ d.nanos = now.nanos+timeoutMs*1000000 ∧
      ∀ (c₀ c₁ : TimedConfig) (k : Option Errno) (h : List TimedEvent) (c : TimedConfig),
        c₀.locals () = .gettime → c₀.shared.clock = now →
        (timedWait timeoutMs).next c₀ (.thread () k) = some c₁ →
        Run (timedWait timeoutMs) c₁ h c → Exact timeoutMs d h c) ↔
    0 ≤ now.tv_nsec+timeoutMs*1000000 := by
  rw [← abstime_normalized now.normalized]
  refine ⟨fun ⟨d,_,_,hall⟩ => ?_,fun hd => ⟨_,hd,abstime_nanos,?_⟩⟩
  · by_contra hd
    obtain ⟨h,c,hr,ht⟩ := throws timeoutMs
      (c := ⟨⟨⟨0⟩,now⟩,fun _ => .retry (abstime timeoutMs now.toTimespec)⟩) rfl rfl hd
    refine (hall ⟨⟨⟨0⟩,now⟩,fun _ => .gettime⟩ _ none h c rfl rfl ?_ hr).not_thrown _ _ ht
    exact Machine.next_thread.mpr ⟨_,_,rfl,by rw [update_unit]⟩
  · rintro c₀ c₁ k h c hc rfl hn hr
    obtain ⟨s,t,ha,rfl⟩ := Machine.next_thread.mp hn
    simp only [hc,timedWait] at ha
    cases ha
    exact exact_run hr rfl hd

/-- A timeout of -1 ms at a full second: the call throws instead of returning false. -/
theorem timed_wait_throws : ∃ h c,
    Run (timedWait (-1)) ⟨⟨⟨0⟩,⟨100,0⟩,by decide⟩,fun _ => .gettime⟩ h c ∧
    c.locals () = .thrown .EINVAL "sem_timedwait" := by
  obtain ⟨h,hr,-⟩ := Run.of_exec (m := timedWait (-1))
    (c := ⟨⟨⟨0⟩,⟨100,0⟩,by decide⟩,fun _ => .gettime⟩)
    [.thread () none,.thread () (some .EINVAL)] rfl
  exact ⟨h,_,hr,rfl⟩

end ReadersWriters
