import ReadersWriters.Completion
import ReadersWriters.RunSimulation
import ReadersWriters.StarveCount
set_option autoImplicit false

namespace ReadersWriters
open Interleaving

section
variable {n : ℕ} {S R W : Type} {L : RWLockBase (Fin n) S R W} {starveThresholdMs : Int}
  {fails : Option (Fin n)}

/-- The next step of the thread is one of its worker, not a clock reading or a load before it. -/
def Watchee.stores (L : RWLockBase (Fin n) S R W) (t : Watchee R W) : Bool :=
  match t.worker.publishes L, t.transition with
  | some .WAITING, .outside => false
  | some .ACTIVE, .outside | some .ACTIVE, .loaded _ | some .ACTIVE, .waited _ => false
  | _, _ => true

variable {i : Fin n} {k : Fin n × TimePoint} {s s' : Simulated (Fin n) S} {t t' : Watchee R W}

theorem simulated_act (h : (simulated L starveThresholdMs fails).act i k s t = some (s',t')) :
    i < s.created ∧ WatchedCase L i k s.watched t s'.watched t' ∧ s' = { s with
      watched := s'.watched
      terminated := Function.update s.terminated i t'.worker.terminated } := by
  obtain ⟨hi,h⟩ := Option.ite_none_right_eq_some.mp h
  obtain ⟨⟨x,u⟩,ha,he⟩ := Option.map_eq_some_iff.mp h
  cases he
  exact ⟨hi,watched_act_cases ha,rfl⟩

theorem simulated_watched (h : (simulated L starveThresholdMs fails).act i k s t = some (s',t')) :
    (watched L starveThresholdMs (List.finRange n)).act i k s.watched t =
      some (s'.watched,t') ∧ s'.main = s.main := by
  obtain ⟨-,h⟩ := Option.ite_none_right_eq_some.mp h
  obtain ⟨⟨x,u⟩,ha,he⟩ := Option.map_eq_some_iff.mp h
  cases he
  exact ⟨ha,rfl⟩

theorem workersView_silent (h : (simulated L starveThresholdMs fails).act i k s t = some (s',t'))
    (ht : t.stores L = false) : s'.watched.sim = s.watched.sim ∧ t'.worker = t.worker := by
  obtain ⟨-,hc,-⟩ := simulated_act h
  generalize s'.watched = w at hc
  cases hc with
  | waitStart | load | wait | enter => exact ⟨rfl,rfl⟩
  | step hw hl =>
    simp only [Watchee.stores] at ht
    split at ht <;> rename_i hp hq
    · exact absurd hq (hw hp)
    · rcases hl hp with hl | ⟨ms,hl⟩ <;> cases hq.symm.trans hl
    · rcases hl hp with hl | ⟨ms,hl⟩ <;> cases hq.symm.trans hl
    · rcases hl hp with hl | ⟨ms,hl⟩ <;> cases hq.symm.trans hl
    · cases ht

theorem workersView_visible (h : (simulated L starveThresholdMs fails).act i k s t = some (s',t'))
    (ht : t.stores L = true) :
    (workers L).act i k.1 s.watched.sim t.worker = some (s'.watched.sim,t'.worker) := by
  obtain ⟨-,hc,-⟩ := simulated_act h
  generalize s'.watched = w at hc
  cases hc with
  | waitStart hp hq | load hp hq | wait hp hq | enter hp hq =>
    simp [Watchee.stores,hp,hq] at ht
  | step _ _ hx => exact hx

end

/-- One case for each branch of `runSimulation`. -/
inductive MainCase {n : ℕ} {S : Type} (fails : Option (Fin n)) (s : Simulated (Fin n) S) :
    Simulated (Fin n) S → Prop where
  | createFails {k : ℕ} (h : k < n) : s.main = .create k → fails = some ⟨k,h⟩ →
      MainCase fails s { s with main := .watchdogStop true }
  | create {k : ℕ} (h : k < n) : s.main = .create k → fails ≠ some ⟨k,h⟩ →
      MainCase fails s { s with created := k+1, main := .create (k+1) }
  | allCreated {k : ℕ} : s.main = .create k → n ≤ k → MainCase fails s { s with main := .join 0 }
  | join {k : ℕ} (h : k < n) : s.main = .join k → s.terminated ⟨k,h⟩ = true →
      MainCase fails s { s with main := .join (k+1) }
  | allJoined {k : ℕ} : s.main = .join k → n ≤ k →
      MainCase fails s { s with main := .watchdogStop false }
  | watchdogStop {threw : Bool} : s.main = .watchdogStop threw → MainCase fails s { s with
      watched := { s.watched with running := false }
      main := .watchdogJoin threw }
  | watchdogJoin {threw : Bool} : s.main = .watchdogJoin threw → s.watched.watchdog = .stopped →
      MainCase fails s { s with main := .ended threw }

theorem main_cases {n : ℕ} {S : Type} {fails : Option (Fin n)} {s s' : Simulated (Fin n) S}
    (h : runSimulation fails s = some s') : MainCase fails s s' := by
  simp only [runSimulation] at h
  split at h <;> rename_i hm
  case h_1 k =>
    cases h
    split <;> rename_i hk
    · split <;> rename_i hf
      · exact .createFails hk hm hf
      · exact .create hk hm hf
    · exact .allCreated hm (not_lt.mp hk)
  case h_2 k =>
    split at h <;> rename_i hk
    · obtain ⟨ht,he⟩ := Option.ite_none_right_eq_some.mp h
      cases he
      exact .join hk hm ht
    · cases h
      exact .allJoined hm (not_lt.mp hk)
  case h_3 threw =>
    cases h
    exact .watchdogStop hm
  case h_4 threw =>
    obtain ⟨ht,he⟩ := Option.ite_none_right_eq_some.mp h
    cases he
    exact .watchdogJoin hm ht
  case h_5 => cases h

theorem watchdog_sim {ι S : Type} [DecidableEq ι] {starveThresholdMs : Int} {registry : List ι}
    {t : TimePoint} {s s' : Watched ι S}
    (h : watchdogRun starveThresholdMs registry t s = some s') : s'.sim = s.sim := by
  cases watchdog_cases h <;> rfl

section
variable {n : ℕ} {S R W : Type} {L : RWLockBase (Fin n) S R W} {starveThresholdMs : Int}
  {fails : Option (Fin n)} {i : Fin n} {k : Fin n × TimePoint} {s s' : Simulated (Fin n) S}
  {t t' : Watchee R W}

/-- What the workers of a simulation do is a run of workers. -/
def workersView (L : RWLockBase (Fin n) S R W) (starveThresholdMs : Int)
    (fails : Option (Fin n)) : Simulation (simulated L starveThresholdMs fails) (workers L) :=
  .ofThreads (fun s => s.watched.sim) Watchee.worker
    (fun k _ t => if t.stores L then some k.1 else none)
    (fun | .disturbance d => some d | .main | .watchdog _ => none)
    (fun h hc => workersView_silent h (by simpa using hc))
    (fun h hc => by
      obtain ⟨ht,he⟩ := Option.ite_none_right_eq_some.mp hc
      cases he
      exact workersView_visible h ht)
    (by
      intro e s s' h he
      cases e with
      | disturbance d => cases he
      | main => cases main_cases h <;> rfl
      | watchdog t =>
        obtain ⟨x,hx,rfl⟩ := Option.map_eq_some_iff.mp h
        exact watchdog_sim hx)
    (by
      intro e s s' e' h he
      cases e with
      | main | watchdog => cases he
      | disturbance d =>
        cases he
        obtain ⟨x,hx,rfl⟩ := Option.map_eq_some_iff.mp h
        obtain ⟨y,hy,rfl⟩ := Option.map_eq_some_iff.mp hx
        exact hy)

/-- The step of the watched simulation in a step of the whole. -/
def watchedLabel (c : Config (Fin n) (Simulated (Fin n) S) (Watchee R W)) :
    Label (Fin n) (Fin n × TimePoint) (Around (Fin n)) →
      Option (Label (Fin n) (Fin n × TimePoint) (Beside (Fin n)))
  | .thread i k => some (.thread i k)
  | .env .main => match c.shared.main with
      | .watchdogStop _ => some (.env .stop)
      | _ => none
  | .env (.watchdog τ) => some (.env (.watchdog τ))
  | .env (.disturbance d) => some (.env (.disturbance d))

theorem watchedView_step {c c' : Config (Fin n) (Simulated (Fin n) S) (Watchee R W)}
    {l : Label (Fin n) (Fin n × TimePoint) (Around (Fin n))}
    (hn : (simulated L starveThresholdMs fails).next c l = some c') :
    match watchedLabel c l with
    | none => c'.shared.watched = c.shared.watched ∧ c'.locals = c.locals
    | some l' => (watched L starveThresholdMs (List.finRange n)).next
        ⟨c.shared.watched,c.locals⟩ l' = some ⟨c'.shared.watched,c'.locals⟩ := by
  cases l with
  | thread i k =>
    obtain ⟨s,t,ha,rfl⟩ := Machine.next_thread.mp hn
    exact Machine.next_thread.mpr ⟨_,_,(simulated_watched ha).1,rfl⟩
  | env e =>
    obtain ⟨s,he,rfl⟩ := Machine.next_env.mp hn
    cases e with
    | main =>
      cases main_cases he with
      | watchdogStop hp =>
        simp only [watchedLabel,hp]
        rfl
      | createFails _ hp | create _ hp | allCreated hp | join _ hp | allJoined hp
      | watchdogJoin hp => simp only [watchedLabel,hp,and_self]
    | watchdog τ =>
      obtain ⟨x,hx,rfl⟩ := Option.map_eq_some_iff.mp he
      exact Machine.next_env.mpr ⟨_,hx,rfl⟩
    | disturbance d =>
      obtain ⟨x,hx,rfl⟩ := Option.map_eq_some_iff.mp he
      exact Machine.next_env.mpr ⟨_,hx,rfl⟩

/-- What the workers and the watchdog do in a simulation is a run of the watched one. -/
def watchedView (L : RWLockBase (Fin n) S R W) (starveThresholdMs : Int)
    (fails : Option (Fin n)) : Simulation (simulated L starveThresholdMs fails)
      (watched L starveThresholdMs (List.finRange n)) where
  view c := ⟨c.shared.watched,c.locals⟩
  label e := watchedLabel e.1 e.2
  silent := by
    intro c l c' hn hl
    have hs := watchedView_step hn
    simp only [hl] at hs
    rw [hs.1,hs.2]
  visible := by
    intro c l c' l' hn hl
    have hs := watchedView_step hn
    simp only [hl] at hs
    exact hs

/-- A worker's step that stores a state, or none, in the record. -/
theorem watched_store (starveThresholdMs : Int) (registry : List (Fin n)) {w : Fin n}
    {x : SimState S} {u : Worker R W} {s : Watched (Fin n) S}
    (ha : (workers L).act i w s.sim t.worker = some (x,u))
    (ht : t.stores L = true) : ∃ s',
    (watched L starveThresholdMs registry).act i (w,0) s t = some (s',⟨u,.outside⟩) ∧
      s'.sim = x := by
  refine ⟨{ s.modify i fun r => { r with
    state := (t.worker.publishes L).getD r.state } with sim := x },?_,rfl⟩
  simp only [Watchee.stores] at ht
  simp only [watched]
  split <;> rename_i hp hq
  · simp [hp,hq] at ht
  · simp [hp,hq] at ht
  · simp [hp,hq] at ht
  · simp [hp,hq] at ht
  · rw [ha]
    rfl

/-- A step of a worker, after the clock readings and loads that its transition still has to
make. -/
theorem watched_solo (starveThresholdMs : Int) (registry : List (Fin n)) {w : Fin n}
    {x : SimState S} {u : Worker R W} {s : Watched (Fin n) S}
    (ha : (workers L).act i w s.sim t.worker = some (x,u)) : ∃ s',
    Solo (watched L starveThresholdMs registry) i s t s' ⟨u,.outside⟩ ∧ s'.sim = x := by
  have hstore : ∀ {s : Watched (Fin n) S} {t : Watchee R W},
      (workers L).act i w s.sim t.worker = some (x,u) → t.stores L = true → ∃ s',
      Solo (watched L starveThresholdMs registry) i s t s' ⟨u,.outside⟩ ∧ s'.sim = x := by
    intro s t ha ht
    obtain ⟨s',hs,hx⟩ := watched_store starveThresholdMs registry ha ht
    exact ⟨s',.one hs,hx⟩
  obtain ⟨v,tr⟩ := t
  have hentered : v.publishes L = some .ACTIVE → ∀ {s : Watched (Fin n) S} (ms : Int),
      (workers L).act i w s.sim v = some (x,u) → ∃ s',
      Solo (watched L starveThresholdMs registry) i s ⟨v,.waited ms⟩ s' ⟨u,.outside⟩ ∧
        s'.sim = x := by
    intro hp s ms ha
    obtain ⟨s',hs,hx⟩ := hstore (t := ⟨v,.entered ms⟩) (s := s.modify i fun r => { r with
      activeStart := 0
      totalWaitMs := r.totalWaitMs+millisBetween r.waitStart 0 }) ha (by simp [Watchee.stores,hp])
    exact ⟨s',.step (k := (w,0)) (by simp only [watched,hp]) hs,hx⟩
  have hwaited : v.publishes L = some .ACTIVE → ∀ {s : Watched (Fin n) S} {b : Bool},
      (workers L).act i w s.sim v = some (x,u) → ∃ s',
      Solo (watched L starveThresholdMs registry) i s ⟨v,.loaded b⟩ s' ⟨u,.outside⟩ ∧
        s'.sim = x := by
    intro hp s b ha
    obtain ⟨s',hs,hx⟩ := hentered hp (if b then millisBetween (s.record i).waitStart 0 else 0) ha
    exact ⟨s',.step (k := (w,0)) (by simp only [watched,hp]) hs,hx⟩
  cases ht : Watchee.stores L ⟨v,tr⟩ with
  | true => exact hstore ha ht
  | false =>
    simp only [Watchee.stores] at ht
    split at ht <;> rename_i hp
    · obtain ⟨s',hs,hx⟩ := hstore (t := ⟨v,.waitStarted⟩)
        (s := s.modify i fun r => { r with waitStart := 0 }) ha (by simp [Watchee.stores,hp])
      exact ⟨s',.step (k := (w,0)) (by simp only [watched,hp]) hs,hx⟩
    · obtain ⟨s',hs,hx⟩ := hwaited hp (b := (s.record i).state = .WAITING) ha
      exact ⟨s',.step (k := (w,0)) (by simp only [watched,hp]) hs,hx⟩
    · exact hwaited hp ha
    · exact hentered hp _ ha
    · cases ht

/-- The steps of a worker that has been created go on under the main thread. -/
theorem simulated_solo {x : Watched (Fin n) S} (hi : i < s.created)
    (hs : Solo (watched L starveThresholdMs (List.finRange n)) i s.watched t x t') : ∃ s',
    Solo (simulated L starveThresholdMs fails) i s t s' t' ∧ s'.watched = x ∧
      s'.main = s.main ∧ s'.created = s.created := by
  obtain ⟨y,hy⟩ : ∃ y, y = s.watched := ⟨_,rfl⟩
  rw [← hy] at hs
  induction hs generalizing s with
  | refl => exact ⟨s,.refl,hy.symm,rfl,rfl⟩
  | @step k _ y' _ t t₁ _ ha _ ih =>
    subst hy
    obtain ⟨s',hs,hx,hm,hc⟩ := ih (s := { s with
      watched := y', terminated := Function.update s.terminated i t₁.worker.terminated }) hi rfl
    refine ⟨s',.step (k := k) ?_ hs,hx,hm,hc⟩
    simp only [simulated,if_pos hi,ha]
    rfl

/-- What the main thread has seen to when no `pthread_create` fails. -/
structure Supervised (c : Config (Fin n) (Simulated (Fin n) S) (Watchee R W)) : Prop where
  main : match c.shared.main with
    | .create k => c.shared.created = k ∧ k ≤ n
    | .join _ => c.shared.created = n
    | .watchdogStop threw => c.shared.created = n ∧ threw = false
    | .watchdogJoin threw | .ended threw =>
        c.shared.created = n ∧ threw = false ∧ c.shared.watched.running = false
  terminated : ∀ i, (c.locals i).worker.Done → c.shared.terminated i = true

variable {c c' : Config (Fin n) (Simulated (Fin n) S) (Watchee R W)}

/-- A bound on the steps that the watchdog makes before it stops, once it has been told to. -/
def WatchdogAt.stepsLeft {ι : Type} : WatchdogAt ι → ℕ
  | .stopped => 0
  | .poll => 1
  | .visit rest => 7*rest.length+2
  | .event _ _ rest => 7*rest.length+3
  | .count _ _ rest => 7*rest.length+4
  | .flag _ _ rest => 7*rest.length+5
  | .elapsed _ _ rest => 7*rest.length+6
  | .now _ rest => 7*rest.length+7
  | .reload _ rest => 7*rest.length+8

theorem stepsLeft_compareWait {ι : Type} {starveThresholdMs waitMs : Int} {i : ι}
    {rest : List ι} :
    (compareWait starveThresholdMs i waitMs rest).stepsLeft ≤ 7*rest.length+5 := by
  simp only [compareWait]
  split <;> simp [WatchdogAt.stepsLeft]

theorem stepsLeft_lt {ι S : Type} [DecidableEq ι] {starveThresholdMs : Int} {registry : List ι}
    {t : TimePoint} {s s' : Watched ι S} (hr : s.running = false)
    (h : watchdogRun starveThresholdMs registry t s = some s') :
    s'.watchdog.stepsLeft < s.watchdog.stepsLeft := by
  simp only [watchdogRun] at h
  split at h <;> rename_i hw <;> cases h <;> rw [hw]
  case h_1 => simp [hr,WatchdogAt.stepsLeft]
  case h_3 =>
    dsimp only
    split
    · simp [WatchdogAt.stepsLeft]
    · simp only [WatchdogAt.stepsLeft,List.length_cons]
      omega
  case h_4 i rest =>
    dsimp only
    split
    · simp [WatchdogAt.stepsLeft]
    · exact lt_of_le_of_lt stepsLeft_compareWait (by simp [WatchdogAt.stepsLeft])
  case h_6 => exact lt_of_le_of_lt stepsLeft_compareWait (by simp [WatchdogAt.stepsLeft])
  all_goals simp [WatchdogAt.stepsLeft]

theorem watchdogRun_next {ι S : Type} [DecidableEq ι] (starveThresholdMs : Int)
    (registry : List ι) (t : TimePoint) {s : Watched ι S} (hs : s.watchdog ≠ .stopped) :
    ∃ s', watchdogRun starveThresholdMs registry t s = some s' := by
  refine Option.isSome_iff_exists.mp ?_
  simp only [watchdogRun]
  split
  case h_10 hw => exact absurd hw hs
  all_goals rfl

theorem watchdog_running {ι S : Type} [DecidableEq ι] {starveThresholdMs : Int}
    {registry : List ι} {t : TimePoint} {s s' : Watched ι S}
    (h : watchdogRun starveThresholdMs registry t s = some s') : s'.running = s.running := by
  cases watchdog_cases h <;> rfl

theorem supervised_step {l : Label (Fin n) (Fin n × TimePoint) (Around (Fin n))}
    (hn : (simulated L starveThresholdMs none).next c l = some c') (hc : Supervised c) :
    Supervised c' := by
  rcases l with ⟨i,k⟩ | e
  · obtain ⟨s',t',ha,rfl⟩ := Machine.next_thread.mp hn
    obtain ⟨-,hw,hs⟩ := simulated_act ha
    have hr : s'.watched.running = c.shared.watched.running := by
      generalize s'.watched = w at hw
      cases hw <;> rfl
    refine ⟨?_,fun j hj => ?_⟩
    · have hm := hc.main
      rw [hs]
      simp only [hr]
      exact hm
    · rw [hs]
      by_cases hji : j = i
      · subst hji
        simp only [Function.update_self] at hj ⊢
        exact terminated_iff.mpr hj
      · simp only [Function.update_of_ne hji] at hj ⊢
        exact hc.terminated j hj
  · obtain ⟨s',he,rfl⟩ := Machine.next_env.mp hn
    rcases e with _ | τ | d
    · refine ⟨?_,fun j hj => ?_⟩
      · have hm := hc.main
        cases main_cases he with
        | createFails _ _ hf => cases hf
        | create h hp => exact ⟨rfl,h⟩
        | allCreated hp hle => simp only [hp] at hm ⊢; omega
        | join _ hp => simp only [hp] at hm ⊢; exact hm
        | allJoined hp => simp only [hp] at hm; exact ⟨hm,rfl⟩
        | watchdogStop hp => simp only [hp] at hm; exact ⟨hm.1,hm.2,rfl⟩
        | watchdogJoin hp => simp only [hp] at hm ⊢; exact hm
      · rw [runSimulation_terminated he]
        exact hc.terminated j hj
    · obtain ⟨x,hx,rfl⟩ := Option.map_eq_some_iff.mp he
      refine ⟨?_,hc.terminated⟩
      have hm := hc.main
      simp only [watchdog_running hx]
      exact hm
    · obtain ⟨x,hx,rfl⟩ := Option.map_eq_some_iff.mp he
      obtain ⟨y,-,rfl⟩ := Option.map_eq_some_iff.mp hx
      exact ⟨hc.main,hc.terminated⟩

/-- A run without disturbances. -/
def Undisturbed (h : List (Event (Fin n) (Fin n × TimePoint) (Around (Fin n))
    (Simulated (Fin n) S) (Watchee R W))) : Prop :=
  EnvWithin (fun e => ∀ d, e ≠ .disturbance d) h

variable (L starveThresholdMs)

/-- The simulation can still end by itself, without a failure. -/
def Ends (c : Config (Fin n) (Simulated (Fin n) S) (Watchee R W)) : Prop :=
  ∃ h c', Run (simulated L starveThresholdMs none) c h c' ∧ Undisturbed h ∧
    c'.shared.main = .ended false

variable {L starveThresholdMs}

theorem Ends.of_run {h c'} (hr : Run (simulated L starveThresholdMs none) c h c')
    (hu : Undisturbed h) (he : Ends L starveThresholdMs c') : Ends L starveThresholdMs c := by
  obtain ⟨h',c'',hr',hu',hm⟩ := he
  exact ⟨_,c'',hr.append hr',hu.append hu',hm⟩

variable (L starveThresholdMs)

theorem main_step {s' : Simulated (Fin n) S} (h : runSimulation none c.shared = some s') :
    ∃ h', Run (simulated L starveThresholdMs none) c h' ⟨s',c.locals⟩ ∧ Undisturbed h' := by
  refine ⟨_,.step .start (l := .env .main) (Machine.next_env.mpr ⟨s',?_,rfl⟩),?_⟩
  · exact h
  · rintro e he d hd
    rw [List.mem_singleton.mp he] at hd
    cases hd
    exact fun _ hd => by cases hd

theorem watchdog_step {t : TimePoint} {w : Watched (Fin n) S}
    (h : watchdogRun starveThresholdMs (List.finRange n) t c.shared.watched = some w) :
    ∃ h', Run (simulated L starveThresholdMs none) c h' ⟨{ c.shared with watched := w },c.locals⟩ ∧
      Undisturbed h' := by
  refine ⟨_,.step .start (l := .env (.watchdog t)) (Machine.next_env.mpr ⟨_,?_,rfl⟩),?_⟩
  · simp only [simulated,h]
    rfl
  · rintro e he d hd
    rw [List.mem_singleton.mp he] at hd
    cases hd
    exact fun _ hd => by cases hd

/-- The main thread creates the workers that are still missing. -/
theorem creates {k : ℕ} (hk : k ≤ n) (hm : c.shared.main = .create k) (hc : c.shared.created = k) :
    ∃ h c', Run (simulated L starveThresholdMs none) c h c' ∧ Undisturbed h ∧
      c'.shared.main = .join 0 ∧ c'.shared.created = n := by
  obtain ⟨d,hd⟩ := Nat.exists_eq_add_of_le hk
  induction d generalizing k c with
  | zero =>
    have hs : runSimulation none c.shared = some { c.shared with main := .join 0 } := by
      simp only [runSimulation,hm]
      rw [dif_neg (by omega)]
    obtain ⟨h,hr,hu⟩ := main_step L starveThresholdMs hs
    exact ⟨h,_,hr,hu,rfl,by simp only; omega⟩
  | succ d ih =>
    have hs : runSimulation none c.shared =
        some { c.shared with created := k+1, main := .create (k+1) } := by
      simp only [runSimulation,hm]
      rw [dif_pos (by omega),if_neg (by simp)]
    obtain ⟨h,hr,hu⟩ := main_step L starveThresholdMs hs
    obtain ⟨h',c',hr',hu',hm',hc'⟩ := ih (k := k+1)
      (c := ⟨{ c.shared with created := k+1, main := .create (k+1) },c.locals⟩)
      (by omega) rfl rfl (by omega)
    exact ⟨_,c',hr.append hr',hu.append hu',hm',hc'⟩

/-- Once it has been told to stop the watchdog finishes its poll and stops. -/
theorem watchdog_stops (hr : c.shared.watched.running = false) :
    ∃ h c', Run (simulated L starveThresholdMs none) c h c' ∧ Undisturbed h ∧
      c'.shared.main = c.shared.main ∧ c'.shared.watched.watchdog = .stopped := by
  generalize hd : c.shared.watched.watchdog.stepsLeft = d
  induction d using Nat.strong_induction_on generalizing c with
  | _ d ih =>
    by_cases hs : c.shared.watched.watchdog = .stopped
    · exact ⟨[],c,.start,(fun _ he => by cases he),rfl,hs⟩
    obtain ⟨w,hw⟩ := watchdogRun_next starveThresholdMs (List.finRange n) 0 hs
    obtain ⟨h,hrun,hu⟩ := watchdog_step L starveThresholdMs hw
    obtain ⟨h',c',hrun',hu',hm,hs'⟩ := ih _ (hd ▸ stepsLeft_lt hr hw)
      (c := ⟨{ c.shared with watched := w },c.locals⟩) ((watchdog_running hw).trans hr) rfl
    exact ⟨_,c',hrun.append hrun',hu.append hu',hm,hs'⟩

/-! What is left for the main thread when all workers have terminated, from the back. -/

theorem ends_of_watchdogJoin (hm : c.shared.main = .watchdogJoin false)
    (hr : c.shared.watched.running = false) : Ends L starveThresholdMs c := by
  obtain ⟨h,c',hrun,hu,hm',hs⟩ := watchdog_stops L starveThresholdMs hr
  have hx : runSimulation none c'.shared = some { c'.shared with main := .ended false } := by
    simp only [runSimulation,hm',hm]
    rw [if_pos hs]
  obtain ⟨h',hrun',hu'⟩ := main_step L starveThresholdMs hx
  exact ⟨_,_,hrun.append hrun',hu.append hu',rfl⟩

theorem ends_of_watchdogStop (hm : c.shared.main = .watchdogStop false) :
    Ends L starveThresholdMs c := by
  have hx : runSimulation none c.shared = some { c.shared with
      watched := { c.shared.watched with running := false }
      main := .watchdogJoin false } := by
    simp only [runSimulation,hm]
  obtain ⟨h,hrun,hu⟩ := main_step L starveThresholdMs hx
  exact .of_run hrun hu (ends_of_watchdogJoin L starveThresholdMs rfl rfl)

theorem ends_of_join {k : ℕ} (hm : c.shared.main = .join k)
    (ht : ∀ i, c.shared.terminated i = true) : Ends L starveThresholdMs c := by
  generalize hd : n-k = d
  induction d generalizing k c with
  | zero =>
    have hs : runSimulation none c.shared = some { c.shared with main := .watchdogStop false } := by
      simp only [runSimulation,hm]
      rw [dif_neg (by omega)]
    obtain ⟨h,hr,hu⟩ := main_step L starveThresholdMs hs
    exact .of_run hr hu (ends_of_watchdogStop L starveThresholdMs rfl)
  | succ d ih =>
    have hs : runSimulation none c.shared = some { c.shared with main := .join (k+1) } := by
      simp only [runSimulation,hm]
      rw [dif_pos (by omega),if_pos (ht _)]
    obtain ⟨h,hr,hu⟩ := main_step L starveThresholdMs hs
    exact .of_run hr hu (ih (c := ⟨{ c.shared with main := .join (k+1) },_⟩) rfl ht (by omega))

theorem ends_of_done (hc : Supervised c) (hd : ∀ i, (c.locals i).worker.Done)
    (hm : ∀ k, c.shared.main ≠ .create k) : Ends L starveThresholdMs c := by
  have hmain := hc.main
  cases hp : c.shared.main with
  | create k => exact absurd hp (hm k)
  | join k => exact ends_of_join L starveThresholdMs hp fun i => hc.terminated i (hd i)
  | watchdogStop threw =>
    simp only [hp] at hmain
    exact ends_of_watchdogStop L starveThresholdMs (hmain.2 ▸ hp)
  | watchdogJoin threw =>
    simp only [hp] at hmain
    exact ends_of_watchdogJoin L starveThresholdMs (hmain.2.1 ▸ hp) hmain.2.2
  | ended threw =>
    simp only [hp] at hmain
    exact ⟨[],c,.start,(fun _ he => by cases he),hmain.2.1 ▸ hp⟩

variable (fails)

/-- The simulation has created its workers, which are as in `c₁`, and the main thread is at `a`. -/
structure Lifted (a : MainAt) (c₁ : Config (Fin n) (SimState S) (Worker R W))
    (c : Config (Fin n) (Simulated (Fin n) S) (Watchee R W)) : Prop where
  view : (workersView L starveThresholdMs fails).view c = c₁
  created : c.shared.created = n
  main : c.shared.main = a

theorem lifted_matching (a : MainAt) : Matching (workers L) (simulated L starveThresholdMs fails)
    (fun _ => False) (fun _ => False) (Lifted L starveThresholdMs fails a) where
  thread := by
    rintro _ c' i k s t ⟨rfl,hn,hm⟩ ha
    obtain ⟨x,hs,rfl⟩ := watched_solo starveThresholdMs (List.finRange n) (t := c'.locals i)
      (s := c'.shared.watched) ha
    obtain ⟨s',hs',rfl,hm',hn'⟩ := simulated_solo (by rw [hn]; exact i.isLt) hs
    refine ⟨s',_,hs',?_,hn'.trans hn,hm'.trans hm⟩
    simp only [workersView,Simulation.ofThreads,Function.comp_update]
  env := fun _ hf => hf.elim

/-- What workers can do by themselves they can do in a simulation that has created them. -/
theorem workers_lift (hc : c.shared.created = n) {h c₁}
    (hr : Run (workers L) ((workersView L starveThresholdMs fails).view c) h c₁)
    (hl : ∀ e ∈ h, ∃ j k, e.2 = .thread j k) : ∃ h' c',
    Run (simulated L starveThresholdMs fails) c h' c' ∧ Undisturbed h' ∧
      Lifted L starveThresholdMs fails c.shared.main c₁ c' := by
  obtain ⟨h',c',hr',hok,hL⟩ := (lifted_matching L starveThresholdMs fails c.shared.main).run
    ⟨rfl,hc,rfl⟩ hr (EnvWithin.of_thread hl)
  exact ⟨h',c',hr',(fun e he d hd => (hok e he d hd).elim),hL⟩

variable {L starveThresholdMs fails}

/-- Workers that are all stuck stay as they are until something disturbs them. -/
theorem stuck_stays
    (hn : ∀ i, ¬ (workers L).Enabled ((workersView L starveThresholdMs fails).view c) i) {h c'}
    (hr : Run (simulated L starveThresholdMs fails) c h c') (hu : Undisturbed h) :
    (workersView L starveThresholdMs fails).view c' =
      (workersView L starveThresholdMs fails).view c := by
  induction hr with
  | start => rfl
  | @step h c₁ c₂ l _ hx ih =>
    obtain ⟨hl,hu⟩ := List.forall_mem_cons.mp hu
    replace ih := ih hu
    cases hv : (workersView L starveThresholdMs fails).label (c₁,l) with
    | none => exact ((workersView L starveThresholdMs fails).silent hx hv).trans ih
    | some l' =>
      have hx' := (workersView L starveThresholdMs fails).visible hx hv
      rw [ih] at hx'
      rcases l with ⟨i,k⟩ | e
      · obtain ⟨k',-,rfl⟩ := Option.map_eq_some_iff.mp hv
        obtain ⟨s,t,ha,-⟩ := Machine.next_thread.mp hx'
        exact absurd ⟨k',by rw [ha]; rfl⟩ (hn i)
      · cases e with
        | main | watchdog => cases hv
        | disturbance d => exact absurd rfl (hl _ rfl d)

end

section
variable {algo : AlgoType} {cfg : Workload} {process : Process} {starveThresholdMs : Int}

/-- The main thread can see to it that all workers exist. -/
theorem Supervised.all_created {S R W : Type} (L : RWLockBase cfg.Tid S R W)
    (starveThresholdMs : Int) {c : Config cfg.Tid (Simulated cfg.Tid S) (Watchee R W)}
    (hc : Supervised c) : ∃ h c', Run (simulated L starveThresholdMs none) c h c' ∧
    Undisturbed h ∧ c'.shared.created = cfg.numReaders+cfg.numWriters ∧
      ∀ k, c'.shared.main ≠ .create k := by
  have hmain := hc.main
  cases hp : c.shared.main with
  | create k =>
    simp only [hp] at hmain
    obtain ⟨h,c',hr,hu,hm,hn⟩ := creates L starveThresholdMs hmain.2 hp hmain.1
    exact ⟨h,c',hr,hu,hn,fun k hk => by cases hm.symm.trans hk⟩
  | join k =>
    simp only [hp] at hmain
    exact ⟨[],c,.start,(fun _ he => by cases he),hmain,fun k hk => by cases hp.symm.trans hk⟩
  | watchdogStop threw | watchdogJoin threw | ended threw =>
    simp only [hp] at hmain
    exact ⟨[],c,.start,(fun _ he => by cases he),hmain.1,fun k hk => by cases hp.symm.trans hk⟩

theorem supervised_run {S R W : Type} {L : RWLockBase cfg.Tid S R W} {h c}
    (hr : Run (simulated L starveThresholdMs none) (cfg.simulatedStart L process) h c) :
    Supervised c := by
  refine hr.always ⟨⟨rfl,Nat.zero_le _⟩,fun i hd => ?_⟩ fun _ _ _ hc hn => supervised_step hn hc
  simp only [Workload.simulatedStart,Workload.watchedStart,Workload.start] at hd
  split at hd <;> cases hd

/-- A missed wake-up leaves the main thread in `pthread_join`. -/
theorem not_ends_of_hang (process : Process) (starveThresholdMs : Int)
    (ha : cfg.enableAbortTest = false) (hr : 1 ≤ cfg.numReaders) (hw : 2 ≤ cfg.numWriters)
    (hT : 3 ≤ cfg.totalOps) : ¬ ∀ h c,
    Run (simulated (FairMorrisLock.lock cfg.Tid) starveThresholdMs none)
      (cfg.simulatedStart (FairMorrisLock.lock cfg.Tid) process) h c →
    Ends (FairMorrisLock.lock cfg.Tid) starveThresholdMs c := by
  intro hends
  obtain ⟨h₁,hr₁⟩ : ∃ h, Run (simulated (FairMorrisLock.lock cfg.Tid) starveThresholdMs none)
      (cfg.simulatedStart (FairMorrisLock.lock cfg.Tid) process) h _ :=
    created_run le_rfl fun _ hk => by cases hk
  obtain ⟨h₂,c₂,hr₂,hl₂,⟨i,hi⟩,hstuck⟩ := hang_run process ha hr hw hT
  obtain ⟨h₃,c₃,hr₃,-,hL⟩ := workers_lift (FairMorrisLock.lock cfg.Tid) starveThresholdMs none
    (c := { cfg.simulatedStart _ process with
      shared := { (cfg.simulatedStart _ process).shared with
        main := .create (cfg.numReaders+cfg.numWriters)
        created := cfg.numReaders+cfg.numWriters } }) rfl hr₂ hl₂
  obtain ⟨h₄,c₄,hr₄,hu₄,hm₄⟩ := hends _ c₃ (hr₁.append hr₃)
  -- the main thread has joined everybody, and somebody is still asleep
  have hj := joins_run (fun _ hk => by cases hk) ((hr₁.append hr₃).append hr₄)
  have hmain := hj.main
  simp only [Simulated.Joining,hm₄,Bool.false_eq_true,if_false] at hmain
  have hd := hj.terminated i (hmain i)
  have hv := (stuck_stays (hL.view ▸ hstuck) hr₄ hu₄).trans hL.view
  exact hi (hv ▸ hd)

/-- `runSimulation` without the abort test can always still return, whatever the threads, the
watchdog and spurious wake-ups have done so far, except in the cases in which the fair lock
hangs. -/
theorem simulation_ends_iff (ha : cfg.enableAbortTest = false) (hT : 0 ≤ cfg.totalOps) :
    (∀ h c, Run (simulated (algo.lock cfg.Tid) starveThresholdMs none)
        (cfg.simulatedStart (algo.lock cfg.Tid) process) h c →
      Ends (algo.lock cfg.Tid) starveThresholdMs c) ↔
    ¬ (algo = .FAIR_MORRIS ∧ 1 ≤ cfg.numReaders ∧ 2 ≤ cfg.numWriters ∧ 3 ≤ cfg.totalOps) := by
  constructor
  · rintro hends ⟨rfl,hr,hw,hT₃⟩
    exact not_ends_of_hang process starveThresholdMs ha hr hw hT₃ hends
  · intro hno h c hr
    -- the workers are created, run to their ends, and the rest follows
    have hS := supervised_run hr
    obtain ⟨h₁,c₁,hr₁,hu₁,hn₁,hm₁⟩ := hS.all_created (algo.lock cfg.Tid) starveThresholdMs
    have hview := (workersView (algo.lock cfg.Tid) starveThresholdMs none).run (hr.append hr₁)
    obtain ⟨h₂,c₂,hr₂,hl₂,hd⟩ := runs_to_done hT (by
      intro hf hr' hw'
      by_contra hT₃
      exact hno ⟨hf,hr',hw',by omega⟩) hview
    obtain ⟨h₃,c₃,hr₃,hu₃,rfl,-,hm₃⟩ := workers_lift _ starveThresholdMs none hn₁ hr₂ hl₂
    exact .of_run (hr₁.append hr₃) (hu₁.append hu₃) (ends_of_done _ starveThresholdMs
      (supervised_run ((hr.append hr₁).append hr₃)) hd fun k => hm₃ ▸ hm₁ k)

/-- The default numbers of threads and operations: the writers' lock lets the simulation end,
the fair one can keep it from ending. -/
theorem simulation_ends_iff_witness :
    (∀ h c, Run (simulated (AlgoType.WRITER_PRIORITY.lock (Workload.Tid {})) 500 none)
        (Workload.simulatedStart {} (AlgoType.WRITER_PRIORITY.lock (Workload.Tid {})) {}) h c →
      Ends (AlgoType.WRITER_PRIORITY.lock (Workload.Tid {})) 500 c) ∧
    ¬ ∀ h c, Run (simulated (AlgoType.FAIR_MORRIS.lock (Workload.Tid {})) 500 none)
        (Workload.simulatedStart {} (AlgoType.FAIR_MORRIS.lock (Workload.Tid {})) {}) h c →
      Ends (AlgoType.FAIR_MORRIS.lock (Workload.Tid {})) 500 c :=
  ⟨(simulation_ends_iff rfl (by decide)).mpr (fun hf => by cases hf.1),fun hends =>
    (simulation_ends_iff rfl (by decide)).mp hends ⟨rfl,by decide,by decide,by decide⟩⟩

end

end ReadersWriters
