import ReadersWriters.Interleaving.Machine
import Mathlib.Algebra.GroupWithZero.Nat
import Mathlib.Algebra.Group.Pi.Basic
import Mathlib.Data.List.Nodup
import Mathlib.Data.List.Perm.Subperm
set_option autoImplicit false

namespace Interleaving

/-- What the next step of a thread does to a semaphore. -/
inductive SemOp (X : Type) where
  | wait (x : X) | post (x : X)
  deriving DecidableEq, Repr

/-- The semaphores `X` of a machine. A step waits for one of them, posts one of them or
leaves them alone, and more units than it needs do not change what it does. -/
structure Semaphores {ι κ ε σ τ : Type} (m : Machine ι κ ε σ τ) (X : Type) [DecidableEq X] where
  units : σ → X → ℕ
  withUnits : σ → (X → ℕ) → σ
  op : τ → Option (SemOp X)
  units_withUnits : ∀ s f, units (withUnits s f) = f
  withUnits_units : ∀ s, withUnits s (units s) = s
  withUnits_withUnits : ∀ s f g, withUnits (withUnits s f) g = withUnits s g
  other : ∀ {i k s t s' t'}, m.act i k s t = some (s',t') → op t = none → units s' = units s
  wait : ∀ {i k s t s' t' x}, m.act i k s t = some (s',t') → op t = some (.wait x) →
    units s = units s'+Pi.single x 1
  post : ∀ {i k s t s' t' x}, m.act i k s t = some (s',t') → op t = some (.post x) →
    units s' = units s+Pi.single x 1
  more : ∀ {i k s t s' t'}, m.act i k s t = some (s',t') → ∀ f,
    m.act i k (withUnits s (units s+f)) t = some (withUnits s' (units s'+f),t')

/-- A store with the threads that are blocked on each semaphore and those that have been
handed a unit and have yet to go on. -/
structure Queues (ι X σ : Type) where
  store : σ
  waiters : X → List ι := fun _ => []
  handed : X → List ι := fun _ => []

def Queues.owed {ι X σ : Type} (s : Queues ι X σ) : X → ℕ := fun x => (s.handed x).length

section
variable {ι κ ε σ τ X : Type} [DecidableEq X] {m : Machine ι κ ε σ τ} {U : Semaphores m X}
  {c : Config ι (Queues ι X σ) τ} {i : ι}

/-- Threads are queued where they wait, each of them once, and only while there is no unit. -/
structure Queued (U : Semaphores m X) (c : Config ι (Queues ι X σ) τ) : Prop where
  op : ∀ x i, i ∈ c.shared.waiters x ++ c.shared.handed x → U.op (c.locals i) = some (.wait x)
  nodup : ∀ x, (c.shared.waiters x ++ c.shared.handed x).Nodup
  empty : ∀ x, c.shared.waiters x ≠ [] → U.units c.shared.store x = 0

theorem Queued.not_mem (hc : Queued U c) {x : X} (ho : U.op (c.locals i) ≠ some (.wait x)) :
    i ∉ c.shared.waiters x ++ c.shared.handed x := fun hi => ho (hc.op x i hi)

end

section
variable {ι κ ε σ τ X : Type} [DecidableEq ι] [DecidableEq X] {m : Machine ι κ ε σ τ}

/-- The machine with semaphores that hand a posted unit to a blocked thread of the system's
choice, the second component of a label, if there is any. A thread that finds no unit
blocks; one that has been handed a unit goes on with it. -/
def handOff (U : Semaphores m X) : Machine ι (κ × ι) Empty (Queues ι X σ) τ where
  act i k s t :=
    match U.op t with
    | none => (m.act i k.1 s.store t).map fun r => ({ s with store := r.1 },r.2)
    | some (.wait x) =>
        if i ∈ s.handed x then
          (m.act i k.1 (U.withUnits s.store (U.units s.store+Pi.single x 1)) t).map fun r =>
            ({ s with
              store := r.1
              handed := Function.update s.handed x ((s.handed x).erase i) },r.2)
        else if i ∈ s.waiters x then none
        else if U.units s.store x = 0 then
          some ({ s with waiters := Function.update s.waiters x (s.waiters x ++ [i]) },t)
        else (m.act i k.1 s.store t).map fun r => ({ s with store := r.1 },r.2)
    | some (.post x) =>
        if s.waiters x = [] then
          (m.act i k.1 s.store t).map fun r => ({ s with store := r.1 },r.2)
        else if k.2 ∈ s.waiters x then
          (m.act i k.1 s.store t).map fun r =>
            ({ store := U.withUnits r.1 (U.units r.1-Pi.single x 1)
               waiters := Function.update s.waiters x ((s.waiters x).erase k.2)
               handed := Function.update s.handed x (s.handed x ++ [k.2]) },r.2)
        else none
  env e := nomatch e

/-- One case for each branch of `handOff`. -/
inductive HandOffCase (U : Semaphores m X) (i : ι) (k : κ × ι) (s : Queues ι X σ) (t : τ) :
    Queues ι X σ → τ → Prop where
  | other {s₁ : σ} {t' : τ} : U.op t = none → m.act i k.1 s.store t = some (s₁,t') →
      HandOffCase U i k s t { s with store := s₁ } t'
  | take {x : X} {s₁ : σ} {t' : τ} : U.op t = some (.wait x) → i ∉ s.handed x →
      i ∉ s.waiters x → U.units s.store x ≠ 0 → m.act i k.1 s.store t = some (s₁,t') →
      HandOffCase U i k s t { s with store := s₁ } t'
  | resume {x : X} {s₁ : σ} {t' : τ} : U.op t = some (.wait x) → i ∈ s.handed x →
      m.act i k.1 (U.withUnits s.store (U.units s.store+Pi.single x 1)) t = some (s₁,t') →
      HandOffCase U i k s t { s with
        store := s₁
        handed := Function.update s.handed x ((s.handed x).erase i) } t'
  | block {x : X} : U.op t = some (.wait x) → i ∉ s.handed x → i ∉ s.waiters x →
      U.units s.store x = 0 →
      HandOffCase U i k s t
        { s with waiters := Function.update s.waiters x (s.waiters x ++ [i]) } t
  | post {x : X} {s₁ : σ} {t' : τ} : U.op t = some (.post x) → s.waiters x = [] →
      m.act i k.1 s.store t = some (s₁,t') → HandOffCase U i k s t { s with store := s₁ } t'
  | hand {x : X} {s₁ : σ} {t' : τ} : U.op t = some (.post x) → k.2 ∈ s.waiters x →
      m.act i k.1 s.store t = some (s₁,t') →
      HandOffCase U i k s t
        { store := U.withUnits s₁ (U.units s₁-Pi.single x 1)
          waiters := Function.update s.waiters x ((s.waiters x).erase k.2)
          handed := Function.update s.handed x (s.handed x ++ [k.2]) } t'

variable {U : Semaphores m X} {i : ι} {k : κ × ι} {s s' : Queues ι X σ} {t t' : τ}

/-- The store in which a unit that has been handed over is still there to be taken. -/
def Queues.barging (U : Semaphores m X) (s : Queues ι X σ) : σ :=
  U.withUnits s.store (U.units s.store+s.owed)

theorem handOff_cases (h : (handOff U).act i k s t = some (s',t')) :
    HandOffCase U i k s t s' t' := by
  simp only [handOff] at h
  split at h <;> rename_i ho
  · obtain ⟨⟨s₁,t₁⟩,ha,he⟩ := Option.map_eq_some_iff.mp h
    cases he
    exact .other ho ha
  · split at h <;> rename_i hh
    · obtain ⟨⟨s₁,t₁⟩,ha,he⟩ := Option.map_eq_some_iff.mp h
      cases he
      exact .resume ho hh ha
    · obtain ⟨hw,h⟩ := Option.ite_none_left_eq_some.mp h
      split at h <;> rename_i hu
      · cases h
        exact .block ho hh hw hu
      · obtain ⟨⟨s₁,t₁⟩,ha,he⟩ := Option.map_eq_some_iff.mp h
        cases he
        exact .take ho hh hw hu ha
  · split at h <;> rename_i hw
    · obtain ⟨⟨s₁,t₁⟩,ha,he⟩ := Option.map_eq_some_iff.mp h
      cases he
      exact .post ho hw ha
    · obtain ⟨hk,h⟩ := Option.ite_none_right_eq_some.mp h
      obtain ⟨⟨s₁,t₁⟩,ha,he⟩ := Option.map_eq_some_iff.mp h
      cases he
      exact .hand ho hk ha

/-- A thread that waits may stay where it is; else it takes a step of the machine. -/
theorem handOff_locals (h : (handOff U).act i k s t = some (s',t')) :
    (t' = t ∧ ∃ x, U.op t = some (.wait x)) ∨ ∃ s₀ s₁, m.act i k.1 s₀ t = some (s₁,t') := by
  cases handOff_cases h with
  | block ho => exact .inl ⟨rfl,_,ho⟩
  | other _ ha | take _ _ _ _ ha | resume _ _ ha | post _ _ ha | hand _ _ ha =>
    exact .inr ⟨_,_,ha⟩

/-- Every step but the blocking ones is a step of the machine whose semaphores can be taken
by whoever comes first. -/
theorem barging_step (h : (handOff U).act i k s t = some (s',t')) :
    (s'.barging U = s.barging U ∧ t' = t) ∨
      m.act i k.1 (s.barging U) t = some (s'.barging U,t') := by
  cases handOff_cases h with
  | other _ ha => exact .inr (U.more ha s.owed)
  | take _ _ _ _ ha => exact .inr (U.more ha s.owed)
  | post _ _ ha => exact .inr (U.more ha s.owed)
  | block => exact .inl ⟨rfl,rfl⟩
  | @resume x s₁ _ ho hi ha =>
    right
    have howed : Pi.single x 1+
        Queues.owed { s with handed := Function.update s.handed x ((s.handed x).erase i) } =
          s.owed := by
      funext y
      by_cases hy : y = x
      · subst hy
        have hpos := List.length_pos_of_mem hi
        simp only [Queues.owed,Pi.add_apply,Pi.single_eq_same,Function.update_self,
          List.length_erase_of_mem hi]
        omega
      · simp only [Queues.owed,Pi.add_apply,Pi.single_eq_of_ne hy,Function.update_of_ne hy,zero_add]
    have hm := U.more ha
      (Queues.owed { s with handed := Function.update s.handed x ((s.handed x).erase i) })
    rw [U.units_withUnits,U.withUnits_withUnits,add_assoc,howed] at hm
    exact hm
  | @hand x s₁ _ ho hk ha =>
    right
    have hp := U.post ha ho
    have howed : U.units s₁-Pi.single x 1+
        Queues.owed { s with handed := Function.update s.handed x (s.handed x ++ [k.2]) } =
          U.units s₁+s.owed := by
      funext y
      rw [hp]
      by_cases hy : y = x
      · subst hy
        simp only [Queues.owed,Pi.add_apply,Pi.sub_apply,Pi.single_eq_same,Function.update_self,
          List.length_append,List.length_singleton]
        omega
      · simp only [Queues.owed,Pi.add_apply,Pi.sub_apply,Pi.single_eq_of_ne hy,
          Function.update_of_ne hy]
        omega
    rw [show m.act i k.1 (s.barging U) t = _ from U.more ha s.owed]
    simp only [Queues.barging,U.withUnits_withUnits,U.units_withUnits]
    exact congrArg (fun f => some (U.withUnits s₁ f,t')) howed.symm

/-- A configuration as the machine with barging semaphores sees it. -/
def bargingView (U : Semaphores m X) (c : Config ι (Queues ι X σ) τ) : Config ι σ τ :=
  ⟨c.shared.barging U,c.locals⟩

/-- A run with semaphores that hand their units over is a run with barging ones. -/
theorem barging_run {c₀ c : Config ι (Queues ι X σ) τ}
    {h : List (Event ι (κ × ι) Empty (Queues ι X σ) τ)} (hr : Run (handOff U) c₀ h c) :
    ∃ h', Run m (bargingView U c₀) h' (bargingView U c) := by
  induction hr with
  | start => exact ⟨[],.start⟩
  | @step h c c' l _ hn ih =>
    obtain ⟨h',hr'⟩ := ih
    rcases l with ⟨i,k⟩ | e
    · obtain ⟨s',t',ha,rfl⟩ := Machine.next_thread.mp hn
      rcases barging_step ha with ⟨hs,rfl⟩ | hv
      · exact ⟨h',by simpa only [bargingView,hs,Function.update_eq_self] using hr'⟩
      · exact ⟨_,hr'.step (l := .thread i k.1) (Machine.next_thread.mpr ⟨_,_,hv,rfl⟩)⟩
    · exact e.elim

variable {c c' : Config ι (Queues ι X σ) τ}

/-- A step of thread `i` that leaves it in no queue and the others in theirs. -/
theorem Queued.of_others (hc : Queued U c)
    (hi : ∀ x, i ∉ s'.waiters x ++ s'.handed x)
    (hsub : ∀ x, (s'.waiters x ++ s'.handed x).Subperm (c.shared.waiters x ++ c.shared.handed x))
    (hempty : ∀ x, s'.waiters x ≠ [] → U.units s'.store x = 0) :
    Queued U ⟨s',Function.update c.locals i t'⟩ where
  op x j hj := by
    have hji : j ≠ i := by
      rintro rfl
      exact hi x hj
    simpa only [Function.update_of_ne hji] using hc.op x j ((hsub x).subset hj)
  nodup x := by
    obtain ⟨l,hp,hs⟩ := hsub x
    exact hp.nodup_iff.mp (hs.nodup (hc.nodup x))
  empty := hempty

theorem queued_step (hc : Queued U c) (hn : (handOff U).next c (.thread i k) = some c') :
    Queued U c' := by
  obtain ⟨s',t',ha,rfl⟩ := Machine.next_thread.mp hn
  cases handOff_cases ha with
  | other ho ha =>
    have hu := U.other ha ho
    refine hc.of_others (fun x => hc.not_mem (by simp [ho])) (fun _ => .refl _) fun x hx => ?_
    simpa only [hu] using hc.empty x hx
  | @take x s₁ _ ho hh hw hpos ha =>
    have hu := U.wait ha ho
    refine hc.of_others (fun y => ?_) (fun _ => .refl _) fun y hy => ?_
    · by_cases hy : y = x
      · rw [hy,List.mem_append]
        exact fun h => h.elim hw hh
      · exact hc.not_mem (by simp [ho,Ne.symm hy])
    · have h0 := hc.empty y hy
      rw [hu,Pi.add_apply] at h0
      exact (Nat.add_eq_zero_iff.mp h0).1
  | @resume x s₁ _ ho hi ha =>
    have hu := U.wait ha ho
    rw [U.units_withUnits] at hu
    have hnd := List.nodup_append.mp (hc.nodup x)
    refine hc.of_others (fun y => ?_) (fun y => ?_) fun y hy => ?_
    · by_cases hy : y = x
      · subst hy
        simp only [Function.update_self,List.mem_append,not_or]
        exact ⟨fun hw => hnd.2.2 i hw i hi rfl,fun hh => (hnd.2.1.mem_erase_iff.mp hh).1 rfl⟩
      · simp only [Function.update_of_ne hy]
        exact hc.not_mem (by simp [ho,Ne.symm hy])
    · by_cases hy : y = x
      · subst hy
        simp only [Function.update_self]
        exact ((List.Sublist.refl _).append List.erase_sublist).subperm
      · simp only [Function.update_of_ne hy]
        exact .refl _
    · have h0 := hc.empty y hy
      have hy' := congrFun hu y
      simp only [Pi.add_apply] at hy'
      change U.units s₁ y = 0
      omega
  | @block x ho hh hw hu =>
    rw [Function.update_eq_self]
    refine ⟨fun y j hj => ?_,fun y => ?_,fun y hy => ?_⟩
    · by_cases hy : y = x
      · subst hy
        simp only [Function.update_self,List.mem_append,List.mem_singleton] at hj
        rcases hj with (hj | rfl) | hj
        · exact hc.op y j (List.mem_append_left _ hj)
        · exact ho
        · exact hc.op y j (List.mem_append_right _ hj)
      · simp only [Function.update_of_ne hy] at hj
        exact hc.op y j hj
    · by_cases hy : y = x
      · subst hy
        simp only [Function.update_self,List.append_assoc,List.singleton_append]
        rw [List.nodup_middle,List.nodup_cons,List.mem_append]
        exact ⟨fun h => h.elim hw hh,hc.nodup y⟩
      · simpa only [Function.update_of_ne hy] using hc.nodup y
    · by_cases hyx : y = x
      · exact hyx ▸ hu
      · simp only [Function.update_of_ne hyx] at hy
        exact hc.empty y hy
  | @post x s₁ _ ho hw ha =>
    have hu := U.post ha ho
    refine hc.of_others (fun y => hc.not_mem (by simp [ho])) (fun _ => .refl _) fun y hy => ?_
    have hyx : y ≠ x := by
      rintro rfl
      exact hy hw
    change U.units s₁ y = 0
    rw [hu,Pi.add_apply,Pi.single_eq_of_ne hyx,Nat.add_zero]
    exact hc.empty y hy
  | @hand x s₁ _ ho hk ha =>
    have hu := U.post ha ho
    have hperm : ((c.shared.waiters x).erase k.2 ++ (c.shared.handed x ++ [k.2])).Perm
        (c.shared.waiters x ++ c.shared.handed x) := by
      refine (List.perm_append_comm.append_left _).trans ?_
      exact List.perm_middle.trans ((List.perm_cons_erase hk).symm.append_right _)
    have hsub : ∀ y, (Function.update c.shared.waiters x ((c.shared.waiters x).erase k.2) y ++
        Function.update c.shared.handed x (c.shared.handed x ++ [k.2]) y).Subperm
        (c.shared.waiters y ++ c.shared.handed y) := by
      intro y
      by_cases hy : y = x
      · subst hy
        simp only [Function.update_self]
        exact hperm.subperm
      · simp only [Function.update_of_ne hy]
        exact .refl _
    refine hc.of_others (fun y hi => ?_) hsub fun y hy => ?_
    · exact hc.not_mem (by simp [ho]) ((hsub y).subset hi)
    · have hwy : c.shared.waiters y ≠ [] := by
        by_cases hyx : y = x
        · rw [hyx]
          exact List.ne_nil_of_mem hk
        · simpa only [Function.update_of_ne hyx] using hy
      change U.units (U.withUnits s₁ (U.units s₁-Pi.single x 1)) y = 0
      rw [U.units_withUnits,hu,Pi.sub_apply,Pi.add_apply,Nat.add_sub_cancel]
      exact hc.empty y hwy

theorem queued_run {c₀ : Config ι (Queues ι X σ) τ}
    {h : List (Event ι (κ × ι) Empty (Queues ι X σ) τ)} (h₀ : Queued U c₀)
    (hr : Run (handOff U) c₀ h c) : Queued U c := by
  refine hr.always h₀ ?_
  rintro c (⟨i,k⟩ | e) c' hc hn
  · exact queued_step hc hn
  · exact e.elim

end

end Interleaving
