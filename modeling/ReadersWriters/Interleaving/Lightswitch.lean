import ReadersWriters.Interleaving.Census
set_option autoImplicit false

namespace Interleaving.Lightswitch

/-- A group of members shares a gate with opponents who pass it one at a time. The
first member in takes the gate and the last one out gives it back; who is first and
who is last is decided by a counter under a mutex. -/
structure Store where
  mutex : ℕ
  count : ℤ
  gate : ℕ

inductive Phase where
  | outside | entering | first | admitted | inside | leaving | last | left | opponent
  deriving DecidableEq, Repr

/-- What a thread outside does next. -/
inductive Move where
  | member | opponent

def act (k : Move) (s : Store) : Phase → Option (Store × Phase)
  | .outside => match k with
      | .member => if s.mutex = 0 then none else some ({ s with mutex := s.mutex-1 },.entering)
      | .opponent => if s.gate = 0 then none else some ({ s with gate := s.gate-1 },.opponent)
  | .entering =>
      some ({ s with count := s.count+1 },if s.count+1 = 1 then .first else .admitted)
  | .first => if s.gate = 0 then none else some ({ s with gate := s.gate-1 },.admitted)
  | .admitted => some ({ s with mutex := s.mutex+1 },.inside)
  | .inside => if s.mutex = 0 then none else some ({ s with mutex := s.mutex-1 },.leaving)
  | .leaving => some ({ s with count := s.count-1 },if s.count-1 = 0 then .last else .left)
  | .last => some ({ s with gate := s.gate+1 },.left)
  | .left => some ({ s with mutex := s.mutex+1 },.outside)
  | .opponent => some ({ s with gate := s.gate+1 },.outside)

def machine (ι : Type) : Machine ι Move Empty Store Phase where
  act _ := act
  env e := nomatch e

/-- While members are counted their group owns the gate, or the first member has yet to
take it; with none counted the group owns it only through the last member, who has yet
to give it back. -/
structure Inv (s : Store) (n : Phase → ℕ) : Prop where
  mutex : s.mutex + n .entering + n .first + n .admitted + n .leaving + n .last + n .left = 1
  count : s.count = n .first + n .admitted + n .inside + n .leaving
  owned : 0 < s.count → s.gate + n .opponent = n .first
  free : s.count = 0 → s.gate + n .opponent + n .last = 1
  first : n .first = 0 ∨ s.count = 1
  last : n .last = 0 ∨ s.count = 0

theorem inv_act {k : Move} {s s' : Store} {p p' : Phase} {r : Phase → ℕ}
    (h : act k s p = some (s',p')) (hI : Inv s (r+Pi.single p 1)) :
    Inv s' (r+Pi.single p' 1) := by
  obtain ⟨hm,hc,ho,hf,h1,hl⟩ := hI
  cases p
  case outside =>
    cases k <;> simp only [act,Option.ite_none_left_eq_some,Option.some.injEq,Prod.mk.injEq] at h
    all_goals
      obtain ⟨hpos,rfl,rfl⟩ := h
      simp at hm hc ho hf h1 hl
      constructor <;> simp <;> omega
  case first | inside =>
    simp only [act,Option.ite_none_left_eq_some,Option.some.injEq,Prod.mk.injEq] at h
    obtain ⟨hpos,rfl,rfl⟩ := h
    simp at hm hc ho hf h1 hl
    constructor <;> simp <;> omega
  case entering | leaving =>
    cases h
    simp at hm hc ho hf h1 hl
    split <;> constructor <;> simp <;> omega
  all_goals
    cases h
    simp at hm hc ho hf h1 hl
    constructor <;> simp <;> omega

/-- Only the last member opens a gate that the group has taken. -/
theorem gate_act {k : Move} {s s' : Store} {p p' : Phase} (h : act k s p = some (s',p'))
    (hg : s.gate = 0) (hp : p ≠ .opponent) (hl : p ≠ .last) : s'.gate = 0 ∧ p' ≠ .opponent := by
  cases p
  case outside =>
    cases k <;> simp only [act,Option.ite_none_left_eq_some,Option.some.injEq,Prod.mk.injEq] at h
    · obtain ⟨-,rfl,rfl⟩ := h
      exact ⟨hg,by decide⟩
    · exact absurd hg h.1
  case first => simp [act,hg] at h
  case inside =>
    simp only [act,Option.ite_none_left_eq_some,Option.some.injEq,Prod.mk.injEq] at h
    obtain ⟨-,rfl,rfl⟩ := h
    exact ⟨hg,by decide⟩
  case entering | leaving =>
    cases h
    refine ⟨hg,?_⟩
    split <;> decide
  case last => exact absurd rfl hl
  case opponent => exact absurd rfl hp
  all_goals
    cases h
    exact ⟨hg,by decide⟩

section
variable {ι : Type} [Fintype ι] {c : Config ι Store Phase}

theorem inv_run [DecidableEq ι] {h : List (Event ι Move Empty Store Phase)}
    (hr : Run (machine ι) ⟨⟨1,0,1⟩,fun _ => .outside⟩ h c) : Inv c.shared (census c.locals) := by
  refine hr.census_invariant ?_ (fun _ _ _ _ _ _ _ => inv_act) (fun e => nomatch e)
  have hz : ∀ p, p ≠ .outside → census (fun _ : ι => Phase.outside) p = 0 :=
    fun p hp => census_eq_zero.mpr fun _ => hp.symm
  constructor <;> simp [hz]

/-- The members that the counter counts. -/
def counted : List Phase := [.first,.admitted,.inside,.leaving]

theorem count_eq (hI : Inv c.shared (census c.locals)) :
    c.shared.count = headcount c.locals counted := by
  rw [headcount_eq (by decide),hI.count]
  simp [counted]
  omega

/-- At most one opponent has passed the gate. -/
theorem opponent_unique (hI : Inv c.shared (census c.locals)) {i j : ι}
    (hi : c.locals i = .opponent) (hj : c.locals j = .opponent) : i=j := by
  refine headcount_unique (l := c.locals) (L := [.opponent]) ?_ (by simp [hi]) (by simp [hj])
  obtain ⟨hm,hc,ho,hf,-,-⟩ := hI
  rw [headcount_eq (by decide)]
  simp only [among_cons,among_nil]
  by_cases h : c.shared.count = 0 <;> omega

/-- A first member at the gate has the mutex, and either an opponent has passed the gate or
it is open. -/
theorem first_unique (hI : Inv c.shared (census c.locals)) {i : ι} (hi : c.locals i = .first) :
    (∀ j, c.locals j = .first → j=i) ∧ c.shared.gate+census c.locals .opponent = 1 := by
  have hp : 0 < census c.locals .first := census_pos.mpr ⟨i,hi⟩
  obtain ⟨hm,hc,ho,-,h1,-⟩ := hI
  refine ⟨fun j hj => ?_,by omega⟩
  refine headcount_unique (l := c.locals) (L := [.first]) ?_ (by simp [hj]) (by simp [hi])
  rw [headcount_eq (by decide)]
  simp only [among_cons,among_nil]
  omega

/-- No opponent has passed the gate while a member is past it. -/
theorem opponent_excluded (hI : Inv c.shared (census c.locals)) {i j : ι}
    (hi : c.locals i = .opponent) (hj : c.locals j ∈ counted) : c.locals j = .first := by
  have hp : 0 < census c.locals .opponent := census_pos.mpr ⟨i,hi⟩
  have hq : 0 < census c.locals (c.locals j) := census_pos.mpr ⟨j,rfl⟩
  obtain ⟨hm,hc,ho,hf,h1,-⟩ := hI
  simp only [counted,List.mem_cons,List.not_mem_nil,or_false] at hj
  rcases hj with hj | hj | hj | hj
  · exact hj
  all_goals
    rw [hj] at hq
    omega

/-- While an opponent has passed the gate, at most the first member is counted. -/
theorem count_opponent (hI : Inv c.shared (census c.locals)) {i : ι}
    (hi : c.locals i = .opponent) :
    c.shared.count ≤ 1 ∧ (0 < c.shared.count ↔ ∃ j, c.locals j = .first) := by
  have hp : 0 < census c.locals .opponent := census_pos.mpr ⟨i,hi⟩
  rw [← census_pos]
  obtain ⟨hm,hc,ho,hf,h1,-⟩ := hI
  omega

/-- While the first member waits at the gate, no member is past it or about to give it
back; a closed gate has been passed by an opponent. -/
theorem first_alone (hI : Inv c.shared (census c.locals)) {i : ι} (hi : c.locals i = .first) :
    (∀ j, c.locals j ∉ [.admitted,.inside,.leaving,.last]) ∧
      (c.shared.gate = 0 → ∃ j, c.locals j = .opponent) := by
  have hp : 0 < census c.locals .first := census_pos.mpr ⟨i,hi⟩
  obtain ⟨hm,hc,ho,-,h1,-⟩ := hI
  refine ⟨fun j hj => ?_,fun hg => census_pos.mp (by omega)⟩
  have hq : 0 < census c.locals (c.locals j) := census_pos.mpr ⟨j,rfl⟩
  simp only [List.mem_cons,List.not_mem_nil,or_false] at hj
  rcases hj with hj | hj | hj | hj <;> rw [hj] at hq <;> omega

/-- A member that has just taken the gate has closed it to all opponents. -/
theorem gate_closed (hI : Inv c.shared (census c.locals)) {i : ι} (hi : c.locals i = .admitted) :
    c.shared.gate = 0 ∧ ∀ j, c.locals j ≠ .opponent := by
  have hp : 0 < census c.locals .admitted := census_pos.mpr ⟨i,hi⟩
  obtain ⟨hm,hc,ho,-,-,-⟩ := hI
  exact ⟨by omega,census_eq_zero.mp (by omega)⟩

/-- Who has the mutex. -/
def inMutex : List Phase := [.entering,.first,.admitted,.leaving,.last,.left]

/-- A mutex that is not free has been taken by a thread. -/
theorem mutex_held (hI : Inv c.shared (census c.locals)) (h : c.shared.mutex = 0) :
    ∃ i, c.locals i ∈ inMutex := by
  have hm := hI.mutex
  by_contra hn
  simp only [not_exists] at hn
  have hz := headcount_eq_zero.mpr hn
  rw [headcount_eq (by decide)] at hz
  simp only [inMutex,among_cons,among_nil] at hz
  omega

/-- If every thread that is not outside waits in vain, at the gate or for the mutex,
then no thread is inside and both are free. -/
theorem all_outside (hI : Inv c.shared (census c.locals))
    (h : ∀ i, c.locals i = .outside ∨ c.locals i = .first ∧ c.shared.gate = 0 ∨
      c.locals i = .inside ∧ c.shared.mutex = 0) :
    (∀ i, c.locals i = .outside) ∧ c.shared.mutex = 1 ∧ c.shared.gate = 1 := by
  have hz : ∀ p, p ≠ .outside → p ≠ .first → p ≠ .inside → census c.locals p = 0 := by
    intro p ho hf hi
    rw [census_eq_zero]
    rintro i rfl
    rcases h i with h | h | h
    · exact ho h
    · exact hf h.1
    · exact hi h.1
  have hfirst : census c.locals .first = 0 ∨ c.shared.gate = 0 := by
    rw [or_iff_not_imp_left,← ne_eq,← Nat.pos_iff_ne_zero,census_pos]
    rintro ⟨i,hi⟩
    have h := h i
    simp only [hi,reduceCtorEq,true_and,false_and,false_or,or_false] at h
    exact h
  have hinside : census c.locals .inside = 0 ∨ c.shared.mutex = 0 := by
    rw [or_iff_not_imp_left,← ne_eq,← Nat.pos_iff_ne_zero,census_pos]
    rintro ⟨i,hi⟩
    have h := h i
    simp only [hi,reduceCtorEq,true_and,false_and,false_or] at h
    exact h
  obtain ⟨hm,hc,ho,hf,h1,-⟩ := hI
  simp only [hz,ne_eq,reduceCtorEq,not_false_eq_true] at hm hc ho hf
  have hf0 : census c.locals .first = 0 := by omega
  have hi0 : census c.locals .inside = 0 := by omega
  refine ⟨fun i => ?_,by omega,by omega⟩
  rw [census_eq_zero] at hf0 hi0
  rcases h i with h | h | h
  · exact h
  · exact absurd h.1 (hf0 i)
  · exact absurd h.1 (hi0 i)

theorem gate_le (hI : Inv c.shared (census c.locals)) : c.shared.gate ≤ 1 := by
  obtain ⟨hm,hc,ho,hf,-,-⟩ := hI
  omega

theorem mutex_le (hI : Inv c.shared (census c.locals)) : c.shared.mutex ≤ 1 := by
  have hm := hI.mutex
  omega

end

end Interleaving.Lightswitch
