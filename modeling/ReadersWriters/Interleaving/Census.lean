import ReadersWriters.Interleaving.Machine
import Mathlib.Algebra.BigOperators.Pi
import Mathlib.Algebra.BigOperators.Group.Finset.Piecewise
import Mathlib.Algebra.BigOperators.Ring.Finset
import Mathlib.Data.Fintype.BigOperators
set_option autoImplicit false

namespace Interleaving
open Finset

section
variable {ι τ M : Type} [Fintype ι] [AddCommMonoid M]

/-- A quantity of the private states, summed over all threads. -/
def total (w : τ → M) (l : ι → τ) : M := ∑ i, w (l i)

/-- One thread against the rest: a step of thread `i` keeps the rest `r`. -/
theorem total_split [DecidableEq ι] (w : τ → M) (l : ι → τ) (i : ι) :
    ∃ r, total w l = r + w (l i) ∧ ∀ t, total w (Function.update l i t) = r + w t := by
  refine ⟨∑ j ∈ univ.erase i, w (l j),?_,?_⟩
  · exact (sum_erase_add univ _ (mem_univ i)).symm
  · intro t
    unfold total
    rw [← sum_erase_add univ _ (mem_univ i),Function.update_self]
    congr 1
    apply sum_congr rfl
    intro j hj
    rw [Function.update_of_ne (ne_of_mem_erase hj)]

end

section
variable {ι κ ε σ τ M : Type} [Fintype ι] [DecidableEq ι] [AddCommMonoid M]
  {m : Machine ι κ ε σ τ} {c₀ : Config ι σ τ}

/-- A relation between the history, the store and a total holds after every run if each
thread step preserves it next to arbitrary other threads. -/
theorem Run.total_history_invariant {w : τ → M} {I : List (Event ι κ ε σ τ) → σ → M → Prop}
    (h₀ : I [] c₀.shared (total w c₀.locals))
    (hact : ∀ h c i k s' t' r, m.act i k c.shared (c.locals i) = some (s',t') →
      I h c.shared (r+w (c.locals i)) → I ((c,.thread i k) :: h) s' (r+w t'))
    (henv : ∀ h c e s' n, m.env e c.shared = some s' → I h c.shared n → I ((c,.env e) :: h) s' n)
    {h : List (Event ι κ ε σ τ)} {c : Config ι σ τ} (hr : Run m c₀ h c) :
    I h c.shared (total w c.locals) := by
  induction hr with
  | start => exact h₀
  | @step h c c' l _ hn hc =>
    cases l with
    | thread i k =>
      obtain ⟨s,t,ha,rfl⟩ := Machine.next_thread.mp hn
      obtain ⟨r,hl,hu⟩ := total_split w c.locals i
      rw [hl] at hc
      simpa only [hu] using hact h c i k s t r ha hc
    | env e =>
      obtain ⟨s,he,rfl⟩ := Machine.next_env.mp hn
      exact henv h c e s _ he hc

theorem Run.total_invariant {w : τ → M} {I : σ → M → Prop}
    (h₀ : I c₀.shared (total w c₀.locals))
    (hact : ∀ i k s t s' t' r, m.act i k s t = some (s',t') → I s (r+w t) → I s' (r+w t'))
    (henv : ∀ e s s' n, m.env e s = some s' → I s n → I s' n)
    {h : List (Event ι κ ε σ τ)} {c : Config ι σ τ} (hr : Run m c₀ h c) :
    I c.shared (total w c.locals) :=
  hr.total_history_invariant (I := fun _ => I) h₀ (fun _ _ i k _ _ r => hact i k _ _ _ _ r)
    (fun _ _ e _ n => henv e _ _ n)

end

section
variable {τ : Type}

/-- How many threads a census counts in the states of a list. -/
def among (n : τ → ℕ) (L : List τ) : ℕ := (L.map n).sum

@[simp] theorem among_nil (n : τ → ℕ) : among n [] = 0 := rfl

@[simp] theorem among_cons (n : τ → ℕ) (t : τ) (L : List τ) :
    among n (t :: L) = n t + among n L := rfl

end

section
variable {ι τ : Type} [Fintype ι] [DecidableEq τ]

/-- The number of threads in each private state. -/
def census (l : ι → τ) : τ → ℕ := total (fun t => Pi.single t 1) l

theorem census_apply (l : ι → τ) (t : τ) : census l t = #{i | l i = t} := by
  simp only [census,total,Finset.sum_apply,Pi.single_apply,sum_boole,Nat.cast_id,eq_comm]

theorem census_pos {l : ι → τ} {t : τ} : 0 < census l t ↔ ∃ i, l i = t := by
  simp only [census_apply,card_pos,Finset.Nonempty,mem_filter,mem_univ,true_and]

theorem census_eq_zero {l : ι → τ} {t : τ} : census l t = 0 ↔ ∀ i, l i ≠ t := by
  rw [← not_iff_not,← ne_eq,← Nat.pos_iff_ne_zero,census_pos]
  simp only [ne_eq,not_forall,not_not]

/-- The number of threads whose private state is in the list. -/
def headcount (l : ι → τ) (L : List τ) : ℕ := #{i | l i ∈ L}

theorem headcount_eq {l : ι → τ} {L : List τ} (hL : L.Nodup) :
    headcount l L = among (census l) L := by
  induction L with
  | nil => simp [headcount]
  | cons t L ih =>
    obtain ⟨ht,hL⟩ := List.nodup_cons.mp hL
    classical
    have hd : Disjoint (univ.filter fun i => l i = t) (univ.filter fun i => l i ∈ L) := by
      rw [disjoint_filter]
      rintro i - rfl
      exact ht
    rw [among_cons,← ih hL,census_apply,headcount,headcount,← card_union_of_disjoint hd,
      ← filter_or]
    simp only [List.mem_cons]

/-- A relation between the store and the census holds after every run if each thread
step preserves it next to arbitrary other threads. -/
theorem Run.census_invariant {κ ε σ : Type} [DecidableEq ι] {m : Machine ι κ ε σ τ}
    {c₀ : Config ι σ τ} {I : σ → (τ → ℕ) → Prop} (h₀ : I c₀.shared (census c₀.locals))
    (hact : ∀ i k s t s' t' (r : τ → ℕ), m.act i k s t = some (s',t') →
      I s (r+Pi.single t 1) → I s' (r+Pi.single t' 1))
    (henv : ∀ e s s' n, m.env e s = some s' → I s n → I s' n)
    {h : List (Event ι κ ε σ τ)} {c : Config ι σ τ} (hr : Run m c₀ h c) :
    I c.shared (census c.locals) := hr.total_invariant h₀ hact henv

/-- One thread's share of a headcount. -/
def presence (L : List τ) (t : τ) : ℕ := if t ∈ L then 1 else 0

theorem total_presence (L : List τ) (l : ι → τ) : total (presence L) l = headcount l L := by
  simp only [total,presence,headcount,card_filter]

/-- The shares of one thread in the headcounts of several lists. -/
def roles {ρ : Type} (P : ρ → List τ) (t : τ) (x : ρ) : ℕ := presence (P x) t

theorem total_roles {ρ : Type} (P : ρ → List τ) (l : ι → τ) (x : ρ) :
    total (roles P) l x = headcount l (P x) := by
  rw [← total_presence]
  simp only [total,roles,Finset.sum_apply]

/-- A list of states that is the preimage of a list of views. -/
theorem headcount_comp {τ' : Type} [DecidableEq τ'] {f : τ → τ'} {L : List τ} {P : List τ'}
    (h : ∀ t, t ∈ L ↔ f t ∈ P) (l : ι → τ) : headcount l L = headcount (f ∘ l) P := by
  simp only [headcount,Function.comp_apply,h]

theorem headcount_congr {l : ι → τ} {L L' : List τ} (h : ∀ i, l i ∈ L ↔ l i ∈ L') :
    headcount l L = headcount l L' := by simp only [headcount,h]

theorem headcount_eq_zero {l : ι → τ} {L : List τ} : headcount l L = 0 ↔ ∀ i, l i ∉ L := by
  simp only [headcount,card_eq_zero,filter_eq_empty_iff,mem_univ,forall_const]

theorem headcount_pos {l : ι → τ} {L : List τ} {i : ι} (h : l i ∈ L) : 0 < headcount l L :=
  card_pos.mpr ⟨i,by simpa using h⟩

theorem headcount_le (l : ι → τ) (L : List τ) : headcount l L ≤ Fintype.card ι :=
  card_le_univ _

theorem headcount_unique {l : ι → τ} {L : List τ} (h : headcount l L ≤ 1) {i j : ι}
    (hi : l i ∈ L) (hj : l j ∈ L) : i=j :=
  card_le_one.mp h i (by simpa using hi) j (by simpa using hj)

end

end Interleaving
