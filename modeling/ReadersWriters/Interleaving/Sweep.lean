import ReadersWriters.Interleaving.Stuttering
import ReadersWriters.Interleaving.Potential
set_option autoImplicit false

namespace Interleaving

/-- The first of the steps that a thread makes by itself. -/
theorem Solo.via {ι κ ε σ τ : Type} {m : Machine ι κ ε σ τ} {i : ι} {s s'' : σ} {t t'' : τ}
    (k : κ) (s' : σ) (t' : τ) (h : m.act i k s t = some (s',t')) (hs : Solo m i s' t' s'' t'') :
    Solo m i s t s'' t'' :=
  .step h hs

theorem threadSteps_of_thread {ι κ ε σ τ : Type} {h : List (Event ι κ ε σ τ)}
    (hl : ∀ e ∈ h, ∃ i k, e.2 = .thread i k) : threadSteps h = h.length := by
  refine List.countP_eq_length.mpr fun e he => ?_
  obtain ⟨i,k,hk⟩ := hl e he
  rw [hk]
  rfl

section
variable {ι κ ε σ τ : Type} [DecidableEq ι] {m : Machine ι κ ε σ τ}

/-- `Solo.run`, by what it does to the threads. -/
theorem Solo.after {i : ι} {s' : σ} {t' : τ} {c : Config ι σ τ}
    (hs : Solo m i c.shared (c.locals i) s' t') : ∃ h c', Run m c h c' ∧
    (∀ e ∈ h, ∃ j k, e.2 = .thread j k) ∧ c'.shared = s' ∧ c'.locals i = t' ∧
      ∀ j, j ≠ i → c'.locals j = c.locals j := by
  obtain ⟨h,hr,hl⟩ := hs.run rfl rfl
  exact ⟨h,_,hr,hl,rfl,Function.update_self ..,fun j hj => Function.update_of_ne hj ..⟩

/-- The threads do something one after the other, each undisturbed by the others. -/
theorem sweep {I : σ → Prop} {P Q : ι → τ → Prop}
    (hsolo : ∀ i s t, I s → P i t → ∃ s' t', Solo m i s t s' t' ∧ I s' ∧ Q i t')
    {l : List ι} (hn : l.Nodup) {c : Config ι σ τ} (hI : I c.shared)
    (hP : ∀ i ∈ l, P i (c.locals i)) : ∃ h c', Run m c h c' ∧
    (∀ e ∈ h, ∃ j k, e.2 = .thread j k) ∧ I c'.shared ∧ (∀ i ∈ l, Q i (c'.locals i)) ∧
      ∀ i, i ∉ l → c'.locals i = c.locals i := by
  induction l generalizing c with
  | nil => exact ⟨[],c,.start,(fun _ he => by cases he),hI,(fun _ hi => by cases hi),fun _ _ => rfl⟩
  | cons i l ih =>
    obtain ⟨hil,hn⟩ := List.nodup_cons.mp hn
    obtain ⟨s',t',hs,hI',hQ⟩ := hsolo i c.shared (c.locals i) hI (hP i List.mem_cons_self)
    obtain ⟨h,hr,hl⟩ := hs.run rfl rfl
    have hne : ∀ j ∈ l, j ≠ i := fun j hj he => hil (he ▸ hj)
    obtain ⟨h',c',hr',hl',hI'',hQ',hk⟩ := ih hn (c := ⟨s',Function.update c.locals i t'⟩) hI' (by
      intro j hj
      simpa only [Function.update_of_ne (hne j hj)] using hP j (List.mem_cons_of_mem i hj))
    refine ⟨h' ++ h,c',hr.append hr',fun e he => ?_,hI'',fun j hj => ?_,fun j hj => ?_⟩
    · exact (List.mem_append.mp he).elim (hl' e) (hl e)
    · rcases List.mem_cons.mp hj with rfl | hj
      · rw [hk j hil]
        simpa only [Function.update_self] using hQ
      · exact hQ' j hj
    · obtain ⟨hji,hjl⟩ := not_or.mp fun hc => hj (List.mem_cons.mpr hc)
      rw [hk j hjl]
      simp only [Function.update_of_ne hji]

/-- A run has been in the configurations of its history. -/
theorem Run.reach_of_mem {c₀ c : Config ι σ τ} {h : List (Event ι κ ε σ τ)} (hr : Run m c₀ h c)
    {e : Event ι κ ε σ τ} (he : e ∈ h) : ∃ h₁ h₂, Run m c₀ h₁ e.1 ∧ Run m e.1 h₂ c := by
  induction hr with
  | start => cases he
  | @step h c c' l hr hn ih =>
    rcases List.mem_cons.mp he with rfl | he
    · exact ⟨h,_,hr,.step .start hn⟩
    · obtain ⟨h₁,h₂,hr₁,hr₂⟩ := ih he
      exact ⟨h₁,_,hr₁,hr₂.step hn⟩

/-- Threads that can step until all of them are done, but not for ever, can be run until all
of them are done. -/
theorem Run.completes {D : τ → Prop} {c : Config ι σ τ} {B : ℕ}
    (hB : ∀ h c', Run m c h c' → (∀ e ∈ h, ∃ j k, e.2 = .thread j k) → h.length ≤ B)
    (hp : ∀ h c', Run m c h c' → (∀ e ∈ h, ∃ j k, e.2 = .thread j k) →
      (∃ i, ¬ D (c'.locals i)) → ∃ i, m.Enabled c' i) :
    ∃ h c', Run m c h c' ∧ (∀ e ∈ h, ∃ j k, e.2 = .thread j k) ∧ ∀ i, D (c'.locals i) := by
  by_contra hno
  -- without a last state there is a run of every length
  have hlong : ∀ n, ∃ h c', Run m c h c' ∧ (∀ e ∈ h, ∃ j k, e.2 = .thread j k) ∧
      h.length = n := by
    intro n
    induction n with
    | zero => exact ⟨[],c,.start,(fun _ he => by cases he),rfl⟩
    | succ n ih =>
      obtain ⟨h,c',hr,hl,hn⟩ := ih
      have hd : ∃ i, ¬ D (c'.locals i) := by
        by_contra hd
        exact hno ⟨h,c',hr,hl,fun i => by_contra fun hi => hd ⟨i,hi⟩⟩
      obtain ⟨i,k,hk⟩ := hp h c' hr hl hd
      obtain ⟨⟨s,t⟩,ha⟩ := Option.isSome_iff_exists.mp hk
      refine ⟨(c',.thread i k) :: h,_,hr.step (Machine.next_thread.mpr ⟨s,t,ha,rfl⟩),?_,?_⟩
      · exact List.forall_mem_cons.mpr ⟨⟨i,k,rfl⟩,hl⟩
      · rw [List.length_cons,hn]
  obtain ⟨h,c',hr,hl,hn⟩ := hlong (B+1)
  have hle := hB h c' hr hl
  omega

end

end Interleaving
