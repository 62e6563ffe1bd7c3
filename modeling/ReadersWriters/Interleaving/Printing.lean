import ReadersWriters.Interleaving.Sweep
set_option autoImplicit false

namespace Interleaving

/-- Where an author is in a call of the log: outside it, before the mutex, or with the mutex
before the line, its copy, the newline of the copy or the release. -/
inductive PrintAt (ν γ : Type) where
  | outside
  | lock (call : ν) (line : List γ)
  | puts (call : ν) (line : List γ) | fputs (line : List γ) | fputc | unlock

structure Printed (α ν γ : Type) where
  author : α
  call : ν
  text : List γ

/-- A log with one mutex. A line is written at once, its copy in two parts. -/
structure Printer (α ν γ : Type) where
  /-- What each author still has to call. -/
  calls : α → List ν
  place : α → PrintAt ν γ := fun _ => .outside
  mutex : Option α := none
  lines : List (Printed α ν γ) := []
  /-- What the stream of the copy has been given, of which a part can still be in its buffer. -/
  copy : List γ := []

/-- What the threads `ι` and the actors `A` of the environment log. -/
structure Talk (ι κ ε σ τ A ν θ γ : Type) where
  /-- The calls that follow a step of a thread. -/
  threadCalls : ι → κ → σ → τ → List ν
  actor : ε → Option A
  actorCalls : ε → σ → List ν
  /-- Whose calls a move of the environment has to wait for. -/
  awaits : ε → σ → List (ι ⊕ A)
  passes : ν → Bool
  /-- The line of a call, with what a clock showed. -/
  threadLine : ι → θ → σ → τ → ν → List γ
  actorLine : A → θ → σ → ν → List γ
  copies : Bool
  newline : γ

namespace PrintAt

variable {ν γ : Type}

def holding : PrintAt ν γ → Bool
  | outside | lock _ _ => false
  | _ => true

def isOutside : PrintAt ν γ → Bool
  | outside => true
  | _ => false

/-- The call whose line is still to be written. -/
def pending : PrintAt ν γ → List ν
  | lock v _ | puts v _ => [v]
  | _ => []

/-- What is missing from the copy. -/
def owed (newline : γ) : PrintAt ν γ → List γ
  | fputs l => l ++ [newline]
  | fputc => [newline]
  | _ => []

/-- The steps left in the call. -/
def stepsLeft : PrintAt ν γ → ℕ
  | outside => 0
  | lock _ _ => 5
  | puts _ _ => 4
  | fputs _ => 3
  | fputc => 2
  | unlock => 1

theorem eq_outside {x : PrintAt ν γ} (h : x.isOutside = true) : x = outside := by
  cases x <;> first | rfl | cases h

end PrintAt

section
variable {ι κ ε σ τ A ν θ γ α : Type}

/-- What the lines look like together. -/
def Printer.text (newline : γ) (lines : List (Printed α ν γ)) : List γ :=
  lines.flatMap fun x => x.text ++ [newline]

@[simp] theorem Printer.text_append (newline : γ) (xs ys : List (Printed α ν γ)) :
    text newline (xs ++ ys) = text newline xs ++ text newline ys := List.flatMap_append ..

@[simp] theorem Printer.text_singleton (newline : γ) (x : Printed α ν γ) :
    text newline [x] = x.text ++ [newline] := by simp [text]

namespace Printer

/-- All lines behind the first `k`, written or under way, are such as `R` says. -/
structure Made (R : α → ν → List γ → Prop) (k : ℕ) (p : Printer α ν γ) : Prop where
  lines : ∀ x ∈ p.lines.drop k, R x.author x.call x.text
  place : ∀ a v l, p.place a = .lock v l ∨ p.place a = .puts v l → R a v l

/-- The author is outside its calls, and this is the one that it makes next. -/
def AtCall (p : Printer α ν γ) (a : α) (v : ν) : Prop :=
  p.place a = .outside ∧ (p.calls a).head? = some v

theorem Made.mono {p : Printer α ν γ} {k : ℕ} {R R' : α → ν → List γ → Prop}
    (hR : p.Made R k) (h : ∀ a v l, R a v l → R' a v l) : p.Made R' k :=
  ⟨fun x hx => h _ _ _ (hR.lines x hx),fun a v l hp => h _ _ _ (hR.place a v l hp)⟩

variable [DecidableEq α]

def Idle (p : Printer α ν γ) (a : α) : Prop := (p.place a).isOutside = true ∧ (p.calls a).isEmpty

instance (p : Printer α ν γ) (a : α) : Decidable (p.Idle a) := inferInstanceAs (Decidable (_ ∧ _))

def moveTo (p : Printer α ν γ) (a : α) (x : PrintAt ν γ) : Printer α ν γ :=
  { p with place := Function.update p.place a x }

def issue (p : Printer α ν γ) (a : α) (vs : List ν) : Printer α ν γ :=
  { p with calls := Function.update p.calls a (p.calls a ++ vs) }

/-- The next step of an author, which writes nothing for calls that do not pass. -/
def step (passes : ν → Bool) (copies : Bool) (newline : γ) (line : ν → List γ) (a : α)
    (p : Printer α ν γ) : Option (Printer α ν γ) :=
  match p.place a with
  | .outside => match p.calls a with
    | [] => none
    | v :: vs => some { p.moveTo a (if passes v then .lock v (line v) else .outside) with
        calls := Function.update p.calls a vs }
  | .lock v l =>
      if p.mutex.isNone then some { p.moveTo a (.puts v l) with mutex := some a } else none
  | .puts v l => some { p.moveTo a (if copies then .fputs l else .unlock) with
      lines := p.lines ++ [⟨a,v,l⟩] }
  | .fputs l => some { p.moveTo a .fputc with copy := p.copy ++ l }
  | .fputc => some { p.moveTo a .unlock with copy := p.copy ++ [newline] }
  | .unlock => some { p.moveTo a .outside with mutex := none }

end Printer

/-- A store and the log beside it. -/
structure Logged (σ α ν γ : Type) where
  base : σ
  printer : Printer α ν γ

/-- A machine whose threads and actors make the calls of a step before their next step. -/
def Machine.printing [DecidableEq ι] [DecidableEq A] (m : Machine ι κ ε σ τ)
    (T : Talk ι κ ε σ τ A ν θ γ) :
    Machine ι (κ × θ) (ε ⊕ A × θ) (Logged σ (ι ⊕ A) ν γ) τ where
  act i k s t :=
    if s.printer.Idle (.inl i) then (m.act i k.1 s.base t).map fun r =>
      (⟨r.1,s.printer.issue (.inl i) (T.threadCalls i k.1 s.base t)⟩,r.2)
    else (s.printer.step T.passes T.copies T.newline (T.threadLine i k.2 s.base t) (.inl i)).map
      fun p => (⟨s.base,p⟩,t)
  env
    | .inl e, s =>
        if ∀ a ∈ T.awaits e s.base, s.printer.Idle a then (m.env e s.base).map fun s' =>
          ⟨s',match T.actor e with
            | none => s.printer
            | some a => s.printer.issue (.inr a) (T.actorCalls e s.base)⟩
        else none
    | .inr (a,o), s => (s.printer.step T.passes T.copies T.newline (T.actorLine a o s.base)
        (.inr a)).map fun p => ⟨s.base,p⟩

end

section
variable {ν γ α : Type} [DecidableEq α] {passes : ν → Bool} {copies : Bool} {newline : γ}
  {line : ν → List γ} {a : α} {p p' : Printer α ν γ}

namespace Printer

/-- One case for each branch of `step`. -/
inductive StepCase (passes : ν → Bool) (copies : Bool) (newline : γ) (line : ν → List γ) (a : α)
    (p : Printer α ν γ) : Printer α ν γ → Prop where
  | skip {v : ν} {vs : List ν} : p.place a = .outside → p.calls a = v :: vs → passes v = false →
      StepCase passes copies newline line a p { p with calls := Function.update p.calls a vs }
  | format {v : ν} {vs : List ν} : p.place a = .outside → p.calls a = v :: vs → passes v = true →
      StepCase passes copies newline line a p { p.moveTo a (.lock v (line v)) with
        calls := Function.update p.calls a vs }
  | lock {v : ν} {l : List γ} : p.place a = .lock v l → p.mutex = none →
      StepCase passes copies newline line a p { p.moveTo a (.puts v l) with mutex := some a }
  | puts {v : ν} {l : List γ} : p.place a = .puts v l →
      StepCase passes copies newline line a p
        { p.moveTo a (if copies then .fputs l else .unlock) with lines := p.lines ++ [⟨a,v,l⟩] }
  | fputs {l : List γ} : p.place a = .fputs l →
      StepCase passes copies newline line a p { p.moveTo a .fputc with copy := p.copy ++ l }
  | fputc : p.place a = .fputc →
      StepCase passes copies newline line a p
        { p.moveTo a .unlock with copy := p.copy ++ [newline] }
  | unlock : p.place a = .unlock →
      StepCase passes copies newline line a p { p.moveTo a .outside with mutex := none }

theorem step_cases (h : step passes copies newline line a p = some p') :
    StepCase passes copies newline line a p p' := by
  simp only [step] at h
  split at h <;> rename_i hp
  · split at h <;> rename_i hc <;> cases h
    rename_i v vs
    cases hv : passes v with
    | true => exact .format hp hc hv
    | false =>
      have hm : p.moveTo a .outside = p := by
        simp only [moveTo,← hp,Function.update_eq_self]
      simp only [Bool.false_eq_true,if_false,hm]
      exact .skip hp hc hv
  · obtain ⟨hm,he⟩ := Option.ite_none_right_eq_some.mp h
    cases he
    exact .lock hp (Option.isNone_iff_eq_none.mp hm)
  all_goals cases h
  · exact .puts hp
  · exact .fputs hp
  · exact .fputc hp
  · exact .unlock hp

end Printer

end

section
variable {ι κ ε σ τ A ν θ γ α : Type} [DecidableEq α] {newline : γ} {a b : α}
  {p p' : Printer α ν γ}

namespace Printer

@[simp] theorem moveTo_self (x : PrintAt ν γ) : (p.moveTo a x).place a = x :=
  Function.update_self ..

theorem moveTo_of_ne (h : b ≠ a) (x : PrintAt ν γ) : (p.moveTo a x).place b = p.place b :=
  Function.update_of_ne h ..

/-- The mutex belongs to whoever writes, and the copy is complete but for a part of the last
line. -/
structure Sound (copies : Bool) (newline : γ) (p : Printer α ν γ) : Prop where
  holder : ∀ a, p.mutex = some a ↔ (p.place a).holding = true
  copy : copies = true → p.copy ++ (p.mutex.elim [] fun a => (p.place a).owed newline) =
    text newline p.lines
  last : ∀ a, (p.place a).owed newline ≠ [] → ∃ pre x, p.lines = pre ++ [x] ∧ x.author = a ∧
    (p.place a).owed newline <:+ x.text ++ [newline]

/-- What an author has to log, with what it has logged. -/
def said (passes : ν → Bool) (p : Printer α ν γ) (a : α) : List ν :=
  (p.lines.filter fun x => x.author = a).map Printed.call ++ (p.place a).pending ++
    (p.calls a).filter passes

variable {passes : ν → Bool} {copies : Bool} {line : ν → List γ} {R : α → ν → List γ → Prop}

theorem holder_moveTo (h : ∀ a, p.mutex = some a ↔ (p.place a).holding = true)
    {x : PrintAt ν γ} (hx : x.holding = (p.place a).holding) (b : α) :
    p.mutex = some b ↔ ((p.moveTo a x).place b).holding = true := by
  by_cases hb : b = a
  · subst hb
    rw [moveTo_self,hx]
    exact h b
  · rw [moveTo_of_ne hb]
    exact h b

theorem Sound.step (hs : p.Sound copies newline)
    (h : p.step passes copies newline line a = some p') : p'.Sound copies newline := by
  have hlast : ∀ {x : PrintAt ν γ}, (x.owed newline ≠ [] → ∃ pre y, p.lines = pre ++ [y] ∧
      y.author = a ∧ x.owed newline <:+ y.text ++ [newline]) →
      ∀ b, ((p.moveTo a x).place b).owed newline ≠ [] → ∃ pre y, p.lines = pre ++ [y] ∧
        y.author = b ∧ ((p.moveTo a x).place b).owed newline <:+ y.text ++ [newline] := by
    intro x hx b
    by_cases hba : b = a
    · subst hba
      rw [moveTo_self]
      exact hx
    · rw [moveTo_of_ne hba]
      exact hs.last b
  cases step_cases h with
  | skip => exact ⟨hs.holder,hs.copy,hs.last⟩
  | format hp =>
    have hm : p.mutex ≠ some a := fun hm => by
      have ha := (hs.holder a).mp hm
      rw [hp] at ha
      cases ha
    refine ⟨holder_moveTo hs.holder (by rw [hp]; rfl),fun hc => ?_,hlast fun hne => absurd rfl hne⟩
    have hcopy := hs.copy hc
    cases hb : p.mutex with
    | none => simpa [moveTo,hb] using hcopy
    | some b =>
      have hba : b ≠ a := fun he => hm (he ▸ hb)
      simpa [moveTo,hb,Function.update_of_ne hba] using hcopy
  | lock hp hm =>
    refine ⟨fun b => ?_,fun hc => ?_,hlast fun hne => absurd rfl hne⟩
    · by_cases hb : b = a
      · subst hb
        simp [moveTo,PrintAt.holding]
      · have hn := hs.holder b
        rw [hm] at hn
        simpa [moveTo,Function.update_of_ne hb,Ne.symm hb] using hn
    · have hcopy := hs.copy hc
      simp only [hm,Option.elim_none] at hcopy
      simpa [moveTo,PrintAt.owed] using hcopy
  | @puts v l hp =>
    have hm : p.mutex = some a := (hs.holder a).mpr (by rw [hp]; rfl)
    refine ⟨holder_moveTo hs.holder (by rw [hp]; cases copies <;> rfl),?_,fun b hb => ?_⟩
    · rintro rfl
      have hcopy := hs.copy rfl
      simp only [hm,Option.elim_some,hp,PrintAt.owed,List.append_nil] at hcopy
      simp [moveTo,hm,PrintAt.owed,hcopy]
    · by_cases hba : b = a
      · subst hba
        refine ⟨p.lines,_,rfl,rfl,?_⟩
        simp only [moveTo,Function.update_self] at hb ⊢
        cases copies with
        | true => exact List.suffix_refl _
        | false => exact absurd rfl hb
      · have hb' : (p.place b).holding = true := by
          simp only [moveTo,Function.update_of_ne hba] at hb
          cases hpb : p.place b <;> rw [hpb] at hb <;> first | rfl | exact absurd rfl hb
        exact absurd (Option.some.inj (((hs.holder b).mpr hb').symm.trans hm)) hba
  | @fputs l hp =>
    have hm : p.mutex = some a := (hs.holder a).mpr (by rw [hp]; rfl)
    have hl := hs.last a (by rw [hp]; simp [PrintAt.owed])
    rw [hp] at hl
    refine ⟨holder_moveTo hs.holder (by rw [hp]; rfl),fun hc => ?_,hlast fun _ =>
      hl.imp fun pre ⟨x,hx,ha,hsuf⟩ => ⟨x,hx,ha,(List.suffix_append l _).trans hsuf⟩⟩
    have hcopy := hs.copy hc
    simp only [hm,Option.elim_some,hp,PrintAt.owed] at hcopy
    simp [moveTo,hm,PrintAt.owed,hcopy]
  | fputc hp =>
    have hm : p.mutex = some a := (hs.holder a).mpr (by rw [hp]; rfl)
    refine ⟨holder_moveTo hs.holder (by rw [hp]; rfl),fun hc => ?_,hlast fun hne => absurd rfl hne⟩
    have hcopy := hs.copy hc
    simp only [hm,Option.elim_some,hp,PrintAt.owed] at hcopy
    simp [moveTo,hm,PrintAt.owed,hcopy]
  | unlock hp =>
    have hm : p.mutex = some a := (hs.holder a).mpr (by rw [hp]; rfl)
    refine ⟨fun b => ?_,fun hc => ?_,hlast fun hne => absurd rfl hne⟩
    · by_cases hb : b = a
      · subst hb
        simp [moveTo,PrintAt.holding]
      · have hn := hs.holder b
        rw [hm] at hn
        simpa [moveTo,Function.update_of_ne hb,Ne.symm hb] using hn
    · have hcopy := hs.copy hc
      simp only [hm,Option.elim_some,hp,PrintAt.owed,List.append_nil] at hcopy
      simpa [moveTo] using hcopy

theorem Sound.issue (hs : p.Sound copies newline) (a : α) (vs : List ν) :
    (p.issue a vs).Sound copies newline := ⟨hs.holder,hs.copy,hs.last⟩

theorem said_step (h : p.step passes copies newline line b = some p') (a : α) :
    p'.said passes a = p.said passes a := by
  by_cases hab : a = b
  · subst hab
    cases step_cases h with
    | skip _ hc hv => simp [said,hc,hv]
    | format hp hc hv => simp [said,moveTo,hp,hc,hv,PrintAt.pending]
    | lock hp => simp [said,moveTo,hp,PrintAt.pending]
    | puts hp => cases copies <;> simp [said,moveTo,hp,PrintAt.pending]
    | fputs hp | fputc hp | unlock hp => simp [said,moveTo,hp,PrintAt.pending]
  · cases step_cases h with
    | puts => simp [said,moveTo,Function.update_of_ne hab,Ne.symm hab]
    | skip | format | lock | fputs | fputc | unlock =>
      simp [said,moveTo,Function.update_of_ne hab]

theorem said_issue (a b : α) (vs : List ν) :
    (p.issue b vs).said passes a = p.said passes a ++ if a = b then vs.filter passes else [] := by
  by_cases hab : a = b
  · subst hab
    simp [said,Printer.issue]
  · simp [said,Printer.issue,hab]

theorem Made.step {k : ℕ} (hR : p.Made R k)
    (hline : ∀ v, passes v = true → p.AtCall a v → R a v (line v))
    (h : p.step passes copies newline line a = some p') : p'.Made R k := by
  have hplace : ∀ {x : PrintAt ν γ}, (∀ v l, x = .lock v l ∨ x = .puts v l → R a v l) →
      ∀ b v l, (p.moveTo a x).place b = .lock v l ∨ (p.moveTo a x).place b = .puts v l →
        R b v l := by
    intro x hx b v l hb
    by_cases hba : b = a
    · subst hba
      rw [moveTo_self] at hb
      exact hx v l hb
    · rw [moveTo_of_ne hba] at hb
      exact hR.place b v l hb
  cases step_cases h with
  | skip => exact ⟨hR.lines,hR.place⟩
  | format hp hc hv =>
    refine ⟨hR.lines,hplace fun v l hx => ?_⟩
    rcases hx with hx | hx <;> cases hx
    exact hline _ hv ⟨hp,by rw [hc]; rfl⟩
  | lock hp =>
    refine ⟨hR.lines,hplace fun v l hx => ?_⟩
    rcases hx with hx | hx <;> cases hx
    exact hR.place a _ _ (.inl hp)
  | puts hp =>
    refine ⟨fun x hx => ?_,hplace fun _ _ hx => ?_⟩
    rotate_left
    · cases copies <;> rcases hx with hx | hx <;> cases hx
    rw [List.drop_append] at hx
    rcases List.mem_append.mp hx with hx | hx
    · exact hR.lines x hx
    · rw [List.mem_singleton.mp (List.mem_of_mem_drop hx)]
      exact hR.place a _ _ (.inr hp)
  | fputs | fputc | unlock =>
    exact ⟨hR.lines,hplace fun v l hx => by rcases hx with hx | hx <;> cases hx⟩

/-- Any number of steps of one author. -/
inductive Steps (passes : ν → Bool) (copies : Bool) (newline : γ) (line : ν → List γ) (a : α) :
    Printer α ν γ → Printer α ν γ → Prop where
  | refl {p : Printer α ν γ} : Steps passes copies newline line a p p
  | step {p p' p'' : Printer α ν γ} : p.step passes copies newline line a = some p' →
      Steps passes copies newline line a p' p'' → Steps passes copies newline line a p p''

theorem Steps.sound (hs : p.Sound copies newline)
    (h : Steps passes copies newline line a p p') : p'.Sound copies newline := by
  induction h with
  | refl => exact hs
  | step ha _ ih => exact ih (hs.step ha)

theorem Steps.idle_of_ne (h : Steps passes copies newline line a p p') (hb : b ≠ a) :
    p'.Idle b ↔ p.Idle b := by
  induction h with
  | refl => rfl
  | step ha _ ih =>
    rw [ih]
    cases step_cases ha <;> simp [Idle,moveTo,Function.update_of_ne hb]

/-- An author that is not kept waiting comes to the end of its calls. -/
theorem finishes (line : ν → List γ) (hs : p.Sound copies newline)
    (hm : ∀ b, p.mutex = some b → b = a) :
    ∃ p', Steps passes copies newline line a p p' ∧ p'.mutex = none ∧ p'.Idle a := by
  generalize hn : 7*(p.calls a).length+(p.place a).stepsLeft = n
  induction n using Nat.strong_induction_on generalizing p with
  | _ n ih =>
    by_cases hi : p.Idle a
    · refine ⟨p,.refl,?_,hi⟩
      cases hb : p.mutex with
      | none => rfl
      | some b =>
        have hh := (hs.holder b).mp hb
        rw [hm b hb,PrintAt.eq_outside hi.1] at hh
        cases hh
    obtain ⟨p₁,hp₁⟩ : ∃ p₁, p.step passes copies newline line a = some p₁ := by
      simp only [step]
      split <;> rename_i hp
      · split <;> rename_i hc
        · exact absurd ⟨by rw [hp]; rfl,by rw [hc]; rfl⟩ hi
        · exact ⟨_,rfl⟩
      · rw [if_pos]
        · exact ⟨_,rfl⟩
        · cases hb : p.mutex with
          | none => rfl
          | some b =>
            have hh := (hs.holder b).mp hb
            rw [hm b hb,hp] at hh
            cases hh
      all_goals exact ⟨_,rfl⟩
    have hm₁ : ∀ b, p₁.mutex = some b → b = a := by
      cases step_cases hp₁ with
      | lock => exact fun b hb => (Option.some.inj hb).symm
      | unlock => exact fun b hb => by cases hb
      | skip | format | puts | fputs | fputc => exact hm
    have hlt : 7*(p₁.calls a).length+(p₁.place a).stepsLeft < n := by
      rw [← hn]
      cases step_cases hp₁ with
      | skip hp hc => simp [hp,hc,PrintAt.stepsLeft]
      | format hp hc => simp [moveTo,hp,hc,PrintAt.stepsLeft]; omega
      | puts hp => cases copies <;> simp [moveTo,hp,PrintAt.stepsLeft]
      | lock hp | fputs hp | fputc hp | unlock hp => simp [moveTo,hp,PrintAt.stepsLeft]
    obtain ⟨p',hp',hn',hi'⟩ := ih _ hlt (hs.step hp₁) hm₁ rfl
    exact ⟨p',.step hp₁ hp',hn',hi'⟩

theorem not_idle_of_step (h : p.step passes copies newline line a = some p') : ¬ p.Idle a := by
  rintro ⟨hp,hc⟩
  simp only [step,PrintAt.eq_outside hp,List.isEmpty_iff.mp hc] at h
  cases h

/-- An author that is idle stays so when another one makes a step. -/
theorem Idle.step (hb : p.Idle b) (h : p.step passes copies newline line a = some p') :
    p'.Idle b := by
  have hba : b ≠ a := fun hba => not_idle_of_step h (hba ▸ hb)
  exact ((Steps.step h .refl).idle_of_ne hba).mpr hb

theorem Idle.issue (hb : p.Idle b) {vs : List ν} (h : b = a → vs = []) : (p.issue a vs).Idle b := by
  refine ⟨hb.1,?_⟩
  by_cases hba : b = a
  · subst hba
    simpa [Printer.issue,h rfl] using hb.2
  · simpa [Printer.issue,Function.update_of_ne hba] using hb.2

end Printer

end

namespace Talk

section
variable {ι κ ε σ τ A ν θ γ : Type} [DecidableEq ι] [DecidableEq A] {m : Machine ι κ ε σ τ}
  (T : Talk ι κ ε σ τ A ν θ γ)

/-- The calls that an author has to make after a run of the machine below. -/
def issued (a : ι ⊕ A) : List (Event ι κ ε σ τ) → List ν
  | [] => []
  | (c,.thread i k) :: h =>
      issued a h ++ if a = .inl i then T.threadCalls i k c.shared (c.locals i) else []
  | (c,.env e) :: h =>
      issued a h ++ if some a = (T.actor e).map .inr then T.actorCalls e c.shared else []

def line (c : Config ι σ τ) (o : θ) : ι ⊕ A → ν → List γ
  | .inl i => T.threadLine i o c.shared (c.locals i)
  | .inr a => T.actorLine a o c.shared

/-- Who can go on with its calls in a step, and what the clock shows. -/
def clock : Label ι (κ × θ) (ε ⊕ A × θ) → Option ((ι ⊕ A) × θ)
  | .thread i k => some (.inl i,k.2)
  | .env (.inl _) => none
  | .env (.inr (a,o)) => some (.inr a,o)

/-- A step of a run made this line for the call of the author, of what there was at that step. -/
def Makes (h : List (Event ι (κ × θ) (ε ⊕ A × θ) (Logged σ (ι ⊕ A) ν γ) τ)) (a : ι ⊕ A) (v : ν)
    (l : List γ) : Prop :=
  ∃ e ∈ h, ∃ o, clock e.2 = some (a,o) ∧ e.1.shared.printer.AtCall a v ∧
    l = T.line ⟨e.1.shared.base,e.1.locals⟩ o a v

/-- Nobody is in the middle of a call; `before` has been logged already. -/
def start (c : Config ι σ τ) (calls : ι ⊕ A → List ν) (before : List (Printed (ι ⊕ A) ν γ)) :
    Config ι (Logged σ (ι ⊕ A) ν γ) τ where
  shared := ⟨c.shared,{ calls, lines := before, copy := Printer.text T.newline before }⟩
  locals := c.locals

variable {T}

/-- A step of the machine with its log: one of the machine below, or a step of an author. -/
inductive StepCase (T : Talk ι κ ε σ τ A ν θ γ) (m : Machine ι κ ε σ τ)
    (c : Config ι (Logged σ (ι ⊕ A) ν γ) τ) :
    Label ι (κ × θ) (ε ⊕ A × θ) → Config ι (Logged σ (ι ⊕ A) ν γ) τ → Prop where
  | thread {i : ι} {k : κ} {o : θ} {s : σ} {t : τ} : c.shared.printer.Idle (.inl i) →
      m.act i k c.shared.base (c.locals i) = some (s,t) →
      StepCase T m c (.thread i (k,o))
        ⟨⟨s,c.shared.printer.issue (.inl i) (T.threadCalls i k c.shared.base (c.locals i))⟩,
          Function.update c.locals i t⟩
  | env {e : ε} {s : σ} : (∀ a ∈ T.awaits e c.shared.base, c.shared.printer.Idle a) →
      m.env e c.shared.base = some s →
      StepCase T m c (.env (.inl e)) ⟨⟨s,match T.actor e with
        | none => c.shared.printer
        | some a => c.shared.printer.issue (.inr a) (T.actorCalls e c.shared.base)⟩,c.locals⟩
  | threadPrints {i : ι} {k : κ × θ} {p : Printer (ι ⊕ A) ν γ} :
      c.shared.printer.step T.passes T.copies T.newline
        (T.threadLine i k.2 c.shared.base (c.locals i)) (.inl i) = some p →
      StepCase T m c (.thread i k) ⟨⟨c.shared.base,p⟩,c.locals⟩
  | actorPrints {a : A} {o : θ} {p : Printer (ι ⊕ A) ν γ} :
      c.shared.printer.step T.passes T.copies T.newline (T.actorLine a o c.shared.base)
        (.inr a) = some p →
      StepCase T m c (.env (.inr (a,o))) ⟨⟨c.shared.base,p⟩,c.locals⟩

theorem step_cases {c c' : Config ι (Logged σ (ι ⊕ A) ν γ) τ}
    {l : Label ι (κ × θ) (ε ⊕ A × θ)} (hn : (m.printing T).next c l = some c') :
    StepCase T m c l c' := by
  rcases l with ⟨i,k⟩ | e | ⟨a,o⟩
  · obtain ⟨s',t',ha,rfl⟩ := Machine.next_thread.mp hn
    simp only [Machine.printing] at ha
    split at ha <;> rename_i hi
    · obtain ⟨⟨s,t⟩,hs,he⟩ := Option.map_eq_some_iff.mp ha
      cases he
      exact .thread hi hs
    · obtain ⟨p,hp,he⟩ := Option.map_eq_some_iff.mp ha
      cases he
      rw [Function.update_eq_self]
      exact .threadPrints hp
  · obtain ⟨s',he,rfl⟩ := Machine.next_env.mp hn
    obtain ⟨hw,he⟩ := Option.ite_none_right_eq_some.mp he
    obtain ⟨s,hs,rfl⟩ := Option.map_eq_some_iff.mp he
    exact .env hw hs
  · obtain ⟨s',he,rfl⟩ := Machine.next_env.mp hn
    obtain ⟨p,hp,rfl⟩ := Option.map_eq_some_iff.mp he
    exact .actorPrints hp

theorem StepCase.next {c c' : Config ι (Logged σ (ι ⊕ A) ν γ) τ}
    {l : Label ι (κ × θ) (ε ⊕ A × θ)} (h : StepCase T m c l c') :
    (m.printing T).next c l = some c' := by
  cases h with
  | thread hi ha =>
    refine Machine.next_thread.mpr ⟨_,_,?_,rfl⟩
    simp only [Machine.printing,if_pos hi,ha,Option.map_some]
  | env hw he =>
    refine Machine.next_env.mpr ⟨_,?_,rfl⟩
    simp only [Machine.printing,if_pos hw,he,Option.map_some]
  | @threadPrints i k p hp =>
    refine Machine.next_thread.mpr ⟨⟨c.shared.base,p⟩,c.locals i,?_,?_⟩
    · simp only [Machine.printing,if_neg (Printer.not_idle_of_step hp),hp,Option.map_some]
    · rw [Function.update_eq_self]
  | actorPrints hp =>
    refine Machine.next_env.mpr ⟨_,?_,rfl⟩
    simp only [Machine.printing,hp,Option.map_some]

variable (T m)

/-- The machine below the log. -/
def view : Simulation (m.printing T) m where
  view c := ⟨c.shared.base,c.locals⟩
  label
    | (c,.thread i k) => if c.shared.printer.Idle (.inl i) then some (.thread i k.1) else none
    | (_,.env (.inl e)) => some (.env e)
    | (_,.env (.inr _)) => none
  silent := by
    intro c l c' hn hl
    cases step_cases hn with
    | thread hi => simp [hi] at hl
    | env => cases hl
    | threadPrints | actorPrints => rfl
  visible := by
    intro c l c' l' hn hl
    cases step_cases hn with
    | thread hi ha =>
      simp only [if_pos hi] at hl
      cases hl
      exact Machine.next_thread.mpr ⟨_,_,ha,rfl⟩
    | env _ he =>
      cases hl
      exact Machine.next_env.mpr ⟨_,he,rfl⟩
    | threadPrints hp =>
      simp only [if_neg (Printer.not_idle_of_step hp)] at hl
      cases hl
    | actorPrints => cases hl

variable {T m} {c c' : Config ι (Logged σ (ι ⊕ A) ν γ) τ} {c₀ : Config ι σ τ}
  {calls : ι ⊕ A → List ν} {before : List (Printed (ι ⊕ A) ν γ)}
  {h : List (Event ι (κ × θ) (ε ⊕ A × θ) (Logged σ (ι ⊕ A) ν γ) τ)}
  {l : Label ι (κ × θ) (ε ⊕ A × θ)}

theorem label_idle {i : ι} {k : κ × θ} (hi : c.shared.printer.Idle (.inl i)) :
    (T.view m).label (c,.thread i k) = some (.thread i k.1) := if_pos hi

theorem label_prints {i : ι} {k : κ × θ} {p : Printer (ι ⊕ A) ν γ} {line : ν → List γ}
    (hp : c.shared.printer.step T.passes T.copies T.newline line (.inl i) = some p) :
    (T.view m).label (c,.thread i k) = none :=
  if_neg (Printer.not_idle_of_step hp)

theorem sound_next (hs : c.shared.printer.Sound T.copies T.newline)
    (hn : (m.printing T).next c l = some c') : c'.shared.printer.Sound T.copies T.newline := by
  cases step_cases hn with
  | thread => exact hs.issue ..
  | @env e =>
    cases he : T.actor e with
    | none => exact hs
    | some a => exact hs.issue ..
  | threadPrints hp | actorPrints hp => exact hs.step hp

theorem sound_run (hr : Run (m.printing T) (T.start c₀ calls before) h c) :
    c.shared.printer.Sound T.copies T.newline := by
  refine hr.always (P := fun c => c.shared.printer.Sound T.copies T.newline) ?_ ?_
  · refine ⟨fun a => ?_,fun _ => by simp [start],fun a ha => absurd rfl ha⟩
    constructor <;> intro hx <;> cases hx
  · exact fun _ _ _ hc hn => sound_next hc hn

/-- An author has logged, is logging or is still to log what it was told to. -/
theorem said_run (hr : Run (m.printing T) (T.start c₀ calls before) h c) (a : ι ⊕ A) :
    c.shared.printer.said T.passes a = (before.filter fun x => x.author = a).map Printed.call ++
      (calls a ++ T.issued a ((T.view m).history h)).filter T.passes := by
  induction hr with
  | start => simp [start,Printer.said,PrintAt.pending,Simulation.history,issued]
  | @step h c c' l _ hn ih =>
    cases step_cases hn with
    | @thread i k o s t hi ha =>
      rw [(T.view m).history_visible (label_idle hi),Printer.said_issue,ih]
      by_cases hai : a = .inl i
      · simp [issued,hai,view]
      · simp [issued,hai]
    | @env e s =>
      rw [(T.view m).history_visible rfl]
      cases he : T.actor e with
      | none => simp [issued,he,ih]
      | some b =>
        simp only [issued,he,Option.map_some,Option.some.injEq,Printer.said_issue,ih]
        by_cases hab : a = .inr b
        · simp [hab,view]
        · simp [hab]
    | threadPrints hp => rw [(T.view m).history_silent (label_prints hp),Printer.said_step hp,ih]
    | actorPrints hp => rw [(T.view m).history_silent rfl,Printer.said_step hp,ih]

/-- Every new line was made by a step of the run for a call that was to be made. -/
theorem made_run (hr : Run (m.printing T) (T.start c₀ calls before) h c) :
    c.shared.printer.Made (fun a v x => T.passes v = true ∧ T.Makes h a v x) before.length := by
  induction hr with
  | start =>
    exact ⟨fun x hx => by simp [start] at hx,fun a v l hx => by rcases hx with hx | hx <;> cases hx⟩
  | @step h c c' l _ hn ih =>
    have ih' : c.shared.printer.Made (fun a v x => T.passes v = true ∧ T.Makes ((c,l) :: h) a v x)
        before.length :=
      ih.mono fun a v x ⟨hv,e,he,hx⟩ => ⟨hv,e,List.mem_cons_of_mem _ he,hx⟩
    cases step_cases hn with
    | thread => exact ⟨ih'.lines,ih'.place⟩
    | @env e =>
      cases he : T.actor e with
      | none => exact ih'
      | some a => exact ⟨ih'.lines,ih'.place⟩
    | @threadPrints _ k _ hp =>
      exact ih'.step (fun v hv hc => ⟨hv,_,List.mem_cons_self,k.2,rfl,hc,rfl⟩) hp
    | @actorPrints _ o _ hp =>
      exact ih'.step (fun v hv hc => ⟨hv,_,List.mem_cons_self,o,rfl,hc,rfl⟩) hp

/-- What an author still has to call is the end of what it was told to. -/
theorem calls_run (hr : Run (m.printing T) (T.start c₀ calls before) h c) (a : ι ⊕ A) :
    c.shared.printer.calls a <:+ calls a ++ T.issued a ((T.view m).history h) := by
  have happend : ∀ {xs ys : List ν} (zs : List ν), xs <:+ ys → xs ++ zs <:+ ys ++ zs := by
    rintro xs _ zs ⟨ws,rfl⟩
    exact ⟨ws,(List.append_assoc ..).symm⟩
  have hprints : ∀ {p p' : Printer (ι ⊕ A) ν γ} {line : ν → List γ} {b : ι ⊕ A},
      p.step T.passes T.copies T.newline line b = some p' → p'.calls a <:+ p.calls a := by
    intro p p' line b hp
    by_cases hab : a = b
    · subst hab
      cases Printer.step_cases hp with
      | skip _ hc | format _ hc => simp [hc]
      | lock | puts | fputs | fputc | unlock => exact List.suffix_refl _
    · cases Printer.step_cases hp <;> simp [Printer.moveTo,Function.update_of_ne hab]
  induction hr with
  | start => simp [start,Simulation.history,issued]
  | @step h c c' l _ hn ih =>
    cases step_cases hn with
    | @thread i k o s t hi ha =>
      rw [(T.view m).history_visible (label_idle hi),issued,← List.append_assoc]
      by_cases hai : a = .inl i
      · subst hai
        simpa [Printer.issue,view] using happend _ ih
      · simpa [Printer.issue,hai] using ih
    | @env e s =>
      rw [(T.view m).history_visible rfl,issued,← List.append_assoc]
      cases he : T.actor e with
      | none => simpa [he] using ih
      | some b =>
        by_cases hab : a = .inr b
        · subst hab
          simpa [Printer.issue,view] using happend _ ih
        · simpa [Printer.issue,hab] using ih
    | threadPrints hp =>
      rw [(T.view m).history_silent (label_prints hp)]
      exact (hprints hp).trans ih
    | actorPrints hp =>
      rw [(T.view m).history_silent rfl]
      exact (hprints hp).trans ih

/-- To the lines and to the copy something is only added. -/
theorem grows_run (hr : Run (m.printing T) c h c') :
    c.shared.printer.lines <+: c'.shared.printer.lines ∧
      c.shared.printer.copy <+: c'.shared.printer.copy := by
  refine hr.always (P := fun c' => c.shared.printer.lines <+: c'.shared.printer.lines ∧
    c.shared.printer.copy <+: c'.shared.printer.copy) ⟨List.prefix_refl _,List.prefix_refl _⟩ ?_
  intro c₁ l c₂ hc hn
  cases step_cases hn with
  | thread => exact hc
  | @env e => cases he : T.actor e <;> exact hc
  | threadPrints hp | actorPrints hp =>
    cases Printer.step_cases hp with
    | puts => exact ⟨hc.1.trans (List.prefix_append _ _),hc.2⟩
    | fputs | fputc => exact ⟨hc.1,hc.2.trans (List.prefix_append _ _)⟩
    | skip | format | lock | unlock => exact hc

theorem lines_run (hr : Run (m.printing T) (T.start c₀ calls before) h c) :
    before <+: c.shared.printer.lines := (grows_run hr).1

/-- The new lines of an author that is idle are what it was told to log. -/
theorem lines_idle (hr : Run (m.printing T) (T.start c₀ calls before) h c) {a : ι ⊕ A}
    (ha : c.shared.printer.Idle a) : ((c.shared.printer.lines.drop before.length).filter
      fun x => x.author = a).map Printed.call =
        (calls a ++ T.issued a ((T.view m).history h)).filter T.passes := by
  have hs := said_run hr a
  obtain ⟨new,hl⟩ := lines_run hr
  rw [Printer.said,PrintAt.eq_outside ha.1,List.isEmpty_iff.mp ha.2,← hl] at hs
  rw [← hl,List.drop_left]
  simpa [PrintAt.pending] using hs

/-- What is left for the authors in a list before they are idle is only logging. -/
structure Flushed (T : Talk ι κ ε σ τ A ν θ γ) (m : Machine ι κ ε σ τ)
    (c c' : Config ι (Logged σ (ι ⊕ A) ν γ) τ) (as : List (ι ⊕ A)) : Prop where
  run : ∃ h, Run (m.printing T) c h c' ∧ ∀ e ∈ h, (T.view m).label e = none
  view : (T.view m).view c' = (T.view m).view c
  free : c'.shared.printer.mutex = none
  idle : ∀ a ∈ as, c'.shared.printer.Idle a
  kept : ∀ a, c.shared.printer.Idle a → c'.shared.printer.Idle a

theorem Flushed.trans {c'' : Config ι (Logged σ (ι ⊕ A) ν γ) τ} {as bs : List (ι ⊕ A)}
    (h : Flushed T m c c' as) (h' : Flushed T m c' c'' bs) : Flushed T m c c'' (as ++ bs) := by
  obtain ⟨h₁,hr₁,hl₁⟩ := h.run
  obtain ⟨h₂,hr₂,hl₂⟩ := h'.run
  refine ⟨⟨_,hr₁.append hr₂,fun e he => ?_⟩,h'.view.trans h.view,h'.free,fun a ha => ?_,
    fun a ha => h'.kept a (h.kept a ha)⟩
  · exact (List.mem_append.mp he).elim (hl₂ e) (hl₁ e)
  · exact (List.mem_append.mp ha).elim (fun ha => h'.kept a (h.idle a ha)) (h'.idle a)

theorem Flushed.of_append {as bs : List (ι ⊕ A)} (h : Flushed T m c c' (as ++ bs)) :
    Flushed T m c c' bs :=
  ⟨h.run,h.view,h.free,fun a ha => h.idle a (List.mem_append_right as ha),h.kept⟩

theorem Flushed.history_eq {as : List (ι ⊕ A)} (hf : Flushed T m c c' as) :
    ∃ h, Run (m.printing T) c h c' ∧ (T.view m).history h = [] := by
  obtain ⟨h,hr,hl⟩ := hf.run
  refine ⟨h,hr,List.filterMap_eq_nil_iff.mpr fun e he => ?_⟩
  simp [Simulation.event,hl e he]

variable [Nonempty (ι → κ)]

theorem steps_run {p : Printer (ι ⊕ A) ν γ} {o : θ} {a : ι ⊕ A}
    (hp : Printer.Steps T.passes T.copies T.newline (T.line ((T.view m).view c) o a) a
      c.shared.printer p) : ∃ h, Run (m.printing T) c h ⟨⟨c.shared.base,p⟩,c.locals⟩ ∧
      ∀ e ∈ h, (T.view m).label e = none := by
  obtain ⟨k⟩ := ‹Nonempty (ι → κ)›
  generalize hline : T.line ((T.view m).view c) o a = line at hp
  generalize hq : c.shared.printer = q at hp
  induction hp generalizing c with
  | refl =>
    rw [← hq]
    exact ⟨[],.start,fun e he => by cases he⟩
  | @step q q' q'' hs _ ih =>
    obtain ⟨h,hr,hl⟩ := ih (c := ⟨⟨c.shared.base,q'⟩,c.locals⟩) hline rfl
    rw [← hq,← hline] at hs
    cases a with
    | inl i =>
      have hn : (m.printing T).next c (.thread i (k i,o)) = some ⟨⟨c.shared.base,q'⟩,c.locals⟩ :=
        (StepCase.threadPrints hs).next
      refine ⟨_,(Run.step .start hn).append hr,fun e he => ?_⟩
      rcases List.mem_append.mp he with he | he
      · exact hl e he
      · rw [List.mem_singleton.mp he]
        exact label_prints hs
    | inr b =>
      have hn : (m.printing T).next c (.env (.inr (b,o))) =
          some ⟨⟨c.shared.base,q'⟩,c.locals⟩ := (StepCase.actorPrints hs).next
      refine ⟨_,(Run.step .start hn).append hr,fun e he => ?_⟩
      rcases List.mem_append.mp he with he | he
      · exact hl e he
      · rw [List.mem_singleton.mp he]
        rfl

variable [Nonempty θ]

/-- One author finishes its calls if nobody keeps it waiting. -/
theorem flush_one (hs : c.shared.printer.Sound T.copies T.newline) (a : ι ⊕ A)
    (hm : ∀ b, c.shared.printer.mutex = some b → b = a) :
    ∃ c', Flushed T m c c' [a] ∧ c'.shared.printer.Sound T.copies T.newline := by
  obtain ⟨o⟩ := ‹Nonempty θ›
  obtain ⟨p,hp,hn,hi⟩ := Printer.finishes (T.line ((T.view m).view c) o a) hs hm
  refine ⟨⟨⟨c.shared.base,p⟩,c.locals⟩,⟨steps_run hp,rfl,hn,?_,fun b hb => ?_⟩,hp.sound hs⟩
  · rintro b hb
    rw [List.mem_singleton.mp hb]
    exact hi
  · by_cases hba : b = a
    · exact hba ▸ hi
    · exact (hp.idle_of_ne hba).mpr hb

theorem flush (hs : c.shared.printer.Sound T.copies T.newline)
    (hm : c.shared.printer.mutex = none) (as : List (ι ⊕ A)) :
    ∃ c', Flushed T m c c' as ∧ c'.shared.printer.Sound T.copies T.newline := by
  induction as generalizing c with
  | nil =>
    exact ⟨c,⟨⟨[],.start,fun e he => by cases he⟩,rfl,hm,(fun a ha => by cases ha),
      fun a ha => ha⟩,hs⟩
  | cons a as ih =>
    obtain ⟨c₁,hf₁,hs₁⟩ := flush_one (m := m) hs a fun b hb => by
      rw [hm] at hb
      cases hb
    obtain ⟨c₂,hf₂,hs₂⟩ := ih hs₁ hf₁.free
    exact ⟨c₂,hf₁.trans hf₂,hs₂⟩

/-- Whoever has the mutex gives it back, and then the others can finish their calls. -/
theorem flush_any (hs : c.shared.printer.Sound T.copies T.newline) (as : List (ι ⊕ A)) :
    ∃ c', Flushed T m c c' as ∧ c'.shared.printer.Sound T.copies T.newline := by
  cases hm : c.shared.printer.mutex with
  | none => exact flush hs hm as
  | some a =>
    obtain ⟨c₁,hf₁,hs₁⟩ := flush_one (m := m) hs a fun b hb => by
      rw [hm] at hb
      exact (Option.some.inj hb).symm
    obtain ⟨c₂,hf₂,hs₂⟩ := flush (m := m) hs₁ hf₁.free as
    exact ⟨c₂,(hf₁.trans hf₂).of_append,hs₂⟩

/-- What the machine below can do it can do with its log, whose calls are made in time. -/
theorem lift_run (hs : c.shared.printer.Sound T.copies T.newline)
    (hm : c.shared.printer.mutex = none) {h₁ : List (Event ι κ ε σ τ)} {c₁ : Config ι σ τ}
    (hr : Run m ((T.view m).view c) h₁ c₁) : ∃ h' c', Run (m.printing T) c h' c' ∧
      (T.view m).history h' = h₁ ∧ (T.view m).view c' = c₁ ∧
      c'.shared.printer.Sound T.copies T.newline ∧ c'.shared.printer.mutex = none := by
  obtain ⟨o⟩ := ‹Nonempty θ›
  induction hr with
  | start => exact ⟨[],c,.start,rfl,rfl,hs,hm⟩
  | @step h₁ c₁ c₃ l _ hn ih =>
    obtain ⟨h₂,c₂,hr₂,rfl,rfl,hs₂,hm₂⟩ := ih
    -- those who have to finish their calls do so, and then the step is made
    have hflush : ∀ (as : List (ι ⊕ A)) (l' : Label ι (κ × θ) (ε ⊕ A × θ)), (∀ x,
        Flushed T m c₂ x as → ∃ x', (m.printing T).next x l' = some x' ∧
          (T.view m).label (x,l') = some l ∧ x'.shared.printer.mutex = x.shared.printer.mutex) →
        ∃ h' c', Run (m.printing T) c h' c' ∧
          (T.view m).history h' = ((T.view m).view c₂,l) :: (T.view m).history h₂ ∧
          m.next ((T.view m).view c₂) l = some ((T.view m).view c') ∧
          c'.shared.printer.Sound T.copies T.newline ∧ c'.shared.printer.mutex = none := by
      intro as l' hstep
      obtain ⟨x,hf,hsx⟩ := flush (m := m) hs₂ hm₂ as
      obtain ⟨h₃,hr₃,hh₃⟩ := hf.history_eq
      obtain ⟨x',hn',hl',hmx⟩ := hstep x hf
      refine ⟨_,x',(hr₂.append hr₃).step hn',?_,hf.view ▸ (T.view m).visible hn' hl',
        sound_next hsx hn',hmx.trans hf.free⟩
      rw [(T.view m).history_visible hl',hf.view,(T.view m).history_append,hh₃,List.nil_append]
    obtain ⟨h',c',hr',hh',hn',hs',hm'⟩ : ∃ h' c', Run (m.printing T) c h' c' ∧
        (T.view m).history h' = ((T.view m).view c₂,l) :: (T.view m).history h₂ ∧
        m.next ((T.view m).view c₂) l = some ((T.view m).view c') ∧
        c'.shared.printer.Sound T.copies T.newline ∧ c'.shared.printer.mutex = none := by
      cases l with
      | thread i k =>
        refine hflush [.inl i] (.thread i (k,o)) fun x hf => ?_
        have hi := hf.idle (.inl i) (List.mem_singleton_self _)
        rw [← hf.view] at hn
        obtain ⟨s,t,ha,-⟩ := Machine.next_thread.mp hn
        exact ⟨_,(StepCase.thread hi ha).next,label_idle hi,rfl⟩
      | env e =>
        refine hflush (T.awaits e c₂.shared.base) (.env (.inl e)) fun x hf => ?_
        have hb : x.shared.base = c₂.shared.base := congrArg Config.shared hf.view
        rw [← hf.view] at hn
        obtain ⟨s,he,-⟩ := Machine.next_env.mp hn
        refine ⟨_,(StepCase.env (hb ▸ hf.idle) he).next,rfl,?_⟩
        cases T.actor e <;> rfl
    exact ⟨h',c',hr',hh',Option.some.inj (hn'.symm.trans hn),hs',hm'⟩

/-- Wherever the authors are in their calls, the machine can go on as it could without its log,
and all calls can be completed. -/
theorem continues (hs : c.shared.printer.Sound T.copies T.newline) (as : List (ι ⊕ A))
    {h₁ : List (Event ι κ ε σ τ)} {c₁ : Config ι σ τ} (hr : Run m ((T.view m).view c) h₁ c₁) :
    ∃ h' c', Run (m.printing T) c h' c' ∧ (T.view m).history h' = h₁ ∧ (T.view m).view c' = c₁ ∧
      c'.shared.printer.mutex = none ∧ ∀ a ∈ as, c'.shared.printer.Idle a := by
  obtain ⟨c₂,hf₂,hs₂⟩ := flush_any (m := m) hs []
  obtain ⟨h₂,hr₂,hh₂⟩ := hf₂.history_eq
  obtain ⟨h₃,c₃,hr₃,hh₃,hv₃,hs₃,hm₃⟩ := lift_run (m := m) hs₂ hf₂.free (hf₂.view ▸ hr)
  obtain ⟨c₄,hf₄,-⟩ := flush (m := m) hs₃ hm₃ as
  obtain ⟨h₄,hr₄,hh₄⟩ := hf₄.history_eq
  refine ⟨_,c₄,(hr₂.append hr₃).append hr₄,?_,hf₄.view.trans hv₃,hf₄.free,hf₄.idle⟩
  rw [(T.view m).history_append,(T.view m).history_append,hh₂,hh₃,hh₄,List.append_nil,
    List.nil_append]

end

end Talk

end Interleaving
