import ReadersWriters.FairMorrisProgress
import ReadersWriters.Interleaving.Ledger
set_option autoImplicit false

namespace ReadersWriters.FairMorrisLock
open Interleaving

section
variable {ι : Type}

/-- A thread that an unlock took out of its queue and that has yet to take `mtx_` back. -/
def Woken (s : Shared ι) (j : ι) (t : Thread) : Prop :=
  t = reading .lockCondWait ∧ j ∉ s.readCond ∨ t = writing .lockCondWait ∧ j ∉ s.writeCond

/-- The step wakes a writer with `pthread_cond_signal`. -/
def signals (s : Shared ι) : Thread → Bool
  | .reader (.inside .unlockNotify) => s.waitingWriters > 0
  | .writer (.inside .unlockNotify) => !(s.waitingReaders > 0) && s.waitingWriters > 0
  | _ => false

instance [DecidableEq ι] (s : Shared ι) (j : ι) (t : Thread) : Decidable (Woken s j t) :=
  inferInstanceAs (Decidable (_ ∨ _))

/-- A step under the kindest scheduling: no spurious wake-up, a woken thread takes `mtx_`
before one that arrives, and a signal wakes the longest asleep. -/
def Favourable (e : Event ι ι ι (Shared ι) Thread) : Prop :=
  match e.2 with
  | .env _ => False
  | .thread i w =>
    (e.1.locals i ∈ [reading .lockMutexLock,writing .lockMutexLock] →
      ∀ k, ¬ Woken e.1.shared k (e.1.locals k)) ∧
    (signals e.1.shared (e.1.locals i) = true → ∀ v ∈ e.1.shared.writeCond.head?, w = v)

instance [DecidableEq ι] [Fintype ι] : (e : Event ι ι ι (Shared ι) Thread) →
    Decidable (Favourable e)
  | (_,.env _) => .isFalse id
  | (c,.thread i w) => inferInstanceAs (Decidable ((c.locals i ∈ _ → ∀ k, ¬ Woken c.shared k _) ∧
      (signals c.shared (c.locals i) = true → ∀ v ∈ c.shared.writeCond.head?, w = v)))

/-- A call issues a request. It goes to sleep when the test of the loop fails, and is
admitted when it is counted in `activeReaders_` or stored in `activeWriter_`. -/
def mark (e : Event ι ι ι (Shared ι) Thread) : Option (ι × Mark) :=
  match e.2 with
  | .env _ => none
  | .thread i _ => match e.1.locals i with
    | .reader .idle | .writer .idle => some (i,.issue)
    | .reader (.inside .lockTest) | .reader (.inside .lockRetest) =>
        if e.1.shared.activeWriter ∨ e.1.shared.waitingWriters > 0 then some (i,.sleep) else none
    | .writer (.inside .lockTest) | .writer (.inside .lockRetest) =>
        if e.1.shared.activeReaders > 0 ∨ e.1.shared.activeWriter then some (i,.sleep) else none
    | .reader (.inside .lockFetchAdd) | .writer (.inside .lockStore) => some (i,.enter)
    | _ => none

theorem mark_enter {i : ι} {e : Event ι ι ι (Shared ι) Thread} (h : mark e = some (i,.enter)) :
    e.1.locals i = reading .lockFetchAdd ∨ e.1.locals i = writing .lockStore := by
  obtain ⟨c,⟨j,w⟩ | ⟨e⟩⟩ := e
  · simp only [mark] at h
    split at h
    case h_7 ht =>
      cases h
      exact .inl ht
    case h_8 ht =>
      cases h
      exact .inr ht
    case h_1 | h_2 | h_9 => cases h
    all_goals split at h <;> cases h
  · cases h

/-- At least one of the two requests is a writer's. -/
def conflict (isWriter : ι → Bool) (k j : ι) : Bool := isWriter k || isWriter j

end

def asleep : List Thread := [reading .lockCondWait,writing .lockCondWait]

def arriving : List Thread := [reading .lockTest,writing .lockTest]

def deciding : List Thread := [reading .unlockNotify,writing .unlockNotify]

/-- From the first sleep of a request to its admission. -/
def waiting : List Thread := [reading .lockCondWait,reading .lockWake,reading .lockRetest,
  reading .lockFetchAdd,writing .lockCondWait,writing .lockWake,writing .lockRetest,
  writing .lockStore]

/-- The places with `mtx_` held. -/
def critical : List Thread := places .mutex ++ places .fetchAdd ++ places .store

/-- Writers between their wake-up, or their first test, and the lock. -/
def heirs : List Thread := [writing .lockWake,writing .lockRetest,writing .lockStore]

/-- Readers between their wake-up and the test. -/
def waves : List Thread := [reading .lockWake,reading .lockRetest]

theorem asleep_waiting : asleep ⊆ waiting := by decide
theorem heirs_waiting : heirs ⊆ waiting := by decide
theorem waves_waiting : waves ⊆ waiting := by decide
theorem heirs_critical : heirs ⊆ critical := by decide
theorem waves_critical : waves ⊆ critical := by decide
theorem arriving_critical : arriving ⊆ critical := by decide
theorem deciding_critical : deciding ⊆ critical := by decide

def Heir {ι : Type} (s : Shared ι) (j : ι) (t : Thread) : Prop :=
  t ∈ heirs ∨ t = writing .lockCondWait ∧ j ∉ s.writeCond

def Wave {ι : Type} (s : Shared ι) (j : ι) (t : Thread) : Prop :=
  t ∈ waves ∨ t = reading .lockCondWait ∧ j ∉ s.readCond

/-- Who is next while every wake-up reaches somebody who can enter: a writer that is awake
was asleep before all that still are, readers are awake only with no writer waiting, and
while no writer holds the lock a sleeping reader has a writer before it. -/
structure Orderly {ι : Type} (g : Ledger ι) (c : Config ι (Shared ι) Thread) : Prop where
  sound : g.Sound
  slept : ∀ k, g.slept k = true → c.locals k ∈ waiting
  heirFree : ∀ i, Heir c.shared i (c.locals i) → Free c.shared
  heirAlone : ∀ i k, i ≠ k → Heir c.shared i (c.locals i) → ¬ Woken c.shared k (c.locals k)
  heirFirst : ∀ i k, i ≠ k → Heir c.shared i (c.locals i) → c.locals k ∈ asleep →
    g.later k i = false
  wave : ∀ k, Wave c.shared k (c.locals k) →
    c.shared.activeWriter = false ∧ ∀ j, c.locals j ≠ writing .lockCondWait
  arrival : ∀ i k, c.locals i ∈ arriving → ¬ Woken c.shared k (c.locals k)
  decision : ∀ i, c.locals i ∈ deciding → Free c.shared ∧
    ∀ k, c.locals k = writing .lockCondWait → k ∈ c.shared.writeCond
  queue : c.shared.writeCond.Pairwise fun a b => g.later b a = false
  led : c.shared.activeWriter = false → ∀ k ∈ c.shared.readCond,
    (∃ j, Heir c.shared j (c.locals j) ∨ c.locals j = writing .unlockNotify) ∨
      ∃ v ∈ c.shared.writeCond.head?, g.later k v = false

section
variable {ι : Type} {g : Ledger ι} {c : Config ι (Shared ι) Thread} {i : ι}

theorem not_slept (hO : Orderly g c) (hi : c.locals i ∉ waiting) : g.slept i = false := by
  by_contra hs
  exact hi (hO.slept i (by simpa using hs))

/-- A step without a mark leaves the ledger as it is. -/
theorem orderly_unmarked [DecidableEq ι] (isWriter : ι → Bool)
    {e : Event ι ι ι (Shared ι) Thread} (hm : mark e = none) (hO : Orderly g c) :
    Orderly ((mark e).elim g (g.note (conflict isWriter))) c := by
  rwa [hm]

/-- A favourable signal goes to the head of the queue. -/
theorem signal_head {w : ι} (hv : Favourable (c,.thread i w))
    (hs : signals c.shared (c.locals i) = true) (hw : w ∈ c.shared.writeCond) :
    c.shared.writeCond.head? = some w := by
  obtain ⟨v,hh⟩ : ∃ v, c.shared.writeCond.head? = some v :=
    ⟨_,List.head?_eq_some_head (List.ne_nil_of_mem hw)⟩
  rw [hh,hv.2 hs v hh]

/-- A waiting writer that is not asleep is awake. -/
theorem awake_waiting {j : ι} (hp : Pending c.shared j (c.locals j))
    (hj : c.locals j ∈ places .waitingWriter) : Heir c.shared j (c.locals j) := by
  simp only [places,List.mem_cons,List.not_mem_nil,or_false] at hj
  rcases hj with hj | hj
  · exact .inr (hp.resolve_left (by rw [hj]; decide))
  · exact .inl (by rw [hj]; decide)

variable [Fintype ι]

/-- One thread at most holds `mtx_`. -/
theorem alone (hI : Counted c) {j : ι} (hi : c.locals i ∈ critical)
    (hj : c.locals j ∈ critical) : i=j := by
  have hm := hI.mutex
  have hl := Bool.toNat_le c.shared.mtx.locked
  simp only [critical,List.mem_append] at hi hj
  rcases hi with (hi | hi) | hi <;> rcases hj with (hj | hj) | hj
  case inl.inl.inl.inl | inl.inr.inl.inr | inr.inr =>
    exact headcount_unique (by omega) hi hj
  all_goals
    have hp := headcount_pos hi
    have hq := headcount_pos hj
    omega

/-- Next to a thread with `mtx_` the other writers that are awake are just woken. -/
theorem heir_away (hI : Counted c) (hi : c.locals i ∈ critical) (hh : c.locals i ∉ heirs) {j : ι}
    (hj : Heir c.shared j (c.locals j)) :
    c.locals j = writing .lockCondWait ∧ j ∉ c.shared.writeCond := by
  refine hj.resolve_left fun hj => hh ?_
  rwa [alone hI hi (heirs_critical hj)]

theorem wave_away (hI : Counted c) (hi : c.locals i ∈ critical) (hh : c.locals i ∉ waves) {j : ι}
    (hj : Wave c.shared j (c.locals j)) :
    c.locals j = reading .lockCondWait ∧ j ∉ c.shared.readCond := by
  refine hj.resolve_left fun hj => hh ?_
  rwa [alone hI hi (waves_critical hj)]

/-- While a thread makes its first test nobody is awake before it. -/
theorem quiet_arrival (hI : Counted c) (hO : Orderly g c) (hi : c.locals i ∈ arriving) (j : ι) :
    ¬ Heir c.shared j (c.locals j) ∧ ¬ Wave c.shared j (c.locals j) := by
  have hc := arriving_critical hi
  refine ⟨fun hj => ?_,fun hj => ?_⟩
  · have hh := (by decide : ∀ p ∈ arriving,p ∉ heirs) _ hi
    exact hO.arrival i j hi (.inr (heir_away hI hc hh hj))
  · have hv := (by decide : ∀ p ∈ arriving,p ∉ waves) _ hi
    exact hO.arrival i j hi (.inl (wave_away hI hc hv hj))

theorem quiet_decision (hI : Counted c) (hO : Orderly g c) (hi : c.locals i ∈ deciding) (j : ι) :
    ¬ Heir c.shared j (c.locals j) := by
  intro hj
  have hh := (by decide : ∀ p ∈ deciding,p ∉ heirs) _ hi
  obtain ⟨hj,hq⟩ := heir_away hI (deciding_critical hi) hh hj
  exact hq ((hO.decision i hi).2 j hj)

/-- With the lock decided on by thread `i`, a sleeping reader has a woken writer or a
sleeping one before it. -/
theorem led_critical (hI : Counted c) (hO : Orderly g c) (hi : c.locals i ∈ critical)
    (hh : c.locals i ∉ heirs) (hn : c.locals i ≠ writing .unlockNotify)
    (ha : c.shared.activeWriter = false) {k : ι} (hk : k ∈ c.shared.readCond) :
    (∃ j, c.locals j = writing .lockCondWait ∧ j ∉ c.shared.writeCond) ∨
      ∃ v ∈ c.shared.writeCond.head?, g.later k v = false := by
  refine (hO.led ha k hk).imp_left ?_
  rintro ⟨j,hj | hj⟩
  · exact ⟨j,heir_away hI hi hh hj⟩
  · have hji := alone hI (i := j) (by rw [hj]; decide) hi
    exact absurd (hji ▸ hj) hn

/-- An admitted reader is counted, and no writer holds the lock. -/
theorem owned_reader (hI : Counted c) (hi : c.locals i ∈ places .activeReader) :
    0 < c.shared.activeReaders ∧ c.shared.activeWriter = false := by
  have hp := headcount_pos hi
  have hr := hI.readers
  have hw := hI.writers
  have he := hI.exclusive
  exact ⟨by omega,Bool.toNat_eq_zero.mp (by omega)⟩

theorem owned_writer (hI : Counted c) (hi : c.locals i ∈ places .activeWriter) :
    c.shared.activeReaders = 0 ∧ c.shared.activeWriter = true := by
  have hp := headcount_pos hi
  have hr := hI.readers
  have hw := hI.writers
  have he := hI.exclusive
  refine ⟨by omega,?_⟩
  by_contra ha
  simp only [Bool.not_eq_true] at ha
  simp only [ha,Bool.toNat_false] at hw
  omega

/-- Whoever is admitted overtakes nobody: a writer comes before all that sleep, and a
reader is admitted with no writer waiting. -/
theorem no_overtaking (hI : Counted c) (hO : Orderly g c)
    {isWriter : ι → Bool} (hR : ∀ k, (c.locals k).isWriter = isWriter k)
    (hi : c.locals i = reading .lockFetchAdd ∨ c.locals i = writing .lockStore) {k : ι}
    (hk : g.later k i = true) : conflict isWriter k i = false := by
  obtain ⟨hs,hki⟩ := hO.sound k i hk
  have hw := hO.slept k hs
  rcases hi with hi | hi
  · obtain ⟨-,hW⟩ := hI.fetchAdd.resolve_left
      (headcount_pos (L := places .fetchAdd) (i := i) (by rw [hi]; decide)).ne'
    have hk' : isWriter k = false := by
      by_contra hk'
      rw [← hR,Bool.not_eq_false] at hk'
      have hc : c.locals k ∈ places .waitingWriter ∨ c.locals k ∈ critical :=
        (by decide : ∀ t ∈ waiting,t.isWriter = true → t ∈ places .waitingWriter ∨ t ∈ critical) _ hw
          hk'
      rcases hc with hc | hc
      · exact headcount_eq_zero.mp hW k hc
      · exact hki (alone hI hc (by rw [hi]; decide))
    have hi' : isWriter i = false := by rw [← hR,hi]; rfl
    simp [conflict,hk',hi']
  · have hc : c.locals k ∈ asleep ∨ c.locals k ∈ critical :=
      (by decide : ∀ t ∈ waiting,t ∈ asleep ∨ t ∈ critical) _ hw
    rcases hc with hc | hc
    · rw [hO.heirFirst i k hki.symm (.inl (by rw [hi]; decide)) hc] at hk
      cases hk
    · exact absurd (alone hI hc (by rw [hi]; decide)) hki

/-- A change of the ledger alone. Requests of threads outside the lock are new. -/
theorem orderly_ledger {g' : Ledger ι} (hI : Inv c) (hO : Orderly g c) (hg : g'.Sound)
    (hs : ∀ k, g'.slept k = true → c.locals k ∈ waiting)
    (hl : ∀ k j, g'.later k j = true →
      g.later k j = true ∨ c.locals j ∈ [.reader .idle,.writer .idle]) : Orderly g' c := by
  have hn : ∀ k j, g.later k j = false → c.locals j ∉ [.reader .idle,.writer .idle] →
      g'.later k j = false := by
    intro k j hf hj
    by_contra ht
    rcases hl k j (by simpa using ht) with h | h
    · simp [hf] at h
    · exact hj h
  have hq : ∀ v ∈ c.shared.writeCond, c.locals v ∉ [.reader .idle,.writer .idle] := by
    intro v hv
    rw [hI.writers.asleep v hv]
    decide
  refine ⟨hg,hs,hO.heirFree,hO.heirAlone,?_,hO.wave,hO.arrival,hO.decision,?_,?_⟩
  · intro i k hik hi hk
    refine hn k i (hO.heirFirst i k hik hi hk) ?_
    rcases hi with hi | ⟨hi,-⟩
    · exact (by decide : ∀ p ∈ heirs,p ∉ [.reader .idle,.writer .idle]) _ hi
    · rw [hi]
      decide
  · exact hO.queue.imp_of_mem fun ha _ h => hn _ _ h (hq _ ha)
  · intro ha k hk
    refine (hO.led ha k hk).imp_right fun ⟨v,hv,h⟩ => ⟨v,hv,hn _ _ h (hq v ?_)⟩
    exact List.mem_of_mem_head? hv

end

section
variable {ι : Type} [DecidableEq ι] {g : Ledger ι} {c : Config ι (Shared ι) Thread} {i : ι}
  {s' : Shared ι} {t' : Thread}

/-- A step that changes neither the queues nor who owns the lock. -/
theorem orderly_move (hO : Orderly g c) (hr : s'.readCond = c.shared.readCond)
    (hw : s'.writeCond = c.shared.writeCond) (ha : s'.activeWriter = c.shared.activeWriter)
    (hf : Free c.shared → Free s') (hh : Heir s' i t' ↔ Heir c.shared i (c.locals i))
    (hv : Wave s' i t' → Wave c.shared i (c.locals i)) (hs : t' ∉ asleep)
    (hn : t' ∈ arriving → ∀ k, ¬ Woken c.shared k (c.locals k))
    (hd : t' ∉ deciding) (hd' : c.locals i ∉ deciding)
    (hg : g.slept i = true → t' ∈ waiting) :
    Orderly g ⟨s',Function.update c.locals i t'⟩ := by
  have heir : ∀ j, Heir s' j (Function.update c.locals i t' j) ↔ Heir c.shared j (c.locals j) := by
    intro j
    by_cases hji : j = i
    · subst hji
      simpa only [Function.update_self] using hh
    · simp only [Function.update_of_ne hji,Heir,hw]
  have sleeps : ∀ j t, t ∈ asleep → Function.update c.locals i t' j = t → c.locals j = t := by
    intro j t ht hj
    by_cases hji : j = i
    · subst hji
      rw [Function.update_self] at hj
      exact absurd (hj ▸ ht) hs
    · rwa [Function.update_of_ne hji] at hj
  have woken : ∀ j, Woken s' j (Function.update c.locals i t' j) → Woken c.shared j (c.locals j) := by
    simp only [Woken,hr,hw]
    exact fun j => Or.imp (And.imp_left (sleeps j _ (by decide)))
      (And.imp_left (sleeps j _ (by decide)))
  constructor
  case sound => exact hO.sound
  case slept =>
    intro k hk
    by_cases hki : k = i
    · subst hki
      simpa only [Function.update_self] using hg hk
    · simpa only [Function.update_of_ne hki] using hO.slept k hk
  case heirFree => exact fun j hj => hf (hO.heirFree j ((heir j).mp hj))
  case heirAlone => exact fun j k hjk hj hk => hO.heirAlone j k hjk ((heir j).mp hj) (woken k hk)
  case heirFirst =>
    exact fun j k hjk hj hk => hO.heirFirst j k hjk ((heir j).mp hj) (sleeps k _ hk rfl ▸ hk)
  case wave =>
    intro k hk
    have hk : Wave c.shared k (c.locals k) := by
      by_cases hki : k = i
      · subst hki
        exact hv (by simpa only [Function.update_self] using hk)
      · simpa only [Function.update_of_ne hki,Wave,hr] using hk
    obtain ⟨h₁,h₂⟩ := hO.wave k hk
    exact ⟨ha.trans h₁,fun j hj => h₂ j (sleeps j _ (by decide) hj)⟩
  case arrival =>
    intro j k hj hk
    by_cases hji : j = i
    · subst hji
      exact hn (by simpa only [Function.update_self] using hj) k (woken k hk)
    · exact hO.arrival j k (by simpa only [Function.update_of_ne hji] using hj) (woken k hk)
  case decision =>
    intro j hj
    by_cases hji : j = i
    · subst hji
      exact absurd (by simpa only [Function.update_self] using hj) hd
    · obtain ⟨h₁,h₂⟩ := hO.decision j (by simpa only [Function.update_of_ne hji] using hj)
      exact ⟨hf h₁,fun k hk => hw ▸ h₂ k (sleeps k _ (by decide) hk)⟩
  case queue => exact hw ▸ hO.queue
  case led =>
    intro h k hk
    have hl := hO.led (ha ▸ h) k (hr ▸ hk)
    simp only [heir,hw]
    refine hl.imp_left fun ⟨j,hj⟩ => ⟨j,hj.imp_right fun hj => ?_⟩
    have hji : j ≠ i := fun he => hd' (by rw [← he,hj]; decide)
    rwa [Function.update_of_ne hji]

/-- A step of a thread that neither sleeps nor decides, is awake before it if it is after
it, and waits after it if it did before. -/
def Plain (t t' : Thread) : Prop :=
  (t' ∈ heirs ↔ t ∈ heirs) ∧ (t' ∈ waves → t ∈ waves) ∧ (t ∈ waiting → t' ∈ waiting) ∧
    t ∉ asleep ++ deciding ∧ t' ∉ asleep ++ deciding

instance (t t' : Thread) : Decidable (Plain t t') := inferInstanceAs (Decidable (_ ∧ _))

theorem orderly_plain {t : Thread} (hO : Orderly g c) (ht : c.locals i = t) (hp : Plain t t')
    (hr : s'.readCond = c.shared.readCond) (hw : s'.writeCond = c.shared.writeCond)
    (ha : s'.activeWriter = c.shared.activeWriter) (hf : Free c.shared → Free s')
    (hn : t' ∈ arriving → ∀ k, ¬ Woken c.shared k (c.locals k)) :
    Orderly g ⟨s',Function.update c.locals i t'⟩ := by
  obtain ⟨hh,hv,hg,hs,hs'⟩ := hp
  simp only [List.mem_append,not_or] at hs hs'
  have cond : ∀ p ∈ asleep,t ≠ p ∧ t' ≠ p :=
    fun p hp => ⟨fun h => hs.1 (h ▸ hp),fun h => hs'.1 (h ▸ hp)⟩
  obtain ⟨h₁,h₁'⟩ := cond (writing .lockCondWait) (by decide)
  obtain ⟨-,h₂'⟩ := cond (reading .lockCondWait) (by decide)
  refine orderly_move hO hr hw ha hf ?_ ?_ hs'.1 hn hs'.2 (ht ▸ hs.2) ?_
  · simp only [Heir,ht,hh,h₁,h₁',false_and]
  · simp only [Wave,ht,h₂',false_and,or_false]
    exact fun h => .inl (hv h)
  · exact fun h => hg (ht ▸ hO.slept i h)

theorem orderly_fresh (isWriter : ι → Bool) : Orderly {} ((lock ι).fresh isWriter) := by
  have out : ∀ L : List Thread, .reader .idle ∉ L → .writer .idle ∉ L →
      ∀ i, ((lock ι).fresh isWriter).locals i ∉ L := by
    intro L hr hw i
    simp only [RWLockBase.fresh]
    split
    · exact hw
    · exact hr
  have cond : ∀ i p, p ∈ asleep → ((lock ι).fresh isWriter).locals i ≠ p :=
    fun i p hp h => out asleep (by decide) (by decide) i (h ▸ hp)
  have heir : ∀ i, ¬ Heir (lock ι).init i (((lock ι).fresh isWriter).locals i) := by
    rintro i (hi | ⟨hi,-⟩)
    · exact out heirs (by decide) (by decide) i hi
    · exact cond i _ (by decide) hi
  constructor
  case sound => exact fun _ _ h => by cases h
  case slept => exact fun _ h => by cases h
  case heirFree => exact fun i hi => absurd hi (heir i)
  case heirAlone => exact fun i _ _ hi => absurd hi (heir i)
  case heirFirst => exact fun i _ _ hi => absurd hi (heir i)
  case wave =>
    rintro k (hk | ⟨hk,-⟩)
    · exact absurd hk (out waves (by decide) (by decide) k)
    · exact absurd hk (cond k _ (by decide))
  case arrival => exact fun i _ hi => absurd hi (out arriving (by decide) (by decide) i)
  case decision => exact fun i hi => absurd hi (out deciding (by decide) (by decide) i)
  case queue => exact .nil
  case led => exact fun _ k hk => absurd hk List.not_mem_nil

variable [Fintype ι] (isWriter : ι → Bool)

/-- The thread with `mtx_` leaves its place for one where it neither waits nor arrives. What
the others do then depends on the queues alone. -/
theorem orderly_critical (hI : Counted c) (hO : Orderly g c) (hi : c.locals i ∈ critical)
    (ht : t' ∉ waiting ++ arriving) (hg : g.slept i = false)
    (hw : List.Sublist s'.writeCond c.shared.writeCond)
    (heir : ∀ j, c.locals j = writing .lockCondWait → j ∉ s'.writeCond → Free s' ∧
      ∀ k, k ≠ j → c.locals k ∈ asleep → ¬ Woken s' k (c.locals k) ∧ g.later k j = false)
    (wave : ∀ k, c.locals k = reading .lockCondWait → k ∉ s'.readCond →
      s'.activeWriter = false ∧ ∀ j, c.locals j ≠ writing .lockCondWait)
    (dec : t' ∈ deciding → Free s' ∧ ∀ k, c.locals k = writing .lockCondWait → k ∈ s'.writeCond)
    (led : s'.activeWriter = false → ∀ k ∈ s'.readCond, t' = writing .unlockNotify ∨
      (∃ j, c.locals j = writing .lockCondWait ∧ j ∉ s'.writeCond) ∨
      ∃ v ∈ s'.writeCond.head?, g.later k v = false) :
    Orderly g ⟨s',Function.update c.locals i t'⟩ := by
  have other : ∀ j, Function.update c.locals i t' j ∈ waiting ++ arriving →
      j ≠ i ∧ Function.update c.locals i t' j = c.locals j := by
    intro j hj
    by_cases hji : j = i
    · subst hji
      rw [Function.update_self] at hj
      exact absurd hj ht
    · exact ⟨hji,Function.update_of_ne hji ..⟩
  have away : ∀ j, j ≠ i → c.locals j ∉ critical := fun j hji hj => hji (alone hI hj hi)
  have cond : ∀ j p, p ∈ asleep → Function.update c.locals i t' j = p → c.locals j = p := by
    intro j p hp hj
    exact (other j (hj ▸ List.mem_append_left _ (asleep_waiting hp))).2 ▸ hj
  have woken : ∀ j, Woken s' j (Function.update c.locals i t' j) → Woken s' j (c.locals j) :=
    fun j => Or.imp (And.imp_left (cond j _ (by decide))) (And.imp_left (cond j _ (by decide)))
  have heirs : ∀ j, Heir s' j (Function.update c.locals i t' j) →
      c.locals j = writing .lockCondWait ∧ j ∉ s'.writeCond := by
    rintro j (hj | ⟨hj,hq⟩)
    · obtain ⟨hji,he⟩ := other j (List.mem_append_left _ (heirs_waiting hj))
      exact absurd (heirs_critical (he ▸ hj)) (away j hji)
    · exact ⟨cond j _ (by decide) hj,hq⟩
  have waves : ∀ k, Wave s' k (Function.update c.locals i t' k) →
      c.locals k = reading .lockCondWait ∧ k ∉ s'.readCond := by
    rintro k (hk | ⟨hk,hq⟩)
    · obtain ⟨hki,he⟩ := other k (List.mem_append_left _ (waves_waiting hk))
      exact absurd (waves_critical (he ▸ hk)) (away k hki)
    · exact ⟨cond k _ (by decide) hk,hq⟩
  constructor
  case sound => exact hO.sound
  case slept =>
    intro k hk
    have hki : k ≠ i := fun he => by simp [he,hg] at hk
    simpa only [Function.update_of_ne hki] using hO.slept k hk
  case heirFree => exact fun j hj => (heir j (heirs j hj).1 (heirs j hj).2).1
  case heirAlone =>
    intro j k hjk hj hk
    have hk := woken k hk
    have hs : c.locals k ∈ asleep := by
      rcases hk with ⟨hk,-⟩ | ⟨hk,-⟩ <;> rw [hk] <;> decide
    exact ((heir j (heirs j hj).1 (heirs j hj).2).2 k hjk.symm hs).1 hk
  case heirFirst =>
    intro j k hjk hj hk
    exact ((heir j (heirs j hj).1 (heirs j hj).2).2 k hjk.symm (cond k _ hk rfl ▸ hk)).2
  case wave =>
    intro k hk
    obtain ⟨h₁,h₂⟩ := wave k (waves k hk).1 (waves k hk).2
    exact ⟨h₁,fun j hj => h₂ j (cond j _ (by decide) hj)⟩
  case arrival =>
    intro j _ hj _
    obtain ⟨hji,he⟩ := other j (List.mem_append_right _ hj)
    simp only [he] at hj
    exact away j hji (arriving_critical hj)
  case decision =>
    intro j hj
    by_cases hji : j = i
    · subst hji
      obtain ⟨h₁,h₂⟩ := dec (by simpa only [Function.update_self] using hj)
      exact ⟨h₁,fun k hk => h₂ k (cond k _ (by decide) hk)⟩
    · simp only [Function.update_of_ne hji] at hj
      exact absurd (deciding_critical hj) (away j hji)
  case queue => exact hO.queue.sublist hw
  case led =>
    intro ha k hk
    rcases led ha k hk with h | ⟨j,hj,hq⟩ | h
    · exact .inl ⟨i,.inr (by simpa only [Function.update_self] using h)⟩
    · have hji : j ≠ i := fun he => by
        rw [← he,hj] at hi
        exact absurd hi (by decide)
      exact .inl ⟨j,.inl (.inr ⟨by simpa only [Function.update_of_ne hji] using hj,hq⟩)⟩
    · exact .inr h

/-- An arriving thread goes to sleep. -/
theorem orderly_sleep (hI : Counted c) (hO : Orderly g c) (hi : c.locals i ∈ arriving)
    (ht : t' ∈ asleep) (hn : ¬ Woken s' i t') (hr : c.shared.readCond ⊆ s'.readCond)
    (hw : c.shared.writeCond ⊆ s'.writeCond)
    (queue : s'.writeCond.Pairwise fun a b => g.later b a = false)
    (led : s'.activeWriter = false → ∀ k ∈ s'.readCond,
      ∃ v ∈ s'.writeCond.head?, g.later k v = false) :
    Orderly (g.note (conflict isWriter) (i,.sleep)) ⟨s',Function.update c.locals i t'⟩ := by
  have away : ∀ j, j ≠ i → c.locals j ∉ critical :=
    fun j hji hj => hji (alone hI hj (arriving_critical hi))
  have held : ∀ j, Function.update c.locals i t' j ∉ critical := by
    intro j hj
    by_cases hji : j = i
    · subst hji
      rw [Function.update_self] at hj
      exact (by decide : ∀ p ∈ asleep,p ∉ critical) _ ht hj
    · exact away j hji (by simpa only [Function.update_of_ne hji] using hj)
  have woken : ∀ j, ¬ Woken s' j (Function.update c.locals i t' j) := by
    intro j hj
    by_cases hji : j = i
    · subst hji
      exact hn (by simpa only [Function.update_self] using hj)
    · rw [Function.update_of_ne hji] at hj
      exact hO.arrival i j hi (hj.imp (And.imp_right (mt (@hr _))) (And.imp_right (mt (@hw _))))
  have heir : ∀ j, ¬ Heir s' j (Function.update c.locals i t' j) := by
    rintro j (hj | hj)
    · exact held j (heirs_critical hj)
    · exact woken j (.inr hj)
  constructor
  case sound => exact hO.sound.note _
  case slept =>
    intro k hk
    by_cases hki : k = i
    · subst hki
      simpa only [Function.update_self] using asleep_waiting ht
    · simp only [Ledger.note,Function.update_of_ne hki] at hk
      simpa only [Function.update_of_ne hki] using hO.slept k hk
  case heirFree => exact fun j hj => absurd hj (heir j)
  case heirAlone => exact fun j _ _ hj => absurd hj (heir j)
  case heirFirst => exact fun j _ _ hj => absurd hj (heir j)
  case wave =>
    rintro k (hk | hk)
    · exact absurd (waves_critical hk) (held k)
    · exact absurd (.inl hk) (woken k)
  case arrival => exact fun _ k _ => woken k
  case decision => exact fun j hj => absurd (deciding_critical hj) (held j)
  case queue => exact queue
  case led => exact fun ha k hk => .inr (led ha k hk)

/-- A newcomer goes to sleep behind a sleeping writer or an active one. -/
theorem orderly_readSleep (hI : Inv c) (hO : Orderly g c) (ht : c.locals i = reading .lockTest)
    (hc : c.shared.activeWriter = true ∨ c.shared.waitingWriters > 0)
    (hr : s'.readCond = c.shared.readCond ++ [i]) (hw : s'.writeCond = c.shared.writeCond)
    (ha : s'.activeWriter = c.shared.activeWriter) :
    Orderly (g.note (conflict isWriter) (i,.sleep))
      ⟨s',Function.update c.locals i (reading .lockCondWait)⟩ := by
  have hi : c.locals i ∈ arriving := by rw [ht]; decide
  have hq := quiet_arrival hI.counted hO hi
  refine orderly_sleep isWriter hI.counted hO hi (by decide) ?_ ?_ ?_ (hw ▸ hO.queue) ?_
  · rintro (⟨-,hn⟩ | ⟨hn,-⟩)
    · exact hn (by simp [hr])
    · cases hn
  · exact hr ▸ List.subset_append_left _ _
  · exact hw ▸ List.Subset.refl _
  · intro hf k hk
    rw [ha] at hf
    simp only [hr,List.mem_append,List.mem_singleton] at hk
    rw [hw]
    rcases hk with hk | rfl
    · refine (hO.led hf k hk).resolve_left ?_
      rintro ⟨j,hj | hj⟩
      · exact (hq j).1 hj
      · have hji := alone hI.counted (i := j) (by rw [hj]; decide) (arriving_critical hi)
        rw [hji,ht] at hj
        cases hj
    · have hww := hc.resolve_left (by simp [hf])
      have hne : c.shared.writeCond ≠ [] := by
        refine (waiting_writer hI.counted hww).resolve_right ?_
        rintro ⟨j,hp,hj⟩
        exact (hq j).1 (awake_waiting hp hj)
      refine ⟨_,List.head?_eq_some_head hne,?_⟩
      exact hO.sound.not_later (not_slept hO (by rw [ht]; decide)) _

theorem orderly_writeSleep (hI : Inv c) (hO : Orderly g c) (ht : c.locals i = writing .lockTest)
    (hc : ¬ Free c.shared) (hr : s'.readCond = c.shared.readCond)
    (hw : s'.writeCond = c.shared.writeCond ++ [i]) (ha : s'.activeWriter = c.shared.activeWriter) :
    Orderly (g.note (conflict isWriter) (i,.sleep))
      ⟨s',Function.update c.locals i (writing .lockCondWait)⟩ := by
  have hi : c.locals i ∈ arriving := by rw [ht]; decide
  refine orderly_sleep isWriter hI.counted hO hi (by decide) ?_ ?_ ?_ ?_ ?_
  · rintro (⟨hn,-⟩ | ⟨-,hn⟩)
    · cases hn
    · exact hn (by simp [hw])
  · exact hr ▸ List.Subset.refl _
  · exact hw ▸ List.subset_append_left _ _
  · rw [hw,List.pairwise_append]
    refine ⟨hO.queue,List.pairwise_singleton _ _,fun a _ b hb => ?_⟩
    rw [List.mem_singleton.mp hb]
    exact hO.sound.not_later (not_slept hO (by rw [ht]; decide)) _
  · intro hf k hk
    rcases hO.led (ha ▸ hf) k (hr ▸ hk) with ⟨j,hj | hj⟩ | ⟨v,hv,hl⟩
    · exact absurd (hO.heirFree j hj) hc
    · exact absurd (hO.decision j (by rw [hj]; decide)).1 hc
    · exact ⟨v,by simp [hw,Option.mem_def.mp hv],hl⟩

/-- A newcomer takes the lock when nobody waits for it. -/
theorem orderly_writePass (hI : Inv c) (hS : Served c) (hO : Orderly g c)
    (ht : c.locals i = writing .lockTest) (hf : Free c.shared) :
    Orderly g ⟨c.shared,Function.update c.locals i (writing .lockStore)⟩ := by
  have hi : c.locals i ∈ arriving := by rw [ht]; decide
  have hq := quiet_arrival hI.counted hO hi
  have away : ∀ j, j ≠ i → c.locals j ∉ critical :=
    fun j hji hj => hji (alone hI.counted hj (arriving_critical hi))
  have empty : c.shared.readCond = [] ∧ c.shared.writeCond = [] := by
    by_contra hn
    obtain ⟨j,hj⟩ := hS hf (not_and_or.mp hn)
    rcases hj with hj | hj
    · have hm : c.locals j ∈ critical := (by decide : [reading .unlockNotify,
        writing .unlockNotify,writing .lockWake,writing .lockRetest,writing .lockStore] ⊆ critical) hj
      rw [alone hI.counted hm (arriving_critical hi),ht] at hj
      exact absurd hj (by decide)
    · exact (hq j).1 (.inr hj)
  have out : ∀ j, Function.update c.locals i (writing .lockStore) j ∉ asleep := by
    intro j hj
    by_cases hji : j = i
    · subst hji
      rw [Function.update_self] at hj
      exact absurd hj (by decide)
    · rw [Function.update_of_ne hji] at hj
      simp only [asleep,List.mem_cons,List.not_mem_nil,or_false] at hj
      rcases hj with hj | hj
      · exact (hq j).2 (.inr ⟨hj,by simp [empty.1]⟩)
      · exact (hq j).1 (.inr ⟨hj,by simp [empty.2]⟩)
  have woken : ∀ j, ¬ Woken c.shared j (Function.update c.locals i (writing .lockStore) j) := by
    rintro j (⟨hj,-⟩ | ⟨hj,-⟩) <;> exact out j (by rw [hj]; decide)
  have held : ∀ j, Function.update c.locals i (writing .lockStore) j ∈ critical → j = i := by
    intro j hj
    by_contra hji
    exact away j hji (by simpa only [Function.update_of_ne hji] using hj)
  constructor
  case sound => exact hO.sound
  case slept =>
    intro k hk
    have hki : k ≠ i := fun he => by
      rw [he,not_slept hO (by rw [ht]; decide)] at hk
      cases hk
    simpa only [Function.update_of_ne hki] using hO.slept k hk
  case heirFree => exact fun _ _ => hf
  case heirAlone => exact fun _ k _ _ => woken k
  case heirFirst => exact fun _ k _ _ hk => absurd hk (out k)
  case wave =>
    rintro k (hk | hk)
    · have hki := held k (waves_critical hk)
      subst hki
      simp only [Function.update_self] at hk
      exact absurd hk (by decide)
    · exact absurd (.inl hk) (woken k)
  case arrival => exact fun _ k _ => woken k
  case decision =>
    intro j hj
    have hji := held j (deciding_critical hj)
    subst hji
    simp only [Function.update_self] at hj
    exact absurd hj (by decide)
  case queue => exact hO.queue
  case led =>
    intro _ k hk
    simp [empty.1] at hk

/-- The thread with `mtx_` changes who owns the lock, not the queues. -/
theorem orderly_own (hI : Counted c) (hO : Orderly g c) (hi : c.locals i ∈ critical)
    (ht : t' ∉ waiting ++ arriving) (hg : g.slept i = false)
    (hr : s'.readCond = c.shared.readCond) (hw : s'.writeCond = c.shared.writeCond)
    (heir : ∀ j, j ≠ i → ¬ Heir c.shared j (c.locals j))
    (wave : s'.activeWriter = true → ∀ k, k ≠ i → ¬ Wave c.shared k (c.locals k))
    (dec : t' ∈ deciding → Free s')
    (led : s'.activeWriter = false → t' = writing .unlockNotify ∨
      c.shared.activeWriter = false ∧ c.locals i ∉ heirs ∧ c.locals i ≠ writing .unlockNotify) :
    Orderly g ⟨s',Function.update c.locals i t'⟩ := by
  have cond : ∀ j p, p ∈ asleep → c.locals j = p → j ≠ i := by
    rintro j p hp hj rfl
    rw [hj] at hi
    exact (by decide : ∀ p ∈ asleep,p ∉ critical) _ hp hi
  have writers : ∀ j, c.locals j = writing .lockCondWait → j ∈ s'.writeCond := by
    intro j hj
    by_contra hq
    exact heir j (cond j _ (by decide) hj) (.inr ⟨hj,hw ▸ hq⟩)
  refine orderly_critical hI hO hi ht hg (hw ▸ .refl _) ?_ ?_ ?_ ?_
  · exact fun j hj hq => absurd (writers j hj) hq
  · intro k hk hq
    have hki := cond k _ (by decide) hk
    have hv : Wave c.shared k (c.locals k) := .inr ⟨hk,hr ▸ hq⟩
    refine ⟨?_,(hO.wave k hv).2⟩
    by_contra ha
    exact wave (by simpa using ha) k hki hv
  · exact fun hd => ⟨dec hd,writers⟩
  · intro ha k hk
    refine (led ha).imp_right fun ⟨h₁,h₂,h₃⟩ => ?_
    rw [hw]
    exact led_critical hI hO hi h₂ h₃ h₁ (hr ▸ hk)

/-- A signal to the writer asleep the longest, while all waiting writers sleep. -/
theorem orderly_signal {v : ι} (hI : Inv c) (hO : Orderly g c) (hi : c.locals i ∈ deciding)
    (hv : c.shared.writeCond.head? = some v) (ht : t' ∉ waiting ++ arriving ++ deciding)
    (hr : s'.readCond = c.shared.readCond) (hw : s'.writeCond = c.shared.writeCond.erase v)
    (hf : Free s') (first : ∀ k ∈ c.shared.readCond, g.later k v = false) :
    Orderly g ⟨s',Function.update c.locals i t'⟩ := by
  obtain ⟨ht,hd⟩ := List.mem_append.not.mp ht |> not_or.mp
  obtain ⟨-,hq⟩ := hO.decision i hi
  obtain ⟨l,hl⟩ : ∃ l, c.shared.writeCond = v :: l := ⟨_,(List.eq_cons_of_mem_head? hv)⟩
  have he : s'.writeCond = l := by rw [hw,hl,List.erase_cons_head]
  have hvl : c.locals v = writing .lockCondWait := hI.writers.asleep v (by simp [hl])
  have out : v ∉ l := (List.nodup_cons.mp (hl ▸ hI.writers.nodup)).1
  have only : ∀ j, c.locals j = writing .lockCondWait → j ∉ s'.writeCond → j = v := by
    intro j hj hn
    have hm := hq j hj
    rw [hl,List.mem_cons] at hm
    exact hm.resolve_right (he ▸ hn)
  have readers : ∀ k, c.locals k = reading .lockCondWait → k ∈ c.shared.readCond := by
    intro k hk
    by_contra hn
    exact (hO.wave k (.inr ⟨hk,hn⟩)).2 v hvl
  refine orderly_critical hI.counted hO (deciding_critical hi) ht
    (not_slept hO ((by decide : ∀ p ∈ deciding,p ∉ waiting) _ hi)) (hw ▸ List.erase_sublist) ?_ ?_
    (fun h => absurd h hd) ?_
  · intro j hj hn
    obtain rfl := only j hj hn
    refine ⟨hf,fun k hkj hk => ?_⟩
    simp only [asleep,List.mem_cons,List.not_mem_nil,or_false] at hk
    rcases hk with hk | hk
    · refine ⟨?_,first k (readers k hk)⟩
      rintro (⟨-,hn⟩ | ⟨hn,-⟩)
      · exact hn (hr ▸ readers k hk)
      · rw [hk] at hn
        cases hn
    · have hkl : k ∈ l := by
        have hm := hq k hk
        rw [hl,List.mem_cons] at hm
        exact hm.resolve_left hkj
      have hp := hO.queue
      rw [hl] at hp
      refine ⟨?_,List.rel_of_pairwise_cons hp hkl⟩
      rintro (⟨hn,-⟩ | ⟨-,hn⟩)
      · rw [hk] at hn
        cases hn
      · exact hn (he ▸ hkl)
  · exact fun k hk hn => absurd (readers k hk) (hr ▸ hn)
  · exact fun _ k hk => .inr (.inl ⟨v,hvl,he ▸ out⟩)

/-- A broadcast, or nothing, while no writer waits. -/
theorem orderly_broadcast (hI : Inv c) (hO : Orderly g c) (hi : c.locals i ∈ deciding)
    (hq : c.shared.writeCond = []) (ht : t' ∉ waiting ++ arriving ++ deciding)
    (hr : s'.readCond = []) (hw : s'.writeCond = c.shared.writeCond) (hf : Free s') :
    Orderly g ⟨s',Function.update c.locals i t'⟩ := by
  obtain ⟨ht,hd⟩ := List.mem_append.not.mp ht |> not_or.mp
  have none : ∀ j, c.locals j ≠ writing .lockCondWait := by
    intro j hj
    have hm := (hO.decision i hi).2 j hj
    simp [hq] at hm
  refine orderly_critical hI.counted hO (deciding_critical hi) ht
    (not_slept hO ((by decide : ∀ p ∈ deciding,p ∉ waiting) _ hi)) (hw ▸ .refl _) ?_ ?_
    (fun h => absurd h hd) ?_
  · exact fun j hj => absurd hj (none j)
  · exact fun _ _ _ => ⟨hf.2,none⟩
  · intro _ k hk
    simp [hr] at hk

/-- The admission of a request ends its entry in the ledger. -/
theorem orderly_enter (hI : Inv c) (hO : Orderly g c) :
    Orderly (g.note (conflict isWriter) (i,.enter)) c := by
  refine orderly_ledger hI hO (hO.sound.note _) ?_ ?_
  · exact fun k hk => hO.slept k (Ledger.slept_note (by simp) hk)
  · exact fun k j hk => .inl ((Ledger.later_note hk).resolve_right (by simp))

theorem orderly_issue (hI : Inv c) (hO : Orderly g c)
    (hi : c.locals i ∈ [.reader .idle,.writer .idle]) :
    Orderly (g.note (conflict isWriter) (i,.issue)) c := by
  refine orderly_ledger hI hO (hO.sound.note _) ?_ ?_
  · exact fun k hk => hO.slept k (Ledger.slept_note (by simp) hk)
  · intro k j hk
    refine (Ledger.later_note hk).imp_right fun hj => ?_
    cases hj
    exact hi

/-- A decision finds the waiting writers in the queue. -/
theorem decision_queue (hC : Counted c) (hO : Orderly g c) (hi : c.locals i ∈ deciding)
    (hw : c.shared.waitingWriters > 0) : c.shared.writeCond ≠ [] := by
  refine (waiting_writer hC hw).resolve_right fun ⟨j,hp,hj⟩ => ?_
  exact quiet_decision hC hO hi j (awake_waiting hp hj)

theorem orderly_readStep {w : ι} {p : ReadPC} {q : Pos ReadPC} (hI : Inv c) (hO : Orderly g c)
    (hv : Favourable (c,.thread i w)) (ht : c.locals i = reading p)
    (hs : readStep i w c.shared p = some (s',q)) :
    Orderly ((mark (c,.thread i w)).elim g (g.note (conflict isWriter)))
      ⟨s',Function.update c.locals i (.reader q)⟩ := by
  have hC := hI.counted
  cases readStep_cases hs
  case sleep hc =>
    have hm : mark (c,.thread i w) = some (i,.sleep) := by simp [mark,ht,hc]
    rw [hm]
    exact orderly_readSleep isWriter hI hO ht hc rfl rfl rfl
  case sleepAgain hc =>
    -- the readers of a broadcast find no writer
    exfalso
    obtain ⟨ha,hn⟩ := hO.wave i (.inl (by rw [ht]; decide))
    rcases waiting_writer hC (hc.resolve_left (by simp [ha])) with hq | ⟨j,hp,hj⟩
    · obtain ⟨v,hv⟩ := List.exists_mem_of_ne_nil _ hq
      exact hn v (hI.writers.asleep v hv)
    · have hj := awake_waiting hp hj
      exact hn j (heir_away hC (i := i) (by rw [ht]; decide) (by rw [ht]; decide) hj).1
  case lockCondWait hi _ =>
    refine orderly_unmarked isWriter (by simp [mark,ht]) ?_
    refine orderly_move hO rfl rfl rfl id ?_ ?_ (by decide) (fun h => absurd h (by decide))
      (by decide) (by rw [ht]; decide) fun _ => by decide
    · simp [Heir,heirs,ht]
    · exact fun _ => .inr ⟨ht,hi⟩
  case lockFetchAdd =>
    have hm : mark (c,.thread i w) = some (i,.enter) := by simp [mark,ht]
    rw [hm]
    have hi : c.locals i ∈ critical := by rw [ht]; decide
    have hh : c.locals i ∉ heirs := by rw [ht]; decide
    obtain ⟨hA,hW⟩ := hC.fetchAdd.resolve_left
      (headcount_pos (L := places .fetchAdd) (by rw [ht]; decide)).ne'
    have ha : c.shared.activeWriter = false := Bool.toNat_eq_zero.mp (hC.writers.trans hA)
    refine orderly_own hC (orderly_enter isWriter hI hO) hi (by decide) (by simp [Ledger.note])
      rfl rfl ?_ ?_ (fun h => absurd h (by decide)) ?_
    · intro j _ hj
      have hj := (heir_away hC hi hh hj).1
      exact headcount_eq_zero.mp hW j (by rw [hj]; decide)
    · exact fun h => absurd (h.symm.trans ha) (by decide)
    · exact fun _ => .inr ⟨ha,hh,by rw [ht]; decide⟩
  case unlockLast hc | unlockFetchSub hc =>
    refine orderly_unmarked isWriter (by simp [mark,ht]) ?_
    obtain ⟨hr,ha⟩ := owned_reader (i := i) hC (by rw [ht]; decide)
    refine orderly_own hC hO (by rw [ht]; decide) (by decide) (not_slept hO (by rw [ht]; decide))
      rfl rfl ?_ (fun h => absurd (h.symm.trans ha) (by decide)) ?_
      (fun _ => .inr ⟨ha,by rw [ht]; decide,by rw [ht]; decide⟩)
    · intro j _ hj
      have hf := (hO.heirFree j hj).1
      omega
    · first
      | exact fun h => absurd h (by decide)
      | exact fun _ => ⟨by simp [hc],ha⟩
  case signal hw hw' =>
    refine orderly_unmarked isWriter (by simp [mark,ht]) ?_
    have hi : c.locals i ∈ deciding := by rw [ht]; decide
    obtain ⟨hf,hq⟩ := hO.decision i hi
    have hv := signal_head hv (by simp [signals,ht,hw]) hw'
    refine orderly_signal hI hO hi hv (by decide) rfl rfl hf fun k hk => ?_
    obtain ⟨j,hj,hn⟩ | ⟨v,hv',hl⟩ := led_critical hC hO (deciding_critical hi)
      (by rw [ht]; decide) (by rw [ht]; decide) hf.2 hk
    · exact absurd (hq j hj) hn
    · cases hv.symm.trans hv'
      exact hl
  case signalNobody hw hq =>
    exact absurd hq (decision_queue (i := i) hC hO (by rw [ht]; decide) hw)
  case broadcast hw _ =>
    refine orderly_unmarked isWriter (by simp [mark,ht]) ?_
    have hi : c.locals i ∈ deciding := by rw [ht]; decide
    exact orderly_broadcast hI hO hi (writeCond_eq_nil hI hw) (by decide) rfl rfl
      (hO.decision i hi).1
  case quiet hw hr =>
    refine orderly_unmarked isWriter (by simp [mark,ht]) ?_
    have hi : c.locals i ∈ deciding := by rw [ht]; decide
    exact orderly_broadcast hI hO hi (writeCond_eq_nil hI hw) (by decide) (readCond_eq_nil hI hr)
      rfl (hO.decision i hi).1
  case lockMutexLock =>
    refine orderly_unmarked isWriter (by simp [mark,ht]) ?_
    exact orderly_plain hO ht (by decide) rfl rfl rfl id fun _ => hv.1 (by simp [ht])
  all_goals
    refine orderly_unmarked isWriter (by simp [mark, *]) ?_
    exact orderly_plain hO ht (by decide) rfl rfl rfl id fun h => absurd h (by decide)

theorem orderly_writeStep {w : ι} {p : WritePC} {q : Pos WritePC} (hI : Inv c) (hS : Served c)
    (hO : Orderly g c) (hv : Favourable (c,.thread i w)) (hn : ¬ MissedWakeup (c,.thread i w))
    (ht : c.locals i = writing p) (hs : writeStep i w c.shared p = some (s',q)) :
    Orderly ((mark (c,.thread i w)).elim g (g.note (conflict isWriter)))
      ⟨s',Function.update c.locals i (.writer q)⟩ := by
  have hC := hI.counted
  cases writeStep_cases hs
  case sleep hc =>
    have hm : mark (c,.thread i w) = some (i,.sleep) := by simp [mark,ht,hc]
    rw [hm]
    refine orderly_writeSleep isWriter hI hO ht ?_ rfl rfl rfl
    rintro ⟨hf,ha⟩
    simp [hf,ha] at hc
  case sleepAgain hc =>
    -- a woken writer finds the lock free
    obtain ⟨hf,ha⟩ := hO.heirFree i (.inl (by rw [ht]; decide))
    simp [hf,ha] at hc
  case pass hf ha =>
    refine orderly_unmarked isWriter (by simp [mark,ht,ha,not_lt.mpr hf]) ?_
    have hr := hC.readers
    exact orderly_writePass hI hS hO ht ⟨by omega,ha⟩
  case lockCondWait hi _ =>
    refine orderly_unmarked isWriter (by simp [mark,ht]) ?_
    refine orderly_move hO rfl rfl rfl id ?_ ?_ (by decide) (fun h => absurd h (by decide))
      (by decide) (by rw [ht]; decide) fun _ => by decide
    · exact iff_of_true (.inl (by decide)) (.inr ⟨ht,hi⟩)
    · simp [Wave,waves]
  case lockStore =>
    have hm : mark (c,.thread i w) = some (i,.enter) := by simp [mark,ht]
    rw [hm]
    have hi : c.locals i ∈ critical := by rw [ht]; decide
    have hh : Heir c.shared i (c.locals i) := .inl (by rw [ht]; decide)
    refine orderly_own hC (orderly_enter isWriter hI hO) hi (by decide) (by simp [Ledger.note])
      rfl rfl ?_ ?_ (fun h => absurd h (by decide)) (fun h => absurd h (by simp))
    · intro j hji hj
      rcases hj with hj | hj
      · exact hji (alone hC (heirs_critical hj) hi)
      · exact hO.heirAlone i j hji.symm hh (.inr hj)
    · intro _ k hki hk
      exact hO.heirAlone i k hki.symm hh (.inl (wave_away hC hi (by rw [ht]; decide) hk))
  case unlockStore =>
    refine orderly_unmarked isWriter (by simp [mark,ht]) ?_
    obtain ⟨hr,ha⟩ := owned_writer (i := i) hC (by rw [ht]; decide)
    refine orderly_own hC hO (by rw [ht]; decide) (by decide) (not_slept hO (by rw [ht]; decide))
      rfl rfl ?_ (fun h => absurd h (by simp)) (fun _ => ⟨hr,rfl⟩) (fun _ => .inl rfl)
    intro j _ hj
    exact absurd ((hO.heirFree j hj).2.symm.trans ha) (by decide)
  case broadcast hr =>
    refine orderly_unmarked isWriter (by simp [mark,ht]) ?_
    have hi : c.locals i ∈ deciding := by rw [ht]; decide
    obtain ⟨hf,hq⟩ := hO.decision i hi
    have hne : c.shared.writeCond = [] := by
      by_contra hne
      exact hn ⟨i,w,rfl,ht,hr,hne,hq⟩
    exact orderly_broadcast hI hO hi hne (by decide) rfl rfl hf
  case signal hr hw hw' =>
    refine orderly_unmarked isWriter (by simp [mark,ht]) ?_
    have hi : c.locals i ∈ deciding := by rw [ht]; decide
    have hv := signal_head hv (by simp [signals,ht,hw,not_lt.mpr hr]) hw'
    refine orderly_signal hI hO hi hv (by decide) rfl rfl (hO.decision i hi).1 fun k hk => ?_
    simp [readCond_eq_nil hI hr] at hk
  case signalNobody hr hw hq =>
    exact absurd hq (decision_queue (i := i) hC hO (by rw [ht]; decide) hw)
  case quiet hr hw =>
    refine orderly_unmarked isWriter (by simp [mark,ht]) ?_
    have hi : c.locals i ∈ deciding := by rw [ht]; decide
    exact orderly_broadcast hI hO hi (writeCond_eq_nil hI hw) (by decide) (readCond_eq_nil hI hr)
      rfl (hO.decision i hi).1
  case passAgain hf ha =>
    refine orderly_unmarked isWriter (by simp [mark,ht,ha,not_lt.mpr hf]) ?_
    exact orderly_plain hO ht (by decide) rfl rfl rfl id fun h => absurd h (by decide)
  case lockMutexLock =>
    refine orderly_unmarked isWriter (by simp [mark,ht]) ?_
    exact orderly_plain hO ht (by decide) rfl rfl rfl id fun _ => hv.1 (by simp [ht])
  all_goals
    refine orderly_unmarked isWriter (by simp [mark,ht]) ?_
    exact orderly_plain hO ht (by decide) rfl rfl rfl id fun h => absurd h (by decide)

theorem orderly_call {w : ι} {t : Thread} (hI : Inv c) (hO : Orderly g c) (ht : c.locals i = t)
    (hc : (lock ι).Call t t') :
    Orderly ((mark (c,.thread i w)).elim g (g.note (conflict isWriter)))
      ⟨c.shared,Function.update c.locals i t'⟩ := by
  cases hc
  case readLock | writeLock =>
    have hm : mark (c,.thread i w) = some (i,.issue) := by simp [mark,ht]
    rw [hm]
    exact orderly_plain (orderly_issue isWriter hI hO (by simp [ht])) ht
      (by simp only [lock]; decide) rfl rfl rfl id fun h => absurd h (by simp only [lock]; decide)
  case readUnlock | writeUnlock =>
    refine orderly_unmarked isWriter (by simp [mark,ht]) ?_
    exact orderly_plain hO ht (by simp only [lock]; decide) rfl rfl rfl id
      fun h => absurd h (by simp only [lock]; decide)

theorem orderly_run {h : List (Event ι ι ι (Shared ι) Thread)}
    (hr : Run (lock ι).client ((lock ι).fresh isWriter) h c) (hv : ∀ e ∈ h, Favourable e)
    (hn : ∀ e ∈ h, ¬ MissedWakeup e) : Orderly (.of (conflict isWriter) mark h) c := by
  induction hr with
  | start => exact orderly_fresh isWriter
  | @step h c c' l hr hn' ih =>
    rw [List.forall_mem_cons] at hv hn
    have hI := inv_run hr
    have hS := served_run hr hn.2
    have hO := ih hv.2 hn.2
    rw [Ledger.of_cons]
    cases l with
    | thread i w =>
      obtain ⟨s',t',ha,rfl⟩ := Machine.next_thread.mp hn'
      generalize ht : c.locals i = t at ha
      rcases RWLockBase.client_cases ha with ⟨rfl,hc⟩ | ⟨p,q,rfl,rfl,hs⟩ | ⟨p,q,rfl,rfl,hs⟩
      · exact orderly_call isWriter hI hO ht hc
      · exact orderly_readStep isWriter hI hO hv.1 ht hs
      · exact orderly_writeStep isWriter hI hS hO hv.1 hn.1 ht hs
    | env e => exact absurd hv.1 id

/-- Under the kindest scheduling and without a missed wake-up nobody is overtaken by a
request in conflict that was issued after its own went to sleep. -/
theorem not_overtaken {h : List (Event ι ι ι (Shared ι) Thread)}
    (hr : Run (lock ι).client ((lock ι).fresh isWriter) h c) (hv : ∀ e ∈ h, Favourable e)
    (hn : ∀ e ∈ h, ¬ MissedWakeup e) (k : ι) :
    (Ledger.of (conflict isWriter) mark h).overtaken k = 0 := by
  induction hr with
  | start => rfl
  | @step h c c' l hr _ ih =>
    rw [List.forall_mem_cons] at hv hn
    have hz := ih hv.2 hn.2
    rw [Ledger.of_cons]
    cases hm : mark (c,l) with
    | none => exact hz
    | some m =>
      refine Ledger.overtaken_note hz fun ha hk => ?_
      obtain ⟨i,m⟩ := m
      cases ha
      exact no_overtaking (inv_run hr).counted (orderly_run isWriter hr hv.2 hn.2)
        (RWLockBase.run_isWriter hr) (mark_enter hm) hk

end

end ReadersWriters.FairMorrisLock
