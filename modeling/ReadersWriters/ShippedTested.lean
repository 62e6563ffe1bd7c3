import ReadersWriters.Interleaving.Census
import ReadersWriters.Interleaving.Stuttering
import ReadersWriters.AlgoType
import ReadersWriters.Budget
import ReadersWriters.DeadlockFreedom
import ReadersWriters.TestCases
set_option autoImplicit false

namespace ReadersWriters
open Interleaving

/-- Where `testReaderFn` stands when `readerThread` does. A thread that has yet to give a
failed claim back has left the loop of the test. -/
inductive ReaderAt.Matches {R : Type} : ReaderAt R → TestReaderAt R → Prop where
  | start : Matches .start .start
  | load : Matches .claim .load
  | compareExchange {rem : Int} : 0 < rem → Matches .claim (.compareExchange rem)
  | restore : Matches .restore .finish
  | call {p : R} : Matches (.call p) (.call p)
  | read : Matches .read .read
  | loadReadCount {v : Int} : Matches (.loadReadCount v) .loadReadCount
  | storeReadCount {n : Int} : Matches (.storeReadCount n) (.storeReadCount n)
  | work : Matches .work .work
  | finish : Matches .finish .finish
  | done : Matches .done .done

inductive WriterAt.Matches {W : Type} : WriterAt W → TestWriterAt W → Prop where
  | sigaction : Matches .sigaction .start
  | start : Matches .start .start
  | abortTest : Matches .abortTest .abortTest
  | load : Matches .claim .load
  | compareExchange {rem : Int} : 0 < rem → Matches .claim (.compareExchange rem)
  | restore : Matches .restore .finish
  | call {a : Bool} {p : W} : Matches (.call a p) (.call a p)
  | abortTestHeld : Matches .abortTestHeld .abortTestHeld
  | loadData : Matches .loadData .loadData
  | storeData {n : Int} : Matches (.storeData n) (.storeData n)
  | loadWriteCount : Matches .loadWriteCount .loadWriteCount
  | storeWriteCount {n : Int} : Matches (.storeWriteCount n) (.storeWriteCount n)
  | work : Matches .work .work
  | finish : Matches .finish .finish
  | done : Matches .done .done

/-- `enable` stands for `enableAbortTest`. -/
inductive Worker.Matches {R W : Type} (enable : Bool) : Worker R W → TestWorker R W → Prop where
  | reader {info : ThreadInfo} {pc : ReaderAt R} {pc' : TestReaderAt R} : pc.Matches pc' →
      Matches enable (.reader info pc) (.reader info pc')
  | writer {info : ThreadInfo} {b : Bool} {pc : WriterAt W} {pc' : TestWriterAt W} :
      (b = true → enable = true) → pc.Matches pc' →
      Matches enable (.writer info b pc) (.writer info b pc')

theorem ReaderAt.Matches.resume {R : Type} (q : Pos R) :
    ReaderAt.Matches (.resume q) (.resume q) := by cases q <;> constructor

theorem WriterAt.Matches.resume {W : Type} (a : Bool) (q : Pos W) :
    WriterAt.Matches (.resume a q) (.resume a q) := by
  cases q
  case idle => cases a <;> constructor
  all_goals constructor

/-- The stores of the shipped and the tested program, while `n` failed claims have yet to be
given back. A claim has failed only if there is nothing left. -/
structure Agree {S : Type} (enable : Bool) (n : ℕ) (s s' : SimState S) : Prop where
  lock : s'.lock = s.lock
  resource : s'.resource = s.resource
  remaining : s'.opsRemaining = s.opsRemaining+n
  exhausted : 0 < n → s'.opsRemaining ≤ 0
  signal : enable = true →
    s.process.abortSignalReceived = false ∧ s'.process.abortSignalReceived = false

section
variable {ι S R W : Type} {L : RWLockBase ι S R W} {i w : ι} {info : ThreadInfo} {b : Bool}
  {s : SimState S}

theorem testReader_claim (h : 0 < s.opsRemaining) :
    Solo (testWorkers L) i s (.reader info .load) { s with opsRemaining := s.opsRemaining-1 }
      (.reader info (.call L.readLock)) := by
  have hload : (testWorkers L).act i (i,false) s (.reader info .load) =
      some (s,.reader info (.compareExchange s.opsRemaining)) := by
    simp [testWorkers,testReaderFn,h]
  exact .step hload (.one (k := (i,false)) (by simp [testWorkers,testReaderFn]))

theorem testReader_exhausted (h : s.opsRemaining ≤ 0) :
    Solo (testWorkers L) i s (.reader info .load) s (.reader info .finish) :=
  .one (k := (i,false)) (by simp [testWorkers,testReaderFn,h])

theorem testReader_retry {pc : TestReaderAt R} (h : ReaderAt.Matches .claim pc) :
    Solo (testWorkers L) i s (.reader info pc) s (.reader info .load) := by
  cases h with
  | load => exact .refl
  | compareExchange => exact .one (k := (i,true)) (by simp [testWorkers,testReaderFn])

theorem testWriter_claim (h : 0 < s.opsRemaining) :
    Solo (testWorkers L) i s (.writer info b .load) { s with opsRemaining := s.opsRemaining-1 }
      (.writer info b (.call false L.writeLock)) := by
  have hload : (testWorkers L).act i (i,false) s (.writer info b .load) =
      some (s,.writer info b (.compareExchange s.opsRemaining)) := by
    simp [testWorkers,testWriterFn,h]
  exact .step hload (.one (k := (i,false)) (by simp [testWorkers,testWriterFn]))

theorem testWriter_exhausted (h : s.opsRemaining ≤ 0) :
    Solo (testWorkers L) i s (.writer info b .load) s (.writer info b .finish) :=
  .one (k := (i,false)) (by simp [testWorkers,testWriterFn,h])

theorem testWriter_retry {pc : TestWriterAt W} (h : WriterAt.Matches .claim pc) :
    Solo (testWorkers L) i s (.writer info b pc) s (.writer info b .load) := by
  cases h with
  | load => exact .refl
  | compareExchange => exact .one (k := (i,true)) (by simp [testWorkers,testWriterFn])

theorem reader_claim (h : 0 < s.opsRemaining) :
    Solo (workers L) i s (.reader info .claim) { s with opsRemaining := s.opsRemaining-1 }
      (.reader info (.call L.readLock)) := .one (k := i) (by simp [workers,readerThread,h])

theorem reader_claimFailed (h : s.opsRemaining ≤ 0) :
    Solo (workers L) i s (.reader info .claim) { s with opsRemaining := s.opsRemaining-1 }
      (.reader info .restore) := .one (k := i) (by simp [workers,readerThread,h])

theorem writer_claim (h : 0 < s.opsRemaining) :
    Solo (workers L) i s (.writer info b .claim) { s with opsRemaining := s.opsRemaining-1 }
      (.writer info b (.call false L.writeLock)) :=
  .one (k := i) (by simp [workers,writerThread,h])

theorem writer_claimFailed (h : s.opsRemaining ≤ 0) :
    Solo (workers L) i s (.writer info b .claim) { s with opsRemaining := s.opsRemaining-1 }
      (.writer info b .restore) := .one (k := i) (by simp [workers,writerThread,h])

end

section
variable {ι S R W : Type} {L : RWLockBase ι S R W} {i w : ι} {info info₁ : ThreadInfo} {b : Bool}
  {s s' s₁ s₁' : SimState S} {enable : Bool} {r : ℕ}

/-- A claim that succeeds finds no failed one that has yet to be given back. -/
theorem Agree.claim {n : ℕ} (hA : Agree enable n s s') (hp : 0 < s.opsRemaining) :
    0 < s'.opsRemaining ∧ Agree enable n { s with opsRemaining := s.opsRemaining-1 }
      { s' with opsRemaining := s'.opsRemaining-1 } := by
  have hr := hA.remaining
  have hx := hA.exhausted
  refine ⟨by omega,hA.lock,hA.resource,?_,?_,hA.signal⟩
  · simp only
    omega
  · simp only
    omega

theorem Agree.claimFailed {n : ℕ} (hA : Agree enable n s s') (hp : s.opsRemaining ≤ 0) :
    s'.opsRemaining ≤ 0 ∧ Agree enable (n+1) { s with opsRemaining := s.opsRemaining-1 } s' := by
  have hr := hA.remaining
  have hx := hA.exhausted
  refine ⟨by omega,hA.lock,hA.resource,?_,fun _ => by omega,hA.signal⟩
  simp only
  omega

theorem Agree.restore {n : ℕ} (hA : Agree enable (n+1) s s') :
    Agree enable n { s with opsRemaining := s.opsRemaining+1 } s' := by
  have hr := hA.remaining
  refine ⟨hA.lock,hA.resource,?_,fun _ => hA.exhausted (by omega),hA.signal⟩
  simp only
  omega

theorem Agree.setLock {n : ℕ} (hA : Agree enable n s s') (l : S) :
    Agree enable n { s with lock := l } { s' with lock := l } :=
  ⟨rfl,hA.resource,hA.remaining,hA.exhausted,hA.signal⟩

theorem Agree.setResource {n : ℕ} (hA : Agree enable n s s') (f : SharedResource → SharedResource) :
    Agree enable n { s with resource := f s.resource } { s' with resource := f s'.resource } :=
  ⟨hA.lock,congrArg f hA.resource,hA.remaining,hA.exhausted,hA.signal⟩

theorem reader_failed_resume (info : ThreadInfo) (q : Pos R) :
    (Worker.reader info (.resume q) : Worker R W).failed = false := by cases q <;> rfl

theorem writer_failed_resume (info : ThreadInfo) (b a : Bool) (q : Pos W) :
    (Worker.writer info b (.resume a q) : Worker R W).failed = false := by
  cases q
  case idle => cases a <;> rfl
  all_goals rfl

/-- The tested reader answers each step of the shipped one. -/
theorem reader_forth {pc pc₁ : ReaderAt R} {pc' : TestReaderAt R}
    (h : ReaderCase L i w s info pc s₁ info₁ pc₁) (hM : pc.Matches pc')
    (hA : Agree enable (r+(Worker.reader info pc : Worker R W).failed.toNat) s s') :
    ∃ s₁' pc₁', Solo (testWorkers L) i s' (.reader info pc') s₁' (.reader info₁ pc₁') ∧
      Agree enable (r+(Worker.reader info₁ pc₁ : Worker R W).failed.toNat) s₁ s₁' ∧
      pc₁.Matches pc₁' := by
  cases h with
  | claim hp =>
    obtain ⟨hp',hA'⟩ := hA.claim hp
    exact ⟨_,_,(testReader_retry hM).trans (testReader_claim hp'),hA',.call⟩
  | claimFailed hp =>
    obtain ⟨hp',hA'⟩ := hA.claimFailed hp
    exact ⟨_,_,(testReader_retry hM).trans (testReader_exhausted hp'),hA',.restore⟩
  | restore =>
    cases hM
    exact ⟨_,_,.refl,hA.restore,.finish⟩
  | @call p l q hs =>
    cases hM
    rw [reader_failed_resume]
    refine ⟨_,_,.one (k := (w,false)) ?_,hA.setLock l,.resume q⟩
    simp [testWorkers,testReaderFn,hA.lock,hs]
  | loadReadCount =>
    cases hM
    rw [← hA.resource]
    exact ⟨_,_,.one (k := (w,false)) rfl,hA,.storeReadCount⟩
  | @storeReadCount n =>
    cases hM
    exact ⟨_,_,.one (k := (w,false)) rfl,hA.setResource fun x => { x with readCount := n+1 },.work⟩
  | start | read | work | finish =>
    cases hM
    exact ⟨_,_,.one (k := (w,false)) rfl,hA,by constructor⟩

/-- Without an abort signal the tested writer does the same. -/
theorem writer_forth {pc pc₁ : WriterAt W} {pc' : TestWriterAt W}
    (h : WriterCase L i w s info b pc s₁ info₁ pc₁) (hM : pc.Matches pc')
    (hb : b = true → enable = true)
    (hA : Agree enable (r+(Worker.writer info b pc : Worker R W).failed.toNat) s s') :
    ∃ s₁' pc₁', Solo (testWorkers L) i s' (.writer info b pc') s₁' (.writer info₁ b pc₁') ∧
      Agree enable (r+(Worker.writer info₁ b pc₁ : Worker R W).failed.toNat) s₁ s₁' ∧
      pc₁.Matches pc₁' := by
  have hquiet : b = true → s'.process.abortSignalReceived = false :=
    fun h => (hA.signal (hb h)).2
  cases h with
  | sigaction | noSigaction =>
    cases hM
    exact ⟨_,_,.refl,⟨hA.lock,hA.resource,hA.remaining,hA.exhausted,hA.signal⟩,.start⟩
  | abort ht hs | abortHeld ht hs =>
    rw [(hA.signal (hb ht)).1] at hs
    cases hs
  | abortTest =>
    cases hM
    exact ⟨_,_,.one (k := (w,false)) (by simpa [testWorkers,testWriterFn] using hquiet),hA,.load⟩
  | abortTestHeld =>
    cases hM
    exact ⟨_,_,.one (k := (w,false)) (by simpa [testWorkers,testWriterFn] using hquiet),hA,.loadData⟩
  | claim hp =>
    obtain ⟨hp',hA'⟩ := hA.claim hp
    exact ⟨_,_,(testWriter_retry hM).trans (testWriter_claim hp'),hA',.call⟩
  | claimFailed hp =>
    obtain ⟨hp',hA'⟩ := hA.claimFailed hp
    exact ⟨_,_,(testWriter_retry hM).trans (testWriter_exhausted hp'),hA',.restore⟩
  | restore =>
    cases hM
    exact ⟨_,_,.refl,hA.restore,.finish⟩
  | @call a p l q hs =>
    cases hM
    rw [writer_failed_resume]
    refine ⟨_,_,.one (k := (w,false)) ?_,hA.setLock l,.resume a q⟩
    simp [testWorkers,testWriterFn,hA.lock,hs]
  | loadData =>
    cases hM
    rw [← hA.resource]
    exact ⟨_,_,.one (k := (w,false)) rfl,hA,.storeData⟩
  | @storeData n =>
    cases hM
    exact ⟨_,_,.one (k := (w,false)) rfl,hA.setResource fun x => { x with data := n+1 },
      .loadWriteCount⟩
  | loadWriteCount =>
    cases hM
    rw [← hA.resource]
    exact ⟨_,_,.one (k := (w,false)) rfl,hA,.storeWriteCount⟩
  | @storeWriteCount n =>
    cases hM
    exact ⟨_,_,.one (k := (w,false)) rfl,hA.setResource fun x => { x with writeCount := n+1 },.work⟩
  | start =>
    cases hM
    exact ⟨_,_,.one (k := (w,false)) rfl,hA,.abortTest⟩
  | work | finish =>
    cases hM
    exact ⟨_,_,.one (k := (w,false)) rfl,hA,by constructor⟩

theorem Agree.claimTested {n : ℕ} (hA : Agree enable n s s') (hp : 0 < s'.opsRemaining) :
    0 < s.opsRemaining ∧ Agree enable n { s with opsRemaining := s.opsRemaining-1 }
      { s' with opsRemaining := s'.opsRemaining-1 } := by
  have hr := hA.remaining
  have hx := hA.exhausted
  have hp' : 0 < s.opsRemaining := by omega
  exact ⟨hp',(hA.claim hp').2⟩

theorem Agree.exhaustedTested {n : ℕ} (hA : Agree enable n s s') (hp : s'.opsRemaining ≤ 0) :
    s.opsRemaining ≤ 0 ∧ Agree enable (n+1) { s with opsRemaining := s.opsRemaining-1 } s' := by
  have hr := hA.remaining
  have hp' : s.opsRemaining ≤ 0 := by omega
  exact ⟨hp',(hA.claimFailed hp').2⟩

/-- The shipped reader answers each step of the tested one. -/
theorem reader_back {pc : ReaderAt R} {pc' pc₁' : TestReaderAt R}
    (h : TestReaderCase L i w s' info pc' s₁' info₁ pc₁') (hM : pc.Matches pc')
    (hA : Agree enable (r+(Worker.reader info pc : Worker R W).failed.toNat) s s') :
    ∃ s₁ pc₁, Solo (workers L) i s (.reader info pc) s₁ (.reader info₁ pc₁) ∧
      Agree enable (r+(Worker.reader info₁ pc₁ : Worker R W).failed.toNat) s₁ s₁' ∧
      pc₁.Matches pc₁' := by
  cases h with
  | load hp =>
    cases hM
    exact ⟨_,_,.refl,hA,.compareExchange hp⟩
  | exhausted hp =>
    cases hM
    obtain ⟨hp',hA'⟩ := hA.exhaustedTested hp
    exact ⟨_,_,reader_claimFailed hp',hA',.restore⟩
  | claim hs =>
    cases hM with
    | compareExchange hp =>
      subst hs
      obtain ⟨hp',hA'⟩ := hA.claimTested hp
      exact ⟨_,_,reader_claim hp',hA',.call⟩
  | retry =>
    cases hM
    exact ⟨_,_,.refl,hA,.load⟩
  | @call p l q hs =>
    cases hM
    rw [hA.lock] at hs
    refine ⟨{ s with lock := l },.resume q,.one (k := w) ?_,?_,.resume q⟩
    · simp [workers,readerThread,hs]
    · rw [reader_failed_resume]
      exact hA.setLock l
  | loadReadCount =>
    cases hM
    rw [hA.resource]
    exact ⟨_,_,.one (k := w) rfl,hA,.storeReadCount⟩
  | @storeReadCount n =>
    cases hM
    exact ⟨_,_,.one (k := w) rfl,hA.setResource fun x => { x with readCount := n+1 },.work⟩
  | finish =>
    cases hM with
    | restore => exact ⟨_,_,.step (k := w) rfl (.one (k := w) rfl),hA.restore,.done⟩
    | finish => exact ⟨_,_,.one (k := w) rfl,hA,.done⟩
  | start | read | work =>
    cases hM
    exact ⟨_,_,.one (k := w) rfl,hA,by constructor⟩

/-- A writer of the program has its handler to install before the test's one starts. -/
theorem writer_back {pc : WriterAt W} {pc' pc₁' : TestWriterAt W}
    (h : TestWriterCase L i w s' info b pc' s₁' info₁ pc₁') (hM : pc.Matches pc')
    (hb : b = true → enable = true)
    (hA : Agree enable (r+(Worker.writer info b pc : Worker R W).failed.toNat) s s') :
    ∃ s₁ pc₁, Solo (workers L) i s (.writer info b pc) s₁ (.writer info₁ b pc₁) ∧
      Agree enable (r+(Worker.writer info₁ b pc₁ : Worker R W).failed.toNat) s₁ s₁' ∧
      pc₁.Matches pc₁' := by
  have hquiet : b = true → s.process.abortSignalReceived = false :=
    fun h => (hA.signal (hb h)).1
  cases h with
  | start =>
    cases hM with
    | sigaction =>
      refine ⟨_,_,.step (k := w) rfl (.one (k := w) rfl),⟨?_,?_,?_,hA.exhausted,?_⟩,.abortTest⟩
      all_goals split
      · exact hA.lock
      · exact hA.lock
      · exact hA.resource
      · exact hA.resource
      · exact hA.remaining
      · exact hA.remaining
      · exact hA.signal
      · exact hA.signal
    | start => exact ⟨_,_,.one (k := w) rfl,hA,.abortTest⟩
  | abort ht hs | abortHeld ht hs =>
    rw [(hA.signal (hb ht)).2] at hs
    cases hs
  | abortTest =>
    cases hM
    exact ⟨_,.claim,.one (k := w) (by simpa [workers,writerThread] using hquiet),hA,.load⟩
  | abortTestHeld =>
    cases hM
    exact ⟨_,.loadData,.one (k := w) (by simpa [workers,writerThread] using hquiet),hA,.loadData⟩
  | load hp =>
    cases hM
    exact ⟨_,_,.refl,hA,.compareExchange hp⟩
  | exhausted hp =>
    cases hM
    obtain ⟨hp',hA'⟩ := hA.exhaustedTested hp
    exact ⟨_,_,writer_claimFailed hp',hA',.restore⟩
  | claim hs =>
    cases hM with
    | compareExchange hp =>
      subst hs
      obtain ⟨hp',hA'⟩ := hA.claimTested hp
      exact ⟨_,_,writer_claim hp',hA',.call⟩
  | retry =>
    cases hM
    exact ⟨_,_,.refl,hA,.load⟩
  | @call a p l q hs =>
    cases hM
    rw [hA.lock] at hs
    refine ⟨{ s with lock := l },.resume a q,.one (k := w) ?_,?_,.resume a q⟩
    · simp [workers,writerThread,hs]
    · rw [writer_failed_resume]
      exact hA.setLock l
  | loadData =>
    cases hM
    rw [hA.resource]
    exact ⟨_,_,.one (k := w) rfl,hA,.storeData⟩
  | @storeData n =>
    cases hM
    exact ⟨_,_,.one (k := w) rfl,hA.setResource fun x => { x with data := n+1 },.loadWriteCount⟩
  | loadWriteCount =>
    cases hM
    rw [hA.resource]
    exact ⟨_,_,.one (k := w) rfl,hA,.storeWriteCount⟩
  | @storeWriteCount n =>
    cases hM
    exact ⟨_,_,.one (k := w) rfl,hA.setResource fun x => { x with writeCount := n+1 },.work⟩
  | finish =>
    cases hM with
    | restore => exact ⟨_,_,.step (k := w) rfl (.one (k := w) rfl),hA.restore,.done⟩
    | finish => exact ⟨_,_,.one (k := w) rfl,hA,.done⟩
  | work =>
    cases hM
    exact ⟨_,_,.one (k := w) rfl,hA,.call⟩

theorem worker_forth {t t₁ : Worker R W} {t' : TestWorker R W}
    (h : (workers L).act i w s t = some (s₁,t₁)) (hM : t.Matches enable t')
    (hA : Agree enable (r+t.failed.toNat) s s') :
    ∃ s₁' t₁', Solo (testWorkers L) i s' t' s₁' t₁' ∧
      Agree enable (r+t₁.failed.toNat) s₁ s₁' ∧ t₁.Matches enable t₁' := by
  replace h := workers_cases h
  cases h with
  | reader h =>
    cases hM with
    | reader hM =>
      obtain ⟨s₁',pc₁',hs,hA',hM'⟩ := reader_forth h hM hA
      exact ⟨s₁',_,hs,hA',.reader hM'⟩
  | writer h =>
    cases hM with
    | writer hb hM =>
      obtain ⟨s₁',pc₁',hs,hA',hM'⟩ := writer_forth h hM hb hA
      exact ⟨s₁',_,hs,hA',.writer hb hM'⟩

theorem worker_back {k : ι × Bool} {t : Worker R W} {t' t₁' : TestWorker R W}
    (h : (testWorkers L).act i k s' t' = some (s₁',t₁')) (hM : t.Matches enable t')
    (hA : Agree enable (r+t.failed.toNat) s s') :
    ∃ s₁ t₁, Solo (workers L) i s t s₁ t₁ ∧
      Agree enable (r+t₁.failed.toNat) s₁ s₁' ∧ t₁.Matches enable t₁' := by
  replace h := testWorkers_cases h
  cases h with
  | reader h =>
    cases hM with
    | reader hM =>
      obtain ⟨s₁,pc₁,hs,hA',hM'⟩ := reader_back h hM hA
      exact ⟨s₁,_,hs,hA',.reader hM'⟩
  | writer h =>
    cases hM with
    | writer hb hM =>
      obtain ⟨s₁,pc₁,hs,hA',hM'⟩ := writer_back h hM hb hA
      exact ⟨s₁,_,hs,hA',.writer hb hM'⟩

end

namespace Worker.Matches

variable {R W : Type} {enable : Bool} {t : Worker R W} {t' : TestWorker R W}

theorem info_eq (h : t.Matches enable t') : t.info = t'.info := by cases h <;> rfl

theorem done_iff (h : t.Matches enable t') : t.Done ↔ t'.Done := by
  cases h with
  | reader h => cases h <;> simp [Worker.Done,TestWorker.Done]
  | writer _ h => cases h <;> simp [Worker.Done,TestWorker.Done]

theorem client_eq (h : t.Matches enable t') : t.client = t'.client := by
  cases h with
  | reader h => cases h <;> rfl
  | writer _ h => cases h <;> rfl

end Worker.Matches

/-- No `SIGUSR1`, and spurious wake-ups of these threads only. -/
def WakesOnly {ι : Type} (mayWake : ι → Prop) : Disturbance ι → Prop
  | .spuriousWake i => mayWake i
  | .sigusr1 => False

/-- Two configurations that look the same from outside. -/
structure Related {ι S R W : Type} [Fintype ι] (enable : Bool)
    (c : Config ι (SimState S) (Worker R W)) (c' : Config ι (SimState S) (TestWorker R W)) :
    Prop where
  agree : Agree enable (total (fun t => t.failed.toNat) c.locals) c.shared c'.shared
  locals : ∀ i, (c.locals i).Matches enable (c'.locals i)

section
variable {ι S R W : Type} [Fintype ι] [DecidableEq ι] {L : RWLockBase ι S R W} {enable : Bool}
  {mayWake : ι → Prop} {c : Config ι (SimState S) (Worker R W)}
  {c' : Config ι (SimState S) (TestWorker R W)}

theorem Related.update {i : ι} {r : ℕ} {s : SimState S} {s' : SimState S} {t : Worker R W}
    {t' : TestWorker R W} (hR : Related enable c c')
    (ht : total (fun t => t.failed.toNat) (Function.update c.locals i t) = r+t.failed.toNat)
    (hA : Agree enable (r+t.failed.toNat) s s') (hM : t.Matches enable t') :
    Related enable ⟨s,Function.update c.locals i t⟩ ⟨s',Function.update c'.locals i t'⟩ := by
  refine ⟨ht ▸ hA,fun j => ?_⟩
  by_cases hji : j = i
  · subst hji
    simpa only [Function.update_self] using hM
  · simpa only [Function.update_of_ne hji] using hR.locals j

theorem matching_forth : Matching (workers L) (testWorkers L) (WakesOnly mayWake)
    (WakesOnly mayWake) (Related enable) where
  thread {c c' i w s t} hR h := by
    obtain ⟨r,hl,hu⟩ := total_split (fun t => t.failed.toNat) c.locals i
    obtain ⟨s',t',hs,hA,hM⟩ := worker_forth h (hR.locals i) (hl ▸ hR.agree)
    exact ⟨s',t',hs,hR.update (hu t) hA hM⟩
  env {c c' e s} hR ho h := by
    cases e with
    | spuriousWake i =>
      obtain ⟨l,hl,rfl⟩ := Option.map_eq_some_iff.mp h
      rw [← hR.agree.lock] at hl
      exact ⟨.spuriousWake i,_,ho,Option.map_eq_some_iff.mpr ⟨l,hl,rfl⟩,hR.agree.setLock l,
        hR.locals⟩
    | sigusr1 => exact ho.elim

theorem matching_back : Matching (testWorkers L) (workers L) (WakesOnly mayWake)
    (WakesOnly mayWake) (fun c' c => Related enable c c') where
  thread {c' c i k s' t'} hR h := by
    obtain ⟨r,hl,hu⟩ := total_split (fun t => t.failed.toNat) c.locals i
    obtain ⟨s,t,hs,hA,hM⟩ := worker_back h (hR.locals i) (hl ▸ hR.agree)
    exact ⟨s,t,hs,hR.update (hu t) hA hM⟩
  env {c' c e s'} hR ho h := by
    cases e with
    | spuriousWake i =>
      obtain ⟨l,hl,rfl⟩ := Option.map_eq_some_iff.mp h
      rw [hR.agree.lock] at hl
      exact ⟨.spuriousWake i,_,ho,Option.map_eq_some_iff.mpr ⟨l,hl,rfl⟩,hR.agree.setLock l,
        hR.locals⟩
    | sigusr1 => exact ho.elim

end

/-- What a simulation is judged by when its threads have ended. -/
structure Outcome (ι : Type) where
  opsCompleted : ι → Int
  data : Int
  writeCount : Int

def outcome {ι S τ : Type} (info : τ → ThreadInfo) (c : Config ι (SimState S) τ) : Outcome ι where
  opsCompleted i := (info (c.locals i)).opsCompleted
  data := c.shared.resource.data
  writeCount := c.shared.resource.writeCount

/-- What the lock sees of the test threads. -/
def testLockView {ι S R W : Type} (c : Config ι (SimState S) (TestWorker R W)) :
    Config ι S (Client R W) := ⟨c.shared.lock,TestWorker.client ∘ c.locals⟩

section
variable {ι S R W : Type} [Fintype ι] {enable : Bool}
  {c : Config ι (SimState S) (Worker R W)} {c' : Config ι (SimState S) (TestWorker R W)}

theorem Related.outcome_eq (hR : Related enable c c') :
    outcome Worker.info c = outcome TestWorker.info c' := by
  have hops : ∀ i, (c.locals i).info.opsCompleted = (c'.locals i).info.opsCompleted :=
    fun i => congrArg ThreadInfo.opsCompleted (hR.locals i).info_eq
  simp [outcome,hops,hR.agree.resource]

theorem Related.lockView_eq [DecidableEq ι] {L : RWLockBase ι S R W} (hR : Related enable c c') :
    (lockView L).view c = testLockView c' :=
  congr (congrArg Config.mk hR.agree.lock.symm) (funext fun i => (hR.locals i).client_eq)

end

section
variable {cfg : Workload} {process process' : Process} {S R W : Type} {L : RWLockBase cfg.Tid S R W}
  {mayWake : cfg.Tid → Prop}

theorem related_start (ha : cfg.enableAbortTest = true →
      process.abortSignalReceived = false ∧ process'.abortSignalReceived = false) :
    Related cfg.enableAbortTest (cfg.start L process) (cfg.startScenario L process') := by
  refine ⟨?_,fun i => ?_⟩
  · rw [total_start rfl fun _ => rfl]
    exact ⟨rfl,rfl,(Int.add_zero _).symm,fun h => absurd h (lt_irrefl 0),ha⟩
  · simp only [Workload.start,Workload.startScenario]
    split
    · refine .writer (fun hb => ?_) .sigaction
      simp only [Workload.isAbortTarget,Bool.and_eq_true] at hb
      exact hb.2
    · exact .reader .start

/-- A property that related configurations share is reachable with both programs or with
neither. -/
theorem reachable_iff {P : Config cfg.Tid (SimState S) (Worker R W) → Prop}
    {P' : Config cfg.Tid (SimState S) (TestWorker R W) → Prop}
    (ha : cfg.enableAbortTest = true →
      process.abortSignalReceived = false ∧ process'.abortSignalReceived = false)
    (hP : ∀ c c', Related cfg.enableAbortTest c c' → (P c ↔ P' c')) :
    (∃ h c, Run (workers L) (cfg.start L process) h c ∧ EnvWithin (WakesOnly mayWake) h ∧ P c) ↔
    ∃ h c, Run (testWorkers L) (cfg.startScenario L process') h c ∧
      EnvWithin (WakesOnly mayWake) h ∧ P' c := by
  constructor
  · rintro ⟨h,c,hr,hw,hc⟩
    obtain ⟨h',c',hr',hw',hR⟩ := matching_forth.run (related_start ha) hr hw
    exact ⟨h',c',hr',hw',(hP c c' hR).mp hc⟩
  · rintro ⟨h',c',hr',hw',hc⟩
    obtain ⟨h,c,hr,hw,hR⟩ := matching_back.run (related_start ha) hr' hw'
    exact ⟨h,c,hr,hw,(hP c c' hR).mpr hc⟩

end

/-- The shipped program and the tested one reach the same final outcomes, and the same
states of the lock in which every thread that is not done is blocked. -/
theorem shipped_iff_tested {algo : AlgoType} {cfg : Workload} {process process' : Process}
    (ha : cfg.enableAbortTest = true →
      process.abortSignalReceived = false ∧ process'.abortSignalReceived = false)
    (mayWake : cfg.Tid → Prop) :
    (∀ o : Outcome cfg.Tid,
      (∃ h c, Run (workers (algo.lock cfg.Tid)) (cfg.start (algo.lock cfg.Tid) process) h c ∧
        EnvWithin (WakesOnly mayWake) h ∧ (∀ i, (c.locals i).Done) ∧ outcome Worker.info c = o) ↔
      ∃ h c, Run (testWorkers (algo.lock cfg.Tid))
          (cfg.startScenario (algo.lock cfg.Tid) process') h c ∧
        EnvWithin (WakesOnly mayWake) h ∧ (∀ i, (c.locals i).Done) ∧
          outcome TestWorker.info c = o) ∧
    ∀ v : Config cfg.Tid (algo.Shared cfg.Tid) (Client algo.ReadPC algo.WritePC),
      (∃ h c, Run (workers (algo.lock cfg.Tid)) (cfg.start (algo.lock cfg.Tid) process) h c ∧
        EnvWithin (WakesOnly mayWake) h ∧ (lockView (algo.lock cfg.Tid)).view c = v ∧
          ∀ i, (c.locals i).Done ∨ (algo.lock cfg.Tid).Blocked v i) ↔
      ∃ h c, Run (testWorkers (algo.lock cfg.Tid))
          (cfg.startScenario (algo.lock cfg.Tid) process') h c ∧
        EnvWithin (WakesOnly mayWake) h ∧ testLockView c = v ∧
          ∀ i, (c.locals i).Done ∨ (algo.lock cfg.Tid).Blocked v i := by
  constructor
  · intro o
    refine reachable_iff ha fun c c' hR => ?_
    rw [hR.outcome_eq]
    simp only [fun i => (hR.locals i).done_iff]
  · intro v
    refine reachable_iff ha fun c c' hR => ?_
    rw [hR.lockView_eq]
    simp only [fun i => (hR.locals i).done_iff]

/-- After a missed wake-up the threads that are not done sleep. -/
theorem missed_wakeup_blocked : ∃ h c,
    Run (workers (FairMorrisLock.lock oneReaderTwoWriters.Tid))
      (oneReaderTwoWriters.start (FairMorrisLock.lock oneReaderTwoWriters.Tid) {}) h c ∧
    (∀ e ∈ h, ∃ i k, e.2 = .thread i k) ∧
    (∀ i, (c.locals i).Done ∨ (FairMorrisLock.lock oneReaderTwoWriters.Tid).Blocked
      ((lockView (FairMorrisLock.lock oneReaderTwoWriters.Tid)).view c) i) ∧
    ¬ (c.locals 0).Done := by
  obtain ⟨h,c,hr,hl,hq,hw,-,h₁,h₀⟩ := missed_wakeup_run
  have hI := FairMorrisLock.inv_run (run_clients hr)
  refine ⟨h,c,hr,hl,fun i => blocked_of_not_enabled fun he => ?_,h₀⟩
  match i with
  | 0 => exact not_enabled_of_asleep hI (.inl (by simp [hq])) he
  | 1 => exact not_enabled_of_done h₁ he
  | 2 => exact not_enabled_of_asleep hI (.inr (by simp [hw])) he

/-- One writer does all operations of the tests' program, and its threads can end in a deadlock. -/
theorem shipped_iff_tested_witness :
    (∃ h c, Run (testWorkers (FairMorrisLock.lock oneReaderTwoWriters.Tid))
      (oneReaderTwoWriters.startScenario (FairMorrisLock.lock oneReaderTwoWriters.Tid) {}) h c ∧
      (∀ i, (c.locals i).Done) ∧ outcome TestWorker.info c = ⟨fun i => if i = 1 then 3 else 0,3,3⟩) ∧
    ∃ h c, Run (testWorkers (FairMorrisLock.lock oneReaderTwoWriters.Tid))
      (oneReaderTwoWriters.startScenario (FairMorrisLock.lock oneReaderTwoWriters.Tid) {}) h c ∧
      (∀ i, (c.locals i).Done ∨
        (FairMorrisLock.lock oneReaderTwoWriters.Tid).Blocked (testLockView c) i) ∧
      (FairMorrisLock.lock oneReaderTwoWriters.Tid).Blocked (testLockView c) 0 := by
  obtain ⟨ho,hs⟩ := @shipped_iff_tested .FAIR_MORRIS oneReaderTwoWriters {} {}
    (fun h => by cases h) fun _ => False
  constructor
  · obtain ⟨h,hr,hl,-⟩ := Run.of_turns (m := workers (FairMorrisLock.lock oneReaderTwoWriters.Tid))
      (c := oneReaderTwoWriters.start (FairMorrisLock.lock oneReaderTwoWriters.Tid) {})
      0 [(1,63),(0,4),(2,6)] rfl
    obtain ⟨h',c',hr',-,hd,ho'⟩ := (ho ⟨fun i => if i = 1 then 3 else 0,3,3⟩).mp (by
      refine ⟨h,_,hr,.of_thread hl,fun i => ?_,congrArg (Outcome.mk · 3 3) (funext fun i => ?_)⟩
      · match i with
        | 0 | 1 | 2 => rfl
      · match i with
        | 0 | 1 | 2 => rfl)
    exact ⟨h',c',hr',hd,ho'⟩
  · obtain ⟨h,c,hr,hl,hb,h₀⟩ := missed_wakeup_blocked
    obtain ⟨h',c',hr',-,hv,hb'⟩ := (hs _).mp ⟨h,c,hr,.of_thread hl,rfl,hb⟩
    rw [← hv] at hb'
    exact ⟨h',c',hr',hb',hv ▸ (hb 0).resolve_left h₀⟩

end ReadersWriters
