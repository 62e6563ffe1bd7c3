import ReadersWriters.Interleaving.Sweep
import ReadersWriters.Uncontended
import ReadersWriters.Worker
set_option autoImplicit false

namespace ReadersWriters
open Interleaving

section
variable {ι S R W : Type} {L : RWLockBase ι S R W} {i : ι} {s : SimState S} {b a : Bool}

/-- A call of a reader that nobody disturbs. -/
theorem reader_call (info : ThreadInfo) {l l' : S} {p : R} {q : Pos R}
    (hs : Returns L.readStep .inside i q l p l') (hl : s.lock = l) : ∃ info',
    Solo (workers L) i s (.reader info (.call p)) { s with lock := l' }
      (.reader info' (.resume q)) ∧ info'.opsCompleted = info.opsCompleted := by
  induction hs generalizing s info with
  | @last k l l' p hs =>
    subst hl
    refine ⟨info.publish (L.readPublish p),.one (k := k) ?_,info.publish_opsCompleted _⟩
    simp [workers,readerThread,hs]
  | @more k l l₁ l' p p' hs _ ih =>
    subst hl
    obtain ⟨info',hr,ho⟩ := ih (info.publish (L.readPublish p)) (s := { s with lock := l₁ }) rfl
    refine ⟨info',.step (k := k) ?_ hr,ho.trans (info.publish_opsCompleted _)⟩
    simp [workers,readerThread,hs,ReaderAt.resume]

theorem writer_call (info : ThreadInfo) {l l' : S} {p : W} {q : Pos W}
    (hs : Returns L.writeStep .inside i q l p l') (hl : s.lock = l) : ∃ info',
    Solo (workers L) i s (.writer info b (.call a p)) { s with lock := l' }
      (.writer info' b (.resume a q)) ∧ info'.opsCompleted = info.opsCompleted := by
  induction hs generalizing s info with
  | @last k l l' p hs =>
    subst hl
    refine ⟨info.publish (L.writePublish p),.one (k := k) ?_,info.publish_opsCompleted _⟩
    simp [workers,writerThread,hs]
  | @more k l l₁ l' p p' hs _ ih =>
    subst hl
    obtain ⟨info',hr,ho⟩ := ih (info.publish (L.writePublish p)) (s := { s with lock := l₁ }) rfl
    refine ⟨info',.step (k := k) ?_ hr,ho.trans (info.publish_opsCompleted _)⟩
    simp [workers,writerThread,hs,WriterAt.resume]

/-- A claim that succeeds, and the lock call after it. -/
theorem reader_acquires (info : ThreadInfo) {l' : S} {q : Pos R}
    (hp : 0 < s.opsRemaining)
    (hs : Returns L.readStep .inside i q s.lock L.readLock l') : ∃ info',
    Solo (workers L) i s (.reader info .claim) { s with
      lock := l'
      opsRemaining := s.opsRemaining-1 } (.reader info' (.resume q)) ∧
      info'.opsCompleted = info.opsCompleted := by
  obtain ⟨info',hr,ho⟩ := reader_call info
    (s := { s with opsRemaining := s.opsRemaining-1 }) hs rfl
  refine ⟨info',.step (k := i) ?_ hr,ho⟩
  simp [workers,readerThread,hp]

theorem writer_acquires (info : ThreadInfo) {l' : S} {q : Pos W}
    (hb : (b && s.process.abortSignalReceived) = false)
    (hp : 0 < s.opsRemaining) (hs : Returns L.writeStep .inside i q s.lock L.writeLock l') :
    ∃ info', Solo (workers L) i s (.writer info b .abortTest) { s with
      lock := l'
      opsRemaining := s.opsRemaining-1 } (.writer info' b (.resume false q)) ∧
      info'.opsCompleted = info.opsCompleted := by
  obtain ⟨info',hr,ho⟩ := writer_call info (b := b) (a := false)
    (s := { s with opsRemaining := s.opsRemaining-1 }) hs rfl
  refine ⟨info',.via i s (.writer info b .claim) ?_ (.step (k := i) ?_ hr),ho⟩
  · simpa [workers,writerThread] using hb
  · simp [workers,writerThread,hp]

/-- The operation on the resource and the unlock call after it. -/
theorem reader_releases (info : ThreadInfo) {l' : S} {q : Pos R}
    (hs : Returns L.readStep .inside i q s.lock L.readUnlock l') : ∃ s' info',
    Solo (workers L) i s (.reader info .read) s' (.reader info' (.resume q)) ∧ s'.lock = l' ∧
      s'.opsRemaining = s.opsRemaining ∧ s'.process = s.process ∧
      info'.opsCompleted = info.opsCompleted+1 := by
  obtain ⟨info',hr,ho⟩ := reader_call { info with opsCompleted := info.opsCompleted+1 }
    (s := { s with resource := { s.resource with readCount := s.resource.readCount+1 } }) hs rfl
  exact ⟨_,info',.step (k := i) rfl (.step (k := i) rfl (.step (k := i) rfl
    (.step (k := i) rfl hr))),rfl,rfl,rfl,ho⟩

theorem writer_releases (info : ThreadInfo) {l' : S} {q : Pos W}
    (hb : (b && s.process.abortSignalReceived) = false)
    (hs : Returns L.writeStep .inside i q s.lock L.writeUnlock l') : ∃ s' info',
    Solo (workers L) i s (.writer info b .abortTestHeld) s' (.writer info' b (.resume false q)) ∧
      s'.lock = l' ∧ s'.opsRemaining = s.opsRemaining ∧ s'.process = s.process ∧
      info'.opsCompleted = info.opsCompleted+1 := by
  obtain ⟨info',hr,ho⟩ := writer_call { info with opsCompleted := info.opsCompleted+1 }
    (b := b) (a := false) (s := { s with resource := { s.resource with
      data := s.resource.data+1
      writeCount := s.resource.writeCount+1 } }) hs rfl
  refine ⟨_,info',.via i s (.writer info b .loadData) ?_ (.step (k := i) rfl (.step (k := i) rfl
    (.step (k := i) rfl (.step (k := i) rfl (.step (k := i) rfl hr))))),rfl,rfl,rfl,ho⟩
  simpa [workers,writerThread] using hb

end

namespace Worker

variable {S R W : Type}

/-- At the head of its loop, with no abort signal to obey. -/
def AtHead (s : SimState S) : Worker R W → Prop
  | .reader _ pc => pc = .claim
  | .writer _ isAbortTarget pc =>
      pc = .abortTest ∧ (isAbortTarget && s.process.abortSignalReceived) = false

theorem AtHead.congr {s s' : SimState S} {t : Worker R W} (h : t.AtHead s)
    (hs : s'.process.abortSignalReceived = s.process.abortSignalReceived) : t.AtHead s' := by
  cases t with
  | reader => exact h
  | writer =>
    simp only [AtHead,hs]
    exact h

theorem AtHead.of_reader {s : SimState S} {t : Worker R W} (h : t.AtHead s)
    (hw : t.client.isWriter = false) : ∃ info, t = .reader info .claim := by
  cases t with
  | reader info pc =>
    subst h
    exact ⟨info,rfl⟩
  | writer => cases hw

theorem AtHead.of_writer {s : SimState S} {t : Worker R W} (h : t.AtHead s)
    (hw : t.client.isWriter = true) : ∃ info b, t = .writer info b .abortTest ∧
      (b && s.process.abortSignalReceived) = false := by
  cases t with
  | reader => cases hw
  | writer info b pc =>
    obtain ⟨rfl,hb⟩ := h
    exact ⟨info,b,rfl,hb⟩

end Worker

section
variable {ι S R W : Type} {L : RWLockBase ι S R W} {i : ι} {s : SimState S} {t : Worker R W}

/-- Nobody is inside the lock. -/
def RWLockBase.Uncontended.Quiet (U : L.Uncontended) (s : SimState S) : Prop :=
  s.lock = U.rest (.readers 0)

/-- An operation of one worker from the head of its loop to the head of its loop. -/
theorem turn (U : L.Uncontended) (hs : U.Quiet s) (ht : t.AtHead s) (hp : 0 < s.opsRemaining) :
    ∃ s' t', Solo (workers L) i s t s' t' ∧ U.Quiet s' ∧ t'.AtHead s' ∧
      s'.opsRemaining = s.opsRemaining-1 ∧ s'.process = s.process ∧
      t'.info.opsCompleted = t.info.opsCompleted+1 := by
  cases t with
  | reader info pc =>
    subst ht
    obtain ⟨info₁,h₁,ho₁⟩ := reader_acquires info hp (hs ▸ U.readLock i 0)
    obtain ⟨s₂,info₂,h₂,hl₂,hr₂,hp₂,ho₂⟩ := reader_releases info₁ (i := i)
      (s := { s with lock := U.rest (.readers 1), opsRemaining := s.opsRemaining-1 })
      (U.readUnlock i 0)
    exact ⟨s₂,_,h₁.trans h₂,hl₂,rfl,hr₂,hp₂,ho₂.trans (congrArg (·+1) ho₁)⟩
  | writer info b pc =>
    obtain ⟨rfl,hb⟩ := ht
    obtain ⟨info₁,h₁,ho₁⟩ := writer_acquires info hb hp (hs ▸ U.writeLock i)
    obtain ⟨s₂,info₂,h₂,hl₂,hr₂,hp₂,ho₂⟩ := writer_releases info₁ (i := i) (b := b)
      (s := { s with lock := U.rest .writer, opsRemaining := s.opsRemaining-1 }) hb
      (U.writeUnlock i)
    exact ⟨s₂,_,h₁.trans h₂,hl₂,⟨rfl,by rw [hp₂]; exact hb⟩,hr₂,hp₂,
      ho₂.trans (congrArg (·+1) ho₁)⟩

/-- A worker that finds nothing left to claim leaves. -/
theorem leaves (ht : t.AtHead s) (hp : s.opsRemaining ≤ 0) : ∃ t',
    Solo (workers L) i s t s t' ∧ t'.Done ∧ t'.info.opsCompleted = t.info.opsCompleted := by
  have hs : { s with opsRemaining := s.opsRemaining-1+1 } = s := by
    rw [Int.sub_add_cancel]
  cases t with
  | reader info pc =>
    subst ht
    refine ⟨.reader { info with state := .DONE } .done,?_,rfl,rfl⟩
    refine .via i { s with opsRemaining := s.opsRemaining-1 } (.reader info .restore)
      (by simp [workers,readerThread,hp]) ?_
    refine .via i s (.reader info .finish) ?_ (.one (k := i) rfl)
    exact congrArg (fun s => some (s,Worker.reader info .finish)) hs
  | writer info b pc =>
    obtain ⟨rfl,hb⟩ := ht
    refine ⟨.writer { info with state := .DONE } b .done,?_,rfl,rfl⟩
    refine .via i s (.writer info b .claim) (by simpa [workers,writerThread] using hb) ?_
    refine .via i { s with opsRemaining := s.opsRemaining-1 } (.writer info b .restore)
      (by simp [workers,writerThread,hp]) ?_
    refine .via i s (.writer info b .finish) ?_ (.one (k := i) rfl)
    exact congrArg (fun s => some (s,Worker.writer info b .finish)) hs

end

end ReadersWriters
