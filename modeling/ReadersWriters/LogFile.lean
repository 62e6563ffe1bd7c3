import ReadersWriters.LogComplete
set_option autoImplicit false

namespace ReadersWriters
open CommandLine Interleaving Text

/-- The text of some lines, read back line by line. -/
theorem readLog_lines {α ν : Type} (lines : List (Printed α ν Char)) :
    readLog (Printer.text '\n' lines) = lines.flatMap fun x => readLog x.text := by
  induction lines with
  | nil => rfl
  | cons x lines ih =>
    have ht : Printer.text '\n' (x :: lines) = x.text ++ '\n' :: Printer.text '\n' lines := by
      simp [Printer.text]
    rw [ht,readLog_append,ih,List.flatMap_cons]

section
variable {ι : Type} {i : ι} {rounds : List Round} {cs : List (Call ι)} {n : Int}

/-- A call of a worker about itself, on one line and not an alert. -/
def Call.Own (i : ι) : Call ι → Prop
  | .record j st _ msg => j = i ∧ st ≠ .BLOCKED ∧ OneLine msg
  | .summary j => j = i
  | .alert _ _ | .header _ => False

theorem oneLine_readMessage (algo : AlgoType) (rc : Int) (st : ThreadState) :
    OneLine (algo.readMessage rc st) := by
  cases algo <;> cases st
  case READER_PRIORITY.ACTIVE | READER_PRIORITY.RELEASING | WRITER_PRIORITY.ACTIVE |
    WRITER_PRIORITY.RELEASING | FAIR_MORRIS.ACTIVE | FAIR_MORRIS.RELEASING =>
    exact .append (by decide) (oneLine_decimal rc)
  case READER_PRIORITY.WAITING | WRITER_PRIORITY.WAITING | FAIR_MORRIS.WAITING =>
    rw [readMessage_waiting]
    decide
  all_goals exact List.forall_mem_nil _

theorem oneLine_writeMessage (algo : AlgoType) (st : ThreadState) :
    OneLine (algo.writeMessage st) := by
  cases algo <;> cases st <;> decide

theorem Round.own {message : Int → ThreadState → List Char} (hm : ∀ rc st, OneLine (message rc st))
    (rs : List Round) : ∀ v ∈ rs.flatMap (Round.calls i message), v.Own i := by
  intro v hv
  obtain ⟨r,-,hv⟩ := List.mem_flatMap.mp hv
  simp only [Round.calls,List.mem_cons,List.not_mem_nil,or_false] at hv
  rcases hv with rfl | rfl | rfl <;> exact ⟨rfl,by decide,hm _ _⟩

theorem ReaderLife.own {algo : AlgoType} (h : ReaderLife algo i n rounds cs) :
    ∀ v ∈ cs, v.Own i := by
  obtain ⟨-,rfl⟩ := h
  intro v hv
  rcases List.mem_append.mp hv with hv | hv
  · rcases List.mem_append.mp hv with hv | hv
    · rw [List.mem_singleton.mp hv]
      exact ⟨rfl,by decide,by decide⟩
    · exact Round.own (oneLine_readMessage algo) rounds v hv
  · simp only [List.mem_cons,List.not_mem_nil,or_false] at hv
    rcases hv with rfl | rfl
    · exact ⟨rfl,by decide,by decide⟩
    · rfl

theorem WriterEnding.own {b : Bool} {k : Int} (h : WriterEnding i b cs k) :
    ∀ v ∈ cs, v.Own i := by
  intro v hv
  cases h <;> simp only [List.mem_cons,List.not_mem_nil,or_false] at hv
  case abort =>
    rcases hv with rfl | rfl | rfl
    · exact ⟨rfl,by decide,by decide⟩
    · exact ⟨rfl,by decide,by decide⟩
    · rfl
  all_goals
    rcases hv with rfl | rfl
    · exact ⟨rfl,by decide,by decide⟩
    · rfl

theorem WriterLife.own {algo : AlgoType} {b : Bool} (h : WriterLife algo i b n rounds cs) :
    ∀ v ∈ cs, v.Own i := by
  obtain ⟨ending,k,he,-,rfl⟩ := h
  intro v hv
  rcases List.mem_append.mp hv with hv | hv
  · rcases List.mem_append.mp hv with hv | hv
    · rcases List.mem_append.mp hv with hv | hv
      · split at hv
        · rw [List.mem_singleton.mp hv]
          exact ⟨rfl,by decide,by decide⟩
        · cases hv
      · rw [List.mem_singleton.mp hv]
        exact ⟨rfl,by decide,by decide⟩
    · exact Round.own (fun _ => oneLine_writeMessage algo) rounds v hv
  · exact he.own v hv

theorem Workload.Life.own {cfg : Workload} {algo : AlgoType} {i : cfg.Tid} {n : Int}
    {rounds : List Round} {cs : List (Call cfg.Tid)} (h : cfg.Life algo i n rounds cs) :
    ∀ v ∈ cs, v.Own i := by
  unfold Workload.Life at h
  split at h
  · exact WriterLife.own h
  · exact ReaderLife.own h

end

/-- The wait that is passed with a call. -/
def Call.waitMs {ι : Type} : Call ι → Int
  | .record _ _ waitMs _ | .alert _ waitMs => waitMs
  | .summary _ | .header _ => 0

/-- The entry is from a worker's own lines; those about it that say BLOCKED are alerts. -/
def Entry.ofWorker {n : ℕ} (i : Fin n) : Entry → Bool
  | .record _ info state _ _ => info.tid = i.val+1 ∧ state ≠ .BLOCKED
  | .summary _ info _ _ _ _ => info.tid = i.val+1

section
variable {cfg : Workload} {algo : AlgoType} {w : LogSetup} {starveThresholdMs : Int}
  {process : Process} {before : List (Printed (cfg.Tid ⊕ Actor) (Call cfg.Tid) Char)}

/-- The entry says what the call did and when its line was made; a summary tells the starvation
events that had been counted then. -/
def Says (cfg : Workload) (algo : AlgoType) (h : List (LoggedEvent cfg algo))
    (c : LoggedConfig cfg algo) (i : cfg.Tid) (call : Call cfg.Tid) (e : Entry) : Prop :=
  ∃ o n, Counted h i call o n ∧ (call.final cfg algo c n).entry o = some e

theorem fitsInt_tid (i : cfg.Tid) : FitsInt (cfg.identity algo i).tid := by
  have h₁ := i.isLt
  have h₂ := cfg.totalThreads_int
  constructor
  · change (-2147483648 : Int) ≤ (i.val : Int)+1
    omega
  · change (i.val : Int)+1 ≤ 2147483647
    omega

theorem oneLine_hdrText (cfg : Workload) (algo : AlgoType) : OneLine (cfg.hdrText algo) := by
  have hd := oneLine_decimal
  have ha : OneLine (algoLongName algo) := by cases algo <;> decide
  have h₁ : OneLine "Algorithm: ".toList := by decide
  have h₂ : OneLine "  |  Readers: ".toList := by decide
  have h₃ : OneLine "  |  Writers: ".toList := by decide
  have h₄ : OneLine "  |  Ops: ".toList := by decide
  exact ((((((h₁.append ha).append h₂).append (hd _)).append h₃).append (hd _)).append h₄).append
    (hd _)

theorem oneLine_completeText {result : List Char} (h : OneLine result) :
    OneLine (completeText result) := .append (by decide) h

variable {h : List (LoggedEvent cfg algo)} {c : LoggedConfig cfg algo}

/-- The values that the log of a simulation shows are such as their types allow. -/
structure InRange (c : LoggedConfig cfg algo) : Prop where
  waits : ∀ x ∈ c.shared.printer.lines, FitsLong x.call.waitMs
  opsCompleted : ∀ i, FitsInt (c.locals i).1.worker.info.opsCompleted
  totalWaitMs : ∀ i, FitsLong (c.shared.base.watched.record i).totalWaitMs
  starveCount : ∀ i, FitsInt (c.shared.base.watched.record i).starveCount

/-- The line of a worker's call, read back. -/
theorem readLog_own
    (hr : Run (logged cfg algo w starveThresholdMs) (loggedStart cfg algo w process before) h c)
    (hR : InRange c) {v : Call cfg.Tid} {i : cfg.Tid} {text : List Char} (hv : v.Own i)
    (hw : FitsLong v.waitMs) (ht : Rendered cfg algo h c i v text) :
    ∃ e, readLog text = [e] ∧ Says cfg algo h c i v e ∧
      ∀ j, Entry.ofWorker j e = decide (i = j) := by
  obtain ⟨o,n,hn,rfl⟩ := ht
  obtain ⟨hn₀,hn₁⟩ := counted_bounds hr hn
  cases v with
  | record k st ms msg =>
    obtain ⟨rfl,hst,hm⟩ := hv
    refine ⟨_,LogCall.readLog_line (c := .record _ st ms msg) ⟨fitsInt_tid k,hw,hm⟩ o,
      ⟨o,n,hn,rfl⟩,fun j => ?_⟩
    simp [Entry.ofWorker,Workload.identity,hst,Fin.ext_iff]
  | summary k =>
    obtain rfl := hv
    have hns : FitsInt n := ⟨le_trans (by decide) hn₀,hn₁.trans (hR.starveCount k).2⟩
    refine ⟨_,LogCall.readLog_line (c := .summary _ _ _ n)
      ⟨fitsInt_tid k,hR.opsCompleted k,hR.totalWaitMs k,hns⟩ o,⟨o,n,hn,rfl⟩,fun j => ?_⟩
    simp [Entry.ofWorker,Workload.identity,Fin.ext_iff]
  | alert | header => exact hv.elim

/-- The log file, as far as it has been handed to the stream of the C library, is at every moment
what went to `stdout`, but for a part of the last line that the thread with the mutex is about to
write. To both something is only added. -/
theorem log_file_mirrors
    (hr : Run (logged cfg algo w starveThresholdMs) (loggedStart cfg algo w process before) h c)
    (hf : w.logFile = true) : before <+: c.shared.printer.lines ∧
    (∃ rest, c.shared.printer.copy ++ rest = Printer.text '\n' c.shared.printer.lines ∧
      (rest = [] ∨ ∃ a pre x, c.shared.printer.mutex = some a ∧
        c.shared.printer.lines = pre ++ [x] ∧ x.author = a ∧ rest <:+ x.text ++ ['\n'])) ∧
    ∀ h' c', Run (logged cfg algo w starveThresholdMs) c h' c' →
      c.shared.printer.lines <+: c'.shared.printer.lines ∧
        c.shared.printer.copy <+: c'.shared.printer.copy := by
  have hS := Talk.sound_run hr
  refine ⟨Talk.lines_run hr,⟨_,hS.copy hf,?_⟩,fun _ _ hr' => Talk.grows_run hr'⟩
  cases hm : c.shared.printer.mutex with
  | none => exact .inl rfl
  | some a =>
    by_cases ho : (c.shared.printer.place a).owed (talk cfg algo w).newline = []
    · exact .inl ho
    · obtain ⟨pre,x,hl,hx,hsuf⟩ := hS.last a ho
      exact .inr ⟨a,pre,x,rfl,hl,hx,hsuf⟩

theorem alerting_isSome : ((logged threeOperations .READER_PRIORITY {} 500).exec
    [.env (.inr (.watchdog,noon))] starving).isSome = true := by decide +kernel

/-- The alert of the watchdog is on `stdout`, and the file ends before it. -/
theorem log_file_mirrors_witness : ∃ h c, Run (logged threeOperations .READER_PRIORITY {} 500)
      (loggedStart threeOperations .READER_PRIORITY {} {} []) h c ∧
    (∃ rest, rest ≠ [] ∧ c.shared.printer.copy ++ rest = Printer.text '\n' c.shared.printer.lines ∧
      ∃ pre x, c.shared.printer.lines = pre ++ [x] ∧ x.author = .inr .watchdog ∧
        rest <:+ x.text ++ ['\n']) ∧
    ∀ h' c', Run (logged threeOperations .READER_PRIORITY {} 500) c h' c' →
      c.shared.printer.lines <+: c'.shared.printer.lines ∧
        c.shared.printer.copy <+: c'.shared.printer.copy := by
  obtain ⟨h,hr,-⟩ := Run.of_exec _ (Option.some_get alerting_isSome).symm
  obtain ⟨-,⟨rest,hrest,hlast⟩,hgrows⟩ := log_file_mirrors (starving_run.append hr) rfl
  have hne : rest ≠ [] := by
    rintro rfl
    rw [List.append_nil] at hrest
    revert hrest
    decide +kernel
  obtain hnil | ⟨a,pre,x,hm,hl,ha,hsuf⟩ := hlast
  · exact absurd hnil hne
  · have hdog : (Option.get _ alerting_isSome).shared.printer.mutex = some (.inr .watchdog) := by
      decide +kernel
    cases hm.symm.trans hdog
    exact ⟨_,_,starving_run.append hr,⟨rest,hne,hrest,pre,x,hl,ha,hsuf⟩,hgrows⟩

/-- Nobody has the mutex when the main thread is done with its last header. -/
theorem mutex_free
    (hr : Run (logged cfg algo w starveThresholdMs) (loggedStart cfg algo w process before) h c)
    (hm : c.shared.base.main = .ended false) (hi : c.shared.printer.Idle (.inr .main)) :
    c.shared.printer.mutex = none := by
  have hJ := joined_run hr
  cases ha : c.shared.printer.mutex with
  | none => rfl
  | some a =>
    have hh := ((Talk.sound_run hr).holder a).mp ha
    have hidle : c.shared.printer.Idle a := by
      rcases a with j | j
      · exact hJ.workers j (by rw [hm]; trivial)
      · cases j with
        | main => exact hi
        | watchdog => exact (hJ.watchdog false hm).2
    rw [PrintAt.eq_outside hidle.1] at hh
    cases hh

/-- The entries in the file are those of the lines. -/
theorem readLog_file
    (hr : Run (logged cfg algo w starveThresholdMs) (loggedStart cfg algo w process before) h c)
    (hm : c.shared.base.main = .ended false) (hi : c.shared.printer.Idle (.inr .main))
    (hf : w.logFile = true) :
    readLog c.shared.printer.copy = c.shared.printer.lines.flatMap fun x => readLog x.text := by
  have hcopy := (Talk.sound_run hr).copy hf
  simp only [mutex_free hr hm hi,Option.elim_none,List.append_nil] at hcopy
  rw [hcopy]
  exact readLog_lines _

/-- What a line of the log reads back as. -/
inductive ReadsBack (cfg : Workload) (algo : AlgoType) (h : List (LoggedEvent cfg algo))
    (c : LoggedConfig cfg algo) (x : Printed (cfg.Tid ⊕ Actor) (Call cfg.Tid) Char) :
    List Entry → Prop where
  | worker {i : cfg.Tid} {e : Entry} : x.author = .inl i → Says cfg algo h c i x.call e →
      (∀ j, Entry.ofWorker j e = decide (i = j)) → ReadsBack cfg algo h c x [e]
  | watchdog {i : cfg.Tid} {waitMs : Int} {o : WallClock} : x.author = .inr .watchdog →
      x.call = .alert i waitMs → ReadsBack cfg algo h c x
        [.record o.time (cfg.identity algo i) .BLOCKED (some waitMs)
          "STARVATION ALERT - threshold exceeded".toList]
  | main : x.author = .inr .main → ReadsBack cfg algo h c x []

theorem readsBack_run
    (hr : Run (logged cfg algo w starveThresholdMs) (loggedStart cfg algo w process []) h c)
    (hm : c.shared.base.main = .ended false) (hi : c.shared.printer.Idle (.inr .main))
    (hn : OneLine w.result) (hR : InRange c) {x : Printed (cfg.Tid ⊕ Actor) (Call cfg.Tid) Char}
    (hx : x ∈ c.shared.printer.lines) : ReadsBack cfg algo h c x (readLog x.text) := by
  have hmem : ∀ {a}, x.author = a → x.call ∈
      ((c.shared.printer.lines.drop 0).filter fun x => x.author = a).map Printed.call :=
    fun ha => List.mem_map_of_mem (List.mem_filter.mpr ⟨hx,by simpa using ha⟩)
  rcases ha : x.author with i | (_ | _)
  · obtain ⟨cs,hlife,hlines⟩ := worker_lines hr hm i
    have hown : x.call.Own i := hlife.own _ (List.mem_of_mem_filter (p := Call.passes w.level)
      (hlines ▸ hmem ha))
    obtain ⟨e,he,htells,hof⟩ := readLog_own hr hR hown (hR.waits x hx) (rendered_run hr hx ha)
    rw [he]
    exact .worker ha htells hof
  · have hheader : ∃ text, x.call = .header text ∧ OneLine text := by
      have hmain := main_lines hr hm hi ▸ hmem ha
      simp only [List.mem_cons,List.not_mem_nil,or_false] at hmain
      rcases hmain with hx | hx
      · exact ⟨_,hx,oneLine_hdrText cfg algo⟩
      · exact ⟨_,hx,oneLine_completeText hn⟩
    obtain ⟨text,hc,htext⟩ := hheader
    rw [(actor_lines hr hx ha).1 text hc,Logger.readLog_header htext]
    exact .main ha
  · obtain ⟨i,waitMs,hc,-⟩ := (watchdog_lines hr hm).alerts x.call (hmem ha)
    have hw := hR.waits x hx
    rw [hc] at hw
    obtain ⟨o,ht⟩ := (actor_lines hr hx ha).2 i waitMs hc
    rw [ht]
    have hline := LogCall.readLog_line (c := .alert (cfg.identity algo i) waitMs)
      ⟨fitsInt_tid i,hw⟩ o
    exact hline ▸ .watchdog ha hc

end

/-- The values of the threads that have shared three operations. -/
theorem recovered_inRange : InRange recovered where
  waits := by decide +kernel
  opsCompleted := by decide +kernel
  totalWaitMs := by decide +kernel
  starveCount := by decide +kernel

end ReadersWriters
