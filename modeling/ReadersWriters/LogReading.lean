import ReadersWriters.CommandLine.Decimal
import ReadersWriters.Logger
set_option autoImplicit false

namespace ReadersWriters
open CommandLine Text

/-- The time of a line. -/
structure Time where
  hour : ℕ
  min : ℕ
  sec : ℕ
  ms : ℕ
  deriving DecidableEq, Repr

def WallClock.time (t : WallClock) : Time where
  hour := t.tm_hour
  min := t.tm_min
  sec := t.tm_sec
  ms := t.tv_nsec/1000000

/-- What a line says. -/
inductive Entry where
  | record (time : Time) (info : Identity) (state : ThreadState) (waitMs : Option Int)
    (msg : List Char)
  | summary (time : Time) (info : Identity)
    (opsCompleted totalWaitMs avgWait starveCount : Int)
  deriving DecidableEq, Repr

namespace Entry

def readState (cs : List Char) : Option ThreadState :=
  [ThreadState.INIT,.WAITING,.ACTIVE,.BLOCKED,.RELEASING,.DONE].find? (stateName · = cs)

def readType (cs : List Char) : Option ThreadType :=
  [ThreadType.READER,.WRITER].find? (threadTypeName · = cs)

def readAlgo (cs : List Char) : Option AlgoType :=
  [AlgoType.READER_PRIORITY,.WRITER_PRIORITY,.FAIR_MORRIS].find? (algoShortName · = cs)

def readTime (cs : List Char) : Option Time := do
  let (hour,cs) ← cut ':' cs
  let hour ← readNat hour
  let (min,cs) ← cut ':' cs
  let min ← readNat min
  let (sec,cs) ← cut '.' cs
  let sec ← readNat sec
  let ms ← readNat cs
  pure ⟨hour,min,sec,ms⟩

/-- A wait, with the spaces of `record` after it or those of `alert` inside. -/
def readWait (cs : List Char) : Option (Option Int) :=
  if cs = "--".toList then some none
  else (before "ms".toList cs).bind fun ds => (readInt (trimRight ds)).map some

/-- A field between two bars, behind its label. -/
def field (label cs : List Char) : Option (List Char) := (after label cs).map trimRight

/-- What follows the bar behind `SUMMARY`. -/
def ofSummary (time : Time) (info : Identity) (cs : List Char) : Option Entry := do
  let (ops,cs) ← cut '|' cs
  let ops ← (field " OPS:".toList ops).bind readInt
  let (total,cs) ← cut '|' cs
  let total ← ((field " TOTAL_WAIT:".toList total).bind (before "ms".toList)).bind readInt
  let (avg,cs) ← cut '|' cs
  let avg ← ((field " AVG_WAIT:".toList avg).bind (before "ms".toList)).bind readInt
  let starve ← (after " STARVE_EVENTS:".toList cs).bind readInt
  pure (.summary time info ops total avg starve)

/-- What follows the bar behind the state; the message is what is left in the end. -/
def ofRecord (time : Time) (info : Identity) (state : ThreadState) (cs : List Char) :
    Option Entry := do
  let (wait,cs) ← cut '|' cs
  let wait ← (field " WAIT:".toList wait).bind readWait
  let msg ← after " MSG:".toList cs
  pure (.record time info state wait msg)

/-- What follows the fields about the thread. -/
def ofRest (time : Time) (info : Identity) (cs : List Char) : Option Entry := do
  let (kind,cs) ← cut '|' cs
  if kind = " SUMMARY ".toList then ofSummary time info cs
  else
    let state ← (field " STATE:".toList kind).bind readState
    ofRecord time info state cs

def ofLine (line : List Char) : Option Entry := do
  let (time,cs) ← cut '|' line
  let time ← ((field "[".toList time).bind (before "]".toList)).bind readTime
  let (tid,cs) ← cut '|' cs
  let tid ← (field " TID:".toList tid).bind readInt
  let (type,cs) ← cut '|' cs
  let type ← (field " TYPE:".toList type).bind readType
  let (algo,cs) ← cut '|' cs
  let algo ← (field " ALGO:".toList algo).bind readAlgo
  ofRest time ⟨tid,type,algo⟩ cs

theorem field_append {label cs : List Char} (h : cs.getLast? ≠ some ' ') (k : ℕ) :
    field label (label ++ (cs ++ List.replicate k ' ')) = some cs := by
  rw [field,after_append,Option.map_some,trimRight_spaces h]

theorem readState_stateName (st : ThreadState) : readState (stateName st) = some st := by
  cases st <;> rfl

theorem readType_threadTypeName (t : ThreadType) : readType (threadTypeName t) = some t := by
  cases t <;> rfl

theorem readAlgo_algoShortName (a : AlgoType) : readAlgo (algoShortName a) = some a := by
  cases a <;> rfl

end Entry

namespace Logger

variable {t : WallClock} {info : Identity}

/-- Bars stand only between the fields. -/
theorem bar_notMem_formatTimestamp : '|' ∉ formatTimestamp t := by
  intro h
  have hp : ∀ w n, '|' ∉ padded w n := fun w n hm => by
    have hd := isDigit_of_mem_padded hm
    revert hd
    decide
  have hm := List.mem_of_mem_take h
  simp [hp] at hm

theorem formatTimestamp_eq : formatTimestamp t = padded 2 t.tm_hour ++ ':' ::
    (padded 2 t.tm_min ++ ':' :: (padded 2 t.tm_sec ++ '.' :: padded 3 (t.tv_nsec/1000000))) := by
  have h₁ : (padded 2 t.tm_hour).length = 2 := length_padded (by decide) (by omega)
  have h₂ : (padded 2 t.tm_min).length = 2 := length_padded (by decide) (by omega)
  have h₃ : (padded 2 t.tm_sec).length = 2 := length_padded (by decide) (by omega)
  have h₄ : (padded 3 (t.tv_nsec/1000000)).length = 3 := length_padded (by decide) (by omega)
  rw [formatTimestamp,snprintf_of_lt]
  · simp
  · simp [h₁,h₂,h₃,h₄]

theorem readTime_formatTimestamp : Entry.readTime (formatTimestamp t) = some t.time := by
  have hp : ∀ w n, ':' ∉ padded w n ∧ '.' ∉ padded w n := fun w n => by
    constructor <;> exact fun hm => absurd (isDigit_of_mem_padded hm) (by decide)
  rw [formatTimestamp_eq,Entry.readTime,cut_append (hp _ _).1]
  simp only [Option.bind_eq_bind,Option.bind_some,readNat_padded]
  rw [cut_append (hp _ _).1]
  simp only [Option.bind_some,readNat_padded]
  rw [cut_append (hp _ _).2]
  simp only [Option.bind_some,readNat_padded]
  rfl

theorem leftAligned_threadTypeName (x : ThreadType) :
    leftAligned 1 (threadTypeName x) = threadTypeName x := by cases x <;> rfl

theorem leftAligned_algoShortName (a : AlgoType) :
    leftAligned 2 (algoShortName a) = algoShortName a := by cases a <;> rfl

theorem bar_notMem_threadTypeName (x : ThreadType) : '|' ∉ threadTypeName x := by
  cases x <;> decide

theorem bar_notMem_algoShortName (a : AlgoType) : '|' ∉ algoShortName a := by cases a <;> decide

theorem bar_notMem_stateName (st : ThreadState) : '|' ∉ stateName st := by cases st <;> decide

theorem prefixOf_bar (rest : List Char) : prefixOf t info ++ ' ' :: '|' :: rest =
    ("[".toList ++ ((formatTimestamp t ++ "]".toList) ++ List.replicate 1 ' ')) ++ '|' ::
    ((" TID:".toList ++ (zeroPadded 3 info.tid ++ List.replicate 1 ' ')) ++ '|' ::
    ((" TYPE:".toList ++ (threadTypeName info.type ++ List.replicate 1 ' ')) ++ '|' ::
    ((" ALGO:".toList ++ (algoShortName info.algo ++ List.replicate 1 ' ')) ++ '|' :: rest))) := by
  delta prefixOf
  simp [leftAligned_threadTypeName,leftAligned_algoShortName]

theorem ofLine_prefixOf (rest : List Char) :
    Entry.ofLine (prefixOf t info ++ ' ' :: '|' :: rest) =
      Entry.ofRest t.time info rest := by
  have hz : '|' ∉ zeroPadded 3 info.tid := notMem_zeroPadded (by decide) (by decide) 3 info.tid
  have hs : ' ' ∉ zeroPadded 3 info.tid := notMem_zeroPadded (by decide) (by decide) 3 info.tid
  have ht : (threadTypeName info.type).getLast? ≠ some ' ' := by cases info.type <;> decide
  have ha : (algoShortName info.algo).getLast? ≠ some ' ' := by cases info.algo <;> decide
  have hb : (formatTimestamp t ++ "]".toList).getLast? ≠ some ' ' := by simp
  rw [prefixOf_bar,Entry.ofLine,cut_append (by simp [bar_notMem_formatTimestamp])]
  simp only [Option.bind_eq_bind,Option.bind_some,Entry.field_append hb,before_append,
    readTime_formatTimestamp]
  rw [cut_append (by simp [hz])]
  simp only [Option.bind_some,Entry.field_append (getLast?_ne_of_notMem hs),readInt_zeroPadded]
  rw [cut_append (by simp [bar_notMem_threadTypeName])]
  simp only [Option.bind_some,Entry.field_append ht,Entry.readType_threadTypeName]
  rw [cut_append (by simp [bar_notMem_algoShortName])]
  simp only [Option.bind_some,Entry.field_append ha,Entry.readAlgo_algoShortName]

theorem length_prefixOf_le (h : info.tid.natAbs < 10^10) : (prefixOf t info).length ≤ 60 := by
  have hz := length_zeroPadded_le (by decide) 3 h
  have ht : (formatTimestamp t).length ≤ 19 := List.length_take_le ..
  have hx : (leftAligned 1 (threadTypeName info.type)).length = 1 := by cases info.type <;> rfl
  have ha : (leftAligned 2 (algoShortName info.algo)).length = 2 := by cases info.algo <;> rfl
  delta prefixOf
  simp only [List.length_append,hx,ha]
  have h₁ : "[".toList.length = 1 := rfl
  have h₂ : "] | TID:".toList.length = 8 := rfl
  have h₃ : " | TYPE:".toList.length = 8 := rfl
  have h₄ : " | ALGO:".toList.length = 8 := rfl
  omega

theorem space_notMem_waitBuf (w : Int) : ' ' ∉ waitBuf w := by
  intro h
  have hd : ' ' ∉ decimal w := notMem_decimal (by decide) (by decide) w
  have hm := List.mem_of_mem_take h
  split at hm <;> simp [hd] at hm

theorem bar_notMem_waitBuf (w : Int) : '|' ∉ waitBuf w := by
  intro h
  have hd : '|' ∉ decimal w := notMem_decimal (by decide) (by decide) w
  have hm := List.mem_of_mem_take h
  split at hm <;> simp [hd] at hm

theorem readWait_waitBuf {w : Int} (hw : w.natAbs < 10^19) :
    Entry.readWait (waitBuf w) = some (if w ≥ 0 then some w else none) := by
  have hl := length_decimal_le (by decide) hw
  by_cases h : w ≥ 0
  · have hne : decimal w ++ "ms".toList ≠ "--".toList := fun he => by
      have hx := congrArg List.getLast? he
      simp at hx
    have hs : ' ' ∉ decimal w := notMem_decimal (by decide) (by decide) w
    have ht : trimRight (decimal w) = decimal w := by
      simpa using trimRight_spaces (getLast?_ne_of_notMem hs) 0
    rw [waitBuf,if_pos h,snprintf_of_lt (by simp; omega),Entry.readWait,if_neg hne,before_append,
      Option.bind_some,ht,readInt_decimal,if_pos h]
    rfl
  · rw [waitBuf,if_neg h,if_neg h]
    rfl

/-- The line of `record` up to its message. -/
def recordHead (t : WallClock) (info : Identity) (state : ThreadState) (waitMs : Int) : List Char :=
  prefixOf t info ++ " | STATE:".toList ++ leftAligned 9 (stateName state) ++
    " | WAIT:".toList ++ leftAligned 8 (waitBuf waitMs) ++ " | MSG:".toList

theorem length_recordHead_le {st : ThreadState} {w : Int} (h : info.tid.natAbs < 10^10) :
    (recordHead t info st w).length ≤ 125 := by
  have hp := length_prefixOf_le (t := t) h
  have hs : (leftAligned 9 (stateName st)).length = 9 := by cases st <;> rfl
  have hw : (waitBuf w).length ≤ 31 := List.length_take_le ..
  have hl : (leftAligned 8 (waitBuf w)).length ≤ 31 := by
    simp only [leftAligned,List.length_append,List.length_replicate]
    omega
  simp only [recordHead,List.length_append,hs]
  have h₁ : " | STATE:".toList.length = 9 := rfl
  have h₂ : " | WAIT:".toList.length = 8 := rfl
  have h₃ : " | MSG:".toList.length = 7 := rfl
  omega

/-- Only the message can be cut. -/
theorem record_eq {st : ThreadState} {w : Int} (h : info.tid.natAbs < 10^10) (msg : List Char) :
    record t info st w msg = recordHead t info st w ++
      (cString msg).take (511-(recordHead t info st w).length) := by
  have hl : (recordHead t info st w).length ≤ 125 := length_recordHead_le h
  have ht : (recordHead t info st w).take 511 = recordHead t info st w :=
    List.take_of_length_le (by omega)
  calc record t info st w msg = (recordHead t info st w ++ cString msg).take 511 := rfl
    _ = recordHead t info st w ++ (cString msg).take (511-(recordHead t info st w).length) := by
      rw [List.take_append,ht]

theorem ofLine_recordHead {st : ThreadState} {w : Int} (hw : w.natAbs < 10^19) (msg : List Char) :
    Entry.ofLine (recordHead t info st w ++ msg) = some (.record t.time info st
      (if w ≥ 0 then some w else none) msg) := by
  have hst : (stateName st).getLast? ≠ some ' ' := by cases st <;> decide
  have hbar : recordHead t info st w ++ msg = prefixOf t info ++ ' ' :: '|' ::
      ((" STATE:".toList ++ (stateName st ++ List.replicate (9-(stateName st).length+1) ' ')) ++
      '|' :: ((" WAIT:".toList ++ (waitBuf w ++ List.replicate (8-(waitBuf w).length+1) ' ')) ++
      '|' :: (" MSG:".toList ++ msg))) := by
    simp only [← leftAligned_space]
    simp [recordHead]
  rw [hbar,ofLine_prefixOf,Entry.ofRest,cut_append (by simp [bar_notMem_stateName])]
  simp only [Option.bind_eq_bind,Option.bind_some]
  rw [if_neg (by simp),Entry.field_append hst,Option.bind_some,Entry.readState_stateName,
    Option.bind_some,Entry.ofRecord,cut_append (by simp [bar_notMem_waitBuf])]
  simp only [Option.bind_eq_bind,Option.bind_some,
    Entry.field_append (getLast?_ne_of_notMem (space_notMem_waitBuf w)),readWait_waitBuf hw,
    after_append]
  rfl

theorem trimRight_leftAligned {cs : List Char} (h : ' ' ∉ cs) (width : ℕ) :
    trimRight (leftAligned width cs) = cs :=
  trimRight_spaces (getLast?_ne_of_notMem h) _

theorem ofLine_alert (h : info.tid.natAbs < 10^10) {w : Int} (hw : w.natAbs < 10^19) :
    Entry.ofLine (alert t info w) = some (.record t.time info .BLOCKED (some w)
      "STARVATION ALERT - threshold exceeded".toList) := by
  have hd := length_decimal_le (by decide) hw
  have hp := length_prefixOf_le (t := t) h
  have hs : ' ' ∉ decimal w := notMem_decimal (by decide) (by decide) w
  have hb : '|' ∉ decimal w := notMem_decimal (by decide) (by decide) w
  have hll : (leftAligned 8 (decimal w)).length ≤ 20 := by
    simp only [leftAligned,List.length_append,List.length_replicate]
    omega
  have hlb : '|' ∉ leftAligned 8 (decimal w) := by
    intro hm
    rcases List.mem_append.mp hm with hm | hm
    · exact hb hm
    · exact absurd (List.eq_of_mem_replicate hm) (by decide)
  have hne : leftAligned 8 (decimal w) ++ "ms".toList ≠ "--".toList := fun he => by
    have hx := congrArg List.getLast? he
    simp at hx
  have hms : (leftAligned 8 (decimal w) ++ "ms".toList).getLast? ≠ some ' ' := by simp
  have hl : alert t info w = prefixOf t info ++ ' ' :: '|' ::
      ((" STATE:".toList ++ ("BLOCKED".toList ++ List.replicate 4 ' ')) ++ '|' ::
      ((" WAIT:".toList ++ ((leftAligned 8 (decimal w) ++ "ms".toList) ++ List.replicate 1 ' ')) ++
      '|' :: (" MSG:".toList ++ "STARVATION ALERT - threshold exceeded".toList))) := by
    rw [alert,snprintf_of_lt]
    · simp
    · simp only [List.length_append]
      have h₁ : " | STATE:BLOCKED    | WAIT:".toList.length = 27 := rfl
      have h₂ : "ms | MSG:STARVATION ALERT - threshold exceeded".toList.length = 46 := rfl
      omega
  rw [hl,ofLine_prefixOf,Entry.ofRest,cut_append (by decide)]
  simp only [Option.bind_eq_bind,Option.bind_some]
  rw [if_neg (by decide),Entry.field_append (by decide),Option.bind_some,
    show Entry.readState "BLOCKED".toList = some .BLOCKED from rfl,Option.bind_some,
    Entry.ofRecord,cut_append (by simp [hlb])]
  simp only [Option.bind_eq_bind,Option.bind_some,Entry.field_append hms,Entry.readWait,if_neg hne,
    before_append,trimRight_leftAligned hs,readInt_decimal,after_append]
  rfl

theorem natAbs_avgWait_le (ops total : Int) : (avgWait ops total).natAbs ≤ total.natAbs := by
  unfold avgWait
  split
  · rw [Int.natAbs_tdiv]
    exact Nat.div_le_self _ _
  · exact Nat.zero_le _

/-- The line of `summary` behind the fields about the thread. -/
theorem summary_eq (h : info.tid.natAbs < 10^10) {ops total starve : Int}
    (ho : ops.natAbs < 10^10) (hw : total.natAbs < 10^19) (hs : starve.natAbs < 10^10) :
    summary t info ops total starve = prefixOf t info ++ ' ' :: '|' ::
      (" SUMMARY ".toList ++ '|' ::
      ((" OPS:".toList ++ (decimal ops ++ List.replicate 1 ' ')) ++ '|' ::
      ((" TOTAL_WAIT:".toList ++ ((decimal total ++ "ms".toList) ++ List.replicate 1 ' ')) ++
      '|' :: ((" AVG_WAIT:".toList ++ ((decimal (avgWait ops total) ++ "ms".toList) ++
      List.replicate 1 ' ')) ++ '|' :: (" STARVE_EVENTS:".toList ++ decimal starve))))) := by
  have hp := length_prefixOf_le (t := t) h
  have hd₁ := length_decimal_le (by decide) ho
  have hd₂ := length_decimal_le (by decide) hw
  have hd₃ := length_decimal_le (by decide) (lt_of_le_of_lt (natAbs_avgWait_le ops total) hw)
  have hd₄ := length_decimal_le (by decide) hs
  rw [summary,snprintf_of_lt]
  · simp
  · simp only [List.length_append]
    have h₁ : " | SUMMARY | ".toList.length = 13 := rfl
    have h₂ : "OPS:".toList.length = 4 := rfl
    have h₃ : " | TOTAL_WAIT:".toList.length = 14 := rfl
    have h₄ : " | AVG_WAIT:".toList.length = 12 := rfl
    have h₅ : " | STARVE_EVENTS:".toList.length = 17 := rfl
    have h₆ : "ms".toList.length = 2 := rfl
    omega

theorem ofSummary_fields (time : Time) (ops total avg starve : Int) :
    Entry.ofSummary time info (
      (" OPS:".toList ++ (decimal ops ++ List.replicate 1 ' ')) ++ '|' ::
      ((" TOTAL_WAIT:".toList ++ ((decimal total ++ "ms".toList) ++ List.replicate 1 ' ')) ++
      '|' :: ((" AVG_WAIT:".toList ++ ((decimal avg ++ "ms".toList) ++
      List.replicate 1 ' ')) ++ '|' :: (" STARVE_EVENTS:".toList ++ decimal starve)))) =
      some (.summary time info ops total avg starve) := by
  have hspace : ∀ z, ' ' ∉ decimal z := notMem_decimal (by decide) (by decide)
  have hbar : ∀ z, '|' ∉ decimal z := notMem_decimal (by decide) (by decide)
  have hms : ∀ z, (decimal z ++ "ms".toList).getLast? ≠ some ' ' := fun z => by simp
  rw [Entry.ofSummary,cut_append (by simp [hbar])]
  simp only [Option.bind_eq_bind,Option.bind_some,
    Entry.field_append (getLast?_ne_of_notMem (hspace _)),readInt_decimal]
  rw [cut_append (by simp [hbar])]
  simp only [Option.bind_some,Entry.field_append (hms _),before_append,readInt_decimal]
  rw [cut_append (by simp [hbar])]
  simp only [Option.bind_some,Entry.field_append (hms _),before_append,readInt_decimal,after_append]
  rfl

theorem ofLine_summary (h : info.tid.natAbs < 10^10) {ops total starve : Int}
    (ho : ops.natAbs < 10^10) (hw : total.natAbs < 10^19) (hs : starve.natAbs < 10^10) :
    Entry.ofLine (summary t info ops total starve) = some (.summary t.time info ops
      total (avgWait ops total) starve) := by
  rw [summary_eq h ho hw hs,ofLine_prefixOf,Entry.ofRest,cut_append (by decide)]
  rw [Option.bind_eq_bind,Option.bind_some]
  exact ofSummary_fields ..

end Logger

/-- What a `long` can hold. -/
def FitsLong (n : Int) : Prop := -9223372036854775808 ≤ n ∧ n ≤ 9223372036854775807

instance (n : Int) : Decidable (FitsLong n) := inferInstanceAs (Decidable (_ ∧ _))

namespace LogCall

/-- The values are such as their types allow, and the texts are bytes without line breaks. -/
def WellFormed : LogCall → Prop
  | record info _ waitMs msg => FitsInt info.tid ∧ FitsLong waitMs ∧ OneLine msg
  | summary info ops total starve =>
    FitsInt info.tid ∧ FitsInt ops ∧ FitsLong total ∧ FitsInt starve
  | alert info waitMs => FitsInt info.tid ∧ FitsLong waitMs
  | header text => OneLine text

/-- What the line of a call says; a message ends at its first NUL, and is cut where the line has
its end. -/
def entry (t : WallClock) : LogCall → Option Entry
  | record info state waitMs msg => some <|
      .record t.time info state (if waitMs ≥ 0 then some waitMs else none)
        ((cString msg).take (511-(Logger.recordHead t info state waitMs).length))
  | summary info ops total starve =>
      some (.summary t.time info ops total (Logger.avgWait ops total) starve)
  | alert info waitMs => some <|
      .record t.time info .BLOCKED (some waitMs) "STARVATION ALERT - threshold exceeded".toList
  | header _ => none

end LogCall

/-- The entries of a log; other lines are passed over. -/
def readLog (cs : List Char) : List Entry := (cs.splitOn '\n').filterMap Entry.ofLine

theorem readLog_append (xs ys : List Char) :
    readLog (xs ++ '\n' :: ys) = readLog xs ++ readLog ys := by
  rw [readLog,List.splitOn_append_cons_self,List.filterMap_append]
  rfl

theorem readLog_line {cs : List Char} (h : '\n' ∉ cs) : readLog cs = (Entry.ofLine cs).toList := by
  rw [readLog,List.splitOn_eq_singleton h]
  cases he : Entry.ofLine cs <;> simp [he]

/-- A line that does not begin like one about a thread. -/
theorem Entry.ofLine_cons {c : Char} (hb : c ≠ '[') (hc : c ≠ '|') (cs : List Char) :
    ofLine (c :: cs) = none := by
  have hf : ∀ ds, field "[".toList (c :: ds) = none := fun ds => by
    rw [field,after,if_neg (by simpa using hb.symm)]
    rfl
  rw [ofLine,cut]
  split
  · rw [List.takeWhile_cons_of_pos (by simpa using hc)]
    simp only [Option.bind_eq_bind,Option.bind_some,hf,Option.bind_none]
  · rfl

namespace Logger

variable {t : WallClock} {info : Identity}

theorem break_notMem_prefixOf : '\n' ∉ prefixOf t info := by
  have hp : ∀ w n, '\n' ∉ padded w n := fun w n hm =>
    absurd (isDigit_of_mem_padded hm) (by decide)
  have hz : '\n' ∉ zeroPadded 3 info.tid := notMem_zeroPadded (by decide) (by decide) 3 info.tid
  have ht : '\n' ∉ leftAligned 1 (threadTypeName info.type) := by cases info.type <;> decide
  have ha : '\n' ∉ leftAligned 2 (algoShortName info.algo) := by cases info.algo <;> decide
  delta prefixOf
  simp [formatTimestamp_eq,hp,hz,ht,ha]

theorem break_notMem_recordHead {st : ThreadState} {w : Int} : '\n' ∉ recordHead t info st w := by
  have hs : '\n' ∉ leftAligned 9 (stateName st) := by cases st <;> decide
  have hd : '\n' ∉ decimal w := notMem_decimal (by decide) (by decide) w
  have hw : '\n' ∉ leftAligned 8 (waitBuf w) := by
    intro hm
    rcases List.mem_append.mp hm with hm | hm
    · have hx := List.mem_of_mem_take hm
      split at hx <;> simp [hd] at hx
    · exact absurd (List.eq_of_mem_replicate hm) (by decide)
  simp [recordHead,break_notMem_prefixOf,hs,hw]

theorem break_notMem_summary {ops total starve : Int} : '\n' ∉ summary t info ops total starve := by
  have hd : ∀ z, '\n' ∉ decimal z := notMem_decimal (by decide) (by decide)
  intro hm
  have hx := List.mem_of_mem_take hm
  simp [break_notMem_prefixOf,hd] at hx

theorem break_notMem_alert {w : Int} : '\n' ∉ alert t info w := by
  have hd : '\n' ∉ decimal w := notMem_decimal (by decide) (by decide) w
  have hl : '\n' ∉ leftAligned 8 (decimal w) := by
    intro hm
    rcases List.mem_append.mp hm with hm | hm
    · exact hd hm
    · exact absurd (List.eq_of_mem_replicate hm) (by decide)
  intro hm
  have hx := List.mem_of_mem_take hm
  simp [break_notMem_prefixOf,hl] at hx

theorem readLog_separator (k : ℕ) : readLog (separator.take k) = [] := by
  have hn : '\n' ∉ separator.take k := fun h => absurd (List.mem_of_mem_take h) (by decide)
  rw [readLog_line hn]
  cases k with
  | zero => rfl
  | succ k =>
    have hs : separator.take (k+1) = '=' :: separator.tail.take k := rfl
    rw [hs,Entry.ofLine_cons (by decide) (by decide)]
    rfl

theorem readLog_text_take {text : List Char} (h : '\n' ∉ text) (k : ℕ) :
    readLog ((' ' :: ' ' :: text).take k) = [] := by
  have hn : '\n' ∉ (' ' :: ' ' :: text).take k := fun hm => by
    have hx := List.mem_of_mem_take hm
    simp [h] at hx
  rw [readLog_line hn]
  cases k with
  | zero => rfl
  | succ k =>
    rw [List.take_succ_cons,Entry.ofLine_cons (by decide) (by decide)]
    rfl

theorem header_eq (text : List Char) : header text = '\n' :: (separator ++ '\n' ::
    ((' ' :: ' ' :: cString text) ++ '\n' :: separator).take 455) := by
  have hl : separator.length = 54 := rfl
  have hs : "\n".toList ++ separator ++ "\n  ".toList ++ cString text ++ "\n".toList ++
      separator = '\n' :: (separator ++ '\n' :: ((' ' :: ' ' :: cString text) ++ '\n' ::
      separator)) := by
    generalize separator = sep
    simp
  rw [header,hs,snprintf,List.take_succ_cons,List.take_append,hl,
    List.take_of_length_le (by rw [hl]; decide),List.take_succ_cons]

theorem readLog_header {text : List Char} (h : OneLine text) : readLog (header text) = [] := by
  have hn : '\n' ∉ cString text := fun hm => h.break_notMem (mem_of_mem_cString hm)
  have hrest : ∀ k, readLog (((' ' :: ' ' :: cString text) ++ '\n' :: separator).take k) = [] := by
    intro k
    rw [List.take_append]
    cases k-(' ' :: ' ' :: cString text).length with
    | zero =>
      rw [List.take_zero,List.append_nil]
      exact readLog_text_take hn k
    | succ j =>
      rw [List.take_succ_cons,readLog_append,readLog_text_take hn,readLog_separator]
      rfl
  have hsep : readLog separator = [] := readLog_separator 54
  rw [header_eq]
  calc readLog ('\n' :: (separator ++ '\n' :: _))
      = readLog [] ++ readLog (separator ++ '\n' :: _) := readLog_append [] _
    _ = [] := by
      rw [readLog_append,hsep,hrest]
      rfl

end Logger

namespace LogCall

theorem natAbs_lt_of_fitsInt {z : Int} (h : FitsInt z) : z.natAbs < 10^10 := by
  obtain ⟨h₁,h₂⟩ := h
  omega

theorem natAbs_lt_of_fitsLong {z : Int} (h : FitsLong z) : z.natAbs < 10^19 := by
  obtain ⟨h₁,h₂⟩ := h
  omega

/-- The line of a call says what was passed to it. -/
theorem readLog_line {c : LogCall} (h : c.WellFormed) (t : WallClock) :
    readLog (c.line t) = (c.entry t).toList := by
  cases c with
  | record info st w msg =>
    obtain ⟨hi,hw,hm⟩ := h
    have hn : '\n' ∉ Logger.recordHead t info st w ++
        (cString msg).take (511-(Logger.recordHead t info st w).length) := fun hx =>
      (List.mem_append.mp hx).elim Logger.break_notMem_recordHead fun hx =>
        hm.break_notMem (mem_of_mem_cString (List.mem_of_mem_take hx))
    rw [line,Logger.record_eq (natAbs_lt_of_fitsInt hi),ReadersWriters.readLog_line hn,
      Logger.ofLine_recordHead (natAbs_lt_of_fitsLong hw)]
    rfl
  | summary info ops total starve =>
    obtain ⟨hi,ho,ht,hs⟩ := h
    rw [line,ReadersWriters.readLog_line Logger.break_notMem_summary,
      Logger.ofLine_summary (natAbs_lt_of_fitsInt hi) (natAbs_lt_of_fitsInt ho)
        (natAbs_lt_of_fitsLong ht) (natAbs_lt_of_fitsInt hs)]
    rfl
  | alert info w =>
    obtain ⟨hi,hw⟩ := h
    rw [line,ReadersWriters.readLog_line Logger.break_notMem_alert,
      Logger.ofLine_alert (natAbs_lt_of_fitsInt hi) (natAbs_lt_of_fitsLong hw)]
    rfl
  | header text => exact Logger.readLog_header h

/-- The lines of some calls, each with the time of its call. -/
def text (calls : List (WallClock × LogCall)) : List Char :=
  calls.flatMap fun c => c.2.line c.1 ++ ['\n']

/-- A log gives back what was passed to its calls, in their order, up to the milliseconds of the
times, the first NUL of a message and the length of the lines. -/
theorem log_round_trip {calls : List (WallClock × LogCall)} (h : ∀ c ∈ calls, c.2.WellFormed) :
    readLog (text calls) = calls.filterMap fun c => c.2.entry c.1 := by
  induction calls with
  | nil => rfl
  | cons c calls ih =>
    rw [List.forall_mem_cons] at h
    have ht : text (c :: calls) = c.2.line c.1 ++ '\n' :: text calls := by
      simp [text]
    rw [ht,readLog_append,readLog_line h.1,ih h.2,List.filterMap_cons]
    cases c.2.entry c.1 <;> rfl

/-- A header, a record whose message has a byte behind a NUL, an alert and a summary. -/
theorem log_round_trip_witness :
    readLog (text [(⟨23,59,60,999999999⟩,.header "Algorithm: Fair (Morris)  |  Readers: 5".toList),
      (⟨0,0,0,0⟩,.record ⟨7,.WRITER,.FAIR_MORRIS⟩ .RELEASING (-1) "released\x00x".toList),
      (⟨0,0,0,1000000⟩,.alert ⟨7,.WRITER,.FAIR_MORRIS⟩ 501),
      (⟨0,0,1,0⟩,.summary ⟨7,.WRITER,.FAIR_MORRIS⟩ 3 1000 1)]) =
    [.record ⟨0,0,0,0⟩ ⟨7,.WRITER,.FAIR_MORRIS⟩ .RELEASING none "released".toList,
      .record ⟨0,0,0,1⟩ ⟨7,.WRITER,.FAIR_MORRIS⟩ .BLOCKED (some 501)
        "STARVATION ALERT - threshold exceeded".toList,
      .summary ⟨0,0,1,0⟩ ⟨7,.WRITER,.FAIR_MORRIS⟩ 3 1000 333 1] := by
  refine log_round_trip fun c hc => ?_
  simp only [List.mem_cons,List.not_mem_nil,or_false] at hc
  rcases hc with rfl | rfl | rfl | rfl
  · exact (by decide : OneLine "Algorithm: Fair (Morris)  |  Readers: 5".toList)
  · exact ⟨⟨by decide,by decide⟩,⟨by decide,by decide⟩,by decide⟩
  · exact ⟨⟨by decide,by decide⟩,by decide,by decide⟩
  · exact ⟨⟨by decide,by decide⟩,⟨by decide,by decide⟩,⟨by decide,by decide⟩,by decide,by decide⟩

end LogCall

end ReadersWriters
