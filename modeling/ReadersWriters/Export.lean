import ReadersWriters.Logger
import ReadersWriters.Metrics
import ReadersWriters.Text.Fixed
set_option autoImplicit false

namespace ReadersWriters
open Text

def MetricsResult.toString (r : MetricsResult) : List Char :=
  ["[".toList,algoLongName r.algo,"]".toList,
    " R=".toList,decimal r.numReaders," W=".toList,decimal r.numWriters,
    " OPS=".toList,decimal r.totalOps,
    " | AvgRWait=".toList,fixed 2 r.avgReaderWaitMs,"ms".toList,
    " AvgWWait=".toList,fixed 2 r.avgWriterWaitMs,"ms".toList,
    " Throughput=".toList,fixed 2 r.throughputOpsPerSec,"ops/s".toList,
    " Jain=".toList,fixed 3 r.jainsFairnessIndex,
    " Starve=".toList,decimal r.starvationCount,
    " CSW(vol/inv)=".toList,decimal r.contextSwitchesVol,"/".toList,
    decimal r.contextSwitchesInv,
    " Duration=".toList,fixed 1 r.simulationDurationMs,"ms".toList].flatten

namespace Metrics

def csvHeader : List Char :=
  "Algorithm,NumReaders,NumWriters,TotalOps,".toList ++
    "AvgReaderWaitMs,AvgWriterWaitMs,ThroughputOpsPerSec,".toList ++
    "JainsFairnessIndex,StarvationCount,".toList ++
    "ContextSwitchesVol,ContextSwitchesInv,DurationMs\n".toList

/-- The columns of a row: `%s,%d,%d,%d,%.2f,%.2f,%.2f,%.4f,%d,%ld,%ld,%.2f`. -/
def csvColumns (r : MetricsResult) : List (List Char) :=
  [algoLongName r.algo,decimal r.numReaders,decimal r.numWriters,decimal r.totalOps,
    fixed 2 r.avgReaderWaitMs,fixed 2 r.avgWriterWaitMs,fixed 2 r.throughputOpsPerSec,
    fixed 4 r.jainsFairnessIndex,decimal r.starvationCount,decimal r.contextSwitchesVol,
    decimal r.contextSwitchesInv,fixed 2 r.simulationDurationMs]

def csvRow (r : MetricsResult) : List Char :=
  List.intercalate ",".toList (csvColumns r) ++ "\n".toList

/-- What comes of an export: the file cannot be opened, only so many bytes get to it, or all do. -/
inductive Outcome where
  | cannotOpen | cut (bytes : ℕ) | whole
  deriving DecidableEq, Repr

/-- The file at the path, if there is one, after an export. It is opened for appending, and what
is printed fits into the buffer that `fclose` writes. -/
def exportCSV (file : Option (List Char)) (outcome : Outcome) (r : MetricsResult) :
    Option (List Char) :=
  let writeHeader := file.isNone
  let text := (if writeHeader then csvHeader else []) ++ csvRow r
  match outcome with
  | .cannotOpen => file
  | .cut bytes => some (file.getD [] ++ text.take bytes)
  | .whole => some (file.getD [] ++ text)

/-- A call of `exportCSV` for the file. -/
structure Export where
  outcome : Outcome
  result : MetricsResult

/-- Exports that come one after the other, from one process or many. -/
def exportAll (file : Option (List Char)) (exports : List Export) : Option (List Char) :=
  exports.foldl (fun file e => exportCSV file e.outcome e.result) file

/-- The results that were written. -/
def written (exports : List Export) : List MetricsResult :=
  (exports.filter (·.outcome = .whole)).map (·.result)

/-- No export stops in the middle. -/
def Uncut (exports : List Export) : Prop :=
  ∀ e ∈ exports, e.outcome = .cannotOpen ∨ e.outcome = .whole

end Metrics

/-- What a row shows of a result. -/
def MetricsResult.rounded (r : MetricsResult) : MetricsResult :=
  { r with
    avgReaderWaitMs := roundTo 2 r.avgReaderWaitMs
    avgWriterWaitMs := roundTo 2 r.avgWriterWaitMs
    throughputOpsPerSec := roundTo 2 r.throughputOpsPerSec
    jainsFairnessIndex := roundTo 4 r.jainsFairnessIndex
    simulationDurationMs := roundTo 2 r.simulationDurationMs }

/-- A row without its line break. -/
def readRow (line : List Char) : Option MetricsResult :=
  match line.splitOn ',' with
  | [algo,readers,writers,ops,avgR,avgW,throughput,jain,starve,vol,inv,duration] => do
      let algo ← [AlgoType.READER_PRIORITY,.WRITER_PRIORITY,.FAIR_MORRIS].find?
        (algoLongName · = algo)
      pure {
        algo
        numReaders := ← readInt readers
        numWriters := ← readInt writers
        totalOps := ← readInt ops
        avgReaderWaitMs := ← readFixed avgR
        avgWriterWaitMs := ← readFixed avgW
        throughputOpsPerSec := ← readFixed throughput
        jainsFairnessIndex := ← readFixed jain
        starvationCount := ← readInt starve
        contextSwitchesVol := ← readInt vol
        contextSwitchesInv := ← readInt inv
        simulationDurationMs := ← readFixed duration }
  | _ => none

/-- The results in a file: its header, and after it rows, each with its line break. -/
def readCSV (text : List Char) : Option (List MetricsResult) := do
  let rows := (← after Metrics.csvHeader text).splitOn '\n'
  if rows.getLast? = some [] then rows.dropLast.mapM readRow else none

namespace Metrics

/-- Neither commas nor line breaks are in a column. -/
theorem notMem_csvColumns {c : Char} (hc : c = ',' ∨ c = '\n') {r : MetricsResult} :
    ∀ cs ∈ csvColumns r, c ∉ cs := by
  have hd : ∀ z, c ∉ decimal z := by
    rcases hc with rfl | rfl <;> exact notMem_decimal (by decide) (by decide)
  have hf : ∀ k x, c ∉ fixed k x := by
    rcases hc with rfl | rfl <;> exact notMem_fixed (by decide) (by decide) (by decide)
  have ha : c ∉ algoLongName r.algo := by
    rcases hc with rfl | rfl <;> cases r.algo <;> decide
  intro cs hcs
  simp only [csvColumns,List.mem_cons,List.not_mem_nil,or_false] at hcs
  rcases hcs with rfl | rfl | rfl | rfl | rfl | rfl | rfl | rfl | rfl | rfl | rfl | rfl
  · exact ha
  all_goals first | exact hd _ | exact hf _ _

theorem readRow_columns (r : MetricsResult) :
    readRow (List.intercalate [','] (csvColumns r)) = some r.rounded := by
  have hsplit : (List.intercalate [','] (csvColumns r)).splitOn ',' = csvColumns r :=
    List.splitOn_intercalate ',' (notMem_csvColumns (.inl rfl)) (List.cons_ne_nil _ _)
  have halgo : [AlgoType.READER_PRIORITY,.WRITER_PRIORITY,.FAIR_MORRIS].find?
      (algoLongName · = algoLongName r.algo) = some r.algo := by cases r.algo <;> decide
  rw [readRow,hsplit]
  simp only [csvColumns,halgo,readInt_decimal,readFixed_fixed (show 0 < 2 by decide),
    readFixed_fixed (show 0 < 4 by decide),Option.bind_eq_bind,Option.bind_some]
  rfl

theorem splitOn_rows (rs : List MetricsResult) : (rs.flatMap csvRow).splitOn '\n' =
    rs.map (fun r => List.intercalate [','] (csvColumns r)) ++ [[]] := by
  induction rs with
  | nil => rfl
  | cons r rs ih =>
    have hn : '\n' ∉ List.intercalate [','] (csvColumns r) :=
      notMem_intercalate (by decide) (notMem_csvColumns (.inr rfl))
    calc ((r :: rs).flatMap csvRow).splitOn '\n'
        = (List.intercalate [','] (csvColumns r) ++ '\n' :: rs.flatMap csvRow).splitOn '\n' := by
          rw [List.flatMap_cons,csvRow,List.append_assoc]
          rfl
      _ = _ := by
          rw [List.splitOn_append_cons_self,List.splitOn_eq_singleton hn,ih]
          rfl

/-- A header with rows reads back. -/
theorem readCSV_rows (rs : List MetricsResult) :
    readCSV (csvHeader ++ rs.flatMap csvRow) = some (rs.map (·.rounded)) := by
  have hmap : (rs.map fun r => List.intercalate [','] (csvColumns r)).mapM readRow =
      some (rs.map (·.rounded)) := by
    induction rs with
    | nil => rfl
    | cons r rs ih =>
      rw [List.map_cons,List.mapM_cons,readRow_columns,ih]
      rfl
  rw [readCSV,after_append]
  simp only [Option.bind_eq_bind,Option.bind_some,splitOn_rows,List.getLast?_concat,if_true,
    List.dropLast_concat]
  exact hmap

theorem written_cons (e : Export) (exports : List Export) : written (e :: exports) =
    if e.outcome = .whole then e.result :: written exports else written exports := by
  by_cases he : e.outcome = .whole <;> simp [written,he]

theorem exportAll_cons (file : Option (List Char)) (e : Export) (exports : List Export) :
    exportAll file (e :: exports) = exportAll (exportCSV file e.outcome e.result) exports := rfl

theorem exportAll_some {exports : List Export} (h : Uncut exports) (text : List Char) :
    exportAll (some text) exports = some (text ++ (written exports).flatMap csvRow) := by
  induction exports generalizing text with
  | nil => simp [exportAll,written]
  | cons e exports ih =>
    obtain ⟨he,hx⟩ := List.forall_mem_cons.mp h
    rw [exportAll_cons,written_cons]
    rcases he with he | he
    · rw [if_neg (show ¬ e.outcome = .whole by rw [he]; decide),he,exportCSV,ih hx]
    · rw [if_pos he,he,exportCSV,ih hx]
      simp

/-- The first export that can open the file writes the header. -/
theorem exportAll_none {exports : List Export} (h : Uncut exports) : exportAll none exports =
    if written exports = [] then none
    else some (csvHeader ++ (written exports).flatMap csvRow) := by
  induction exports with
  | nil => rfl
  | cons e exports ih =>
    obtain ⟨he,hx⟩ := List.forall_mem_cons.mp h
    rw [exportAll_cons,written_cons]
    rcases he with he | he
    · rw [if_neg (show ¬ e.outcome = .whole by rw [he]; decide),he,exportCSV,ih hx]
    · rw [if_pos he,he,exportCSV,exportAll_some hx]
      simp

/-- A row that shows a result: numbers with decimals are off by half a unit of the last one at
most. -/
structure Shows (r row : MetricsResult) : Prop where
  whole : row = { r with
    avgReaderWaitMs := row.avgReaderWaitMs
    avgWriterWaitMs := row.avgWriterWaitMs
    throughputOpsPerSec := row.throughputOpsPerSec
    jainsFairnessIndex := row.jainsFairnessIndex
    simulationDurationMs := row.simulationDurationMs }
  avgReaderWaitMs : |row.avgReaderWaitMs-r.avgReaderWaitMs| ≤ 1/200
  avgWriterWaitMs : |row.avgWriterWaitMs-r.avgWriterWaitMs| ≤ 1/200
  throughputOpsPerSec : |row.throughputOpsPerSec-r.throughputOpsPerSec| ≤ 1/200
  jainsFairnessIndex : |row.jainsFairnessIndex-r.jainsFairnessIndex| ≤ 1/20000
  simulationDurationMs : |row.simulationDurationMs-r.simulationDurationMs| ≤ 1/200

theorem shows_rounded (r : MetricsResult) : Shows r r.rounded := by
  have h₂ : ∀ x, |roundTo 2 x-x| ≤ 1/200 := fun x =>
    (abs_roundTo_sub_le 2 x).trans_eq (by norm_num)
  have h₄ : ∀ x, |roundTo 4 x-x| ≤ 1/20000 := fun x =>
    (abs_roundTo_sub_le 4 x).trans_eq (by norm_num)
  exact ⟨rfl,h₂ _,h₂ _,h₂ _,h₄ _,h₂ _⟩

/-- However many results are exported to a path at which there is no file, and whichever of the
exports cannot open it: as soon as there is a result that was written there is a file, and it
reads back as the results that were written, in their order. To a file that exists rows are only
added. -/
theorem csv_round_trip {exports : List Export} (h : Uncut exports) :
    (written exports = [] ∧ exportAll none exports = none ∨
      written exports ≠ [] ∧ ∃ text rows, exportAll none exports = some text ∧
        readCSV text = some rows ∧ List.Forall₂ Shows (written exports) rows) ∧
    ∀ text, exportAll (some text) exports =
      some (text ++ (written exports).flatMap csvRow) := by
  refine ⟨?_,exportAll_some h⟩
  rw [exportAll_none h]
  split <;> rename_i hw
  · exact .inl ⟨hw,rfl⟩
  · refine .inr ⟨hw,_,_,rfl,readCSV_rows _,?_⟩
    rw [List.forall₂_map_right_iff]
    exact List.forall₂_same.mpr fun r _ => shows_rounded r

/-- The first of three exports cannot open the file. -/
theorem csv_round_trip_witness : ∃ text rows,
    exportAll none [⟨.cannotOpen,⟨.FAIR_MORRIS,5,2,100,0,1/3,20,1,0,9,4,5000⟩⟩,
      ⟨.whole,⟨.READER_PRIORITY,1,1,3,2/3,500,15/7,9/10,1,0,0,1400⟩⟩,
      ⟨.whole,⟨.FAIR_MORRIS,5,2,100,0,1/3,20,1,0,9,4,5000⟩⟩] = some text ∧
    readCSV text = some rows ∧
    List.Forall₂ Shows [⟨.READER_PRIORITY,1,1,3,2/3,500,15/7,9/10,1,0,0,1400⟩,
      ⟨.FAIR_MORRIS,5,2,100,0,1/3,20,1,0,9,4,5000⟩] rows := by
  have huncut : Uncut [⟨.cannotOpen,⟨.FAIR_MORRIS,5,2,100,0,1/3,20,1,0,9,4,5000⟩⟩,
      ⟨.whole,⟨.READER_PRIORITY,1,1,3,2/3,500,15/7,9/10,1,0,0,1400⟩⟩,
      ⟨.whole,⟨.FAIR_MORRIS,5,2,100,0,1/3,20,1,0,9,4,5000⟩⟩] := by simp [Uncut]
  obtain ⟨⟨hn,-⟩ | ⟨-,text,rows,ht,hr,hs⟩,-⟩ := csv_round_trip huncut
  · simp [written] at hn
  · exact ⟨text,rows,ht,hr,hs⟩

theorem head?_csvRow (r : MetricsResult) : (csvRow r).head? ≠ some 'A' := by
  have ha : (algoLongName r.algo).head? ≠ some 'A' ∧ algoLongName r.algo ≠ [] := by
    cases r.algo <;> decide
  obtain ⟨c,cs,hc⟩ := List.exists_cons_of_ne_nil ha.2
  have hx := ha.1
  rw [csvRow,csvColumns,List.intercalate_cons_cons,hc]
  rwa [hc] at hx

/-- An export that opens the file and writes nothing leaves one without a header, which no
further export mends. -/
theorem header_lost (r : MetricsResult) (exports : List Export) :
    ∃ text, exportAll none (⟨.cut 0,r⟩ :: exports) = some text ∧ readCSV text = none := by
  have hkeep : ∀ text : List Char, text.head? ≠ some 'A' →
      ∃ text', exportAll (some text) exports = some text' ∧ text'.head? ≠ some 'A' := by
    induction exports with
    | nil => exact fun text ht => ⟨text,rfl,ht⟩
    | cons e exports ih =>
      intro text ht
      rw [exportAll_cons]
      have hrow := head?_csvRow e.result
      cases he : e.outcome with
      | cannotOpen => exact ih text ht
      | cut bytes =>
        refine ih _ ?_
        cases text with
        | nil =>
          have hh : ((csvRow e.result).take bytes).head? ≠ some 'A' := by
            rw [List.head?_take]
            split
            · exact fun hx => by cases hx
            · exact hrow
          exact hh
        | cons c cs => exact ht
      | whole =>
        refine ih _ ?_
        cases text with
        | nil => exact hrow
        | cons c cs => exact ht
  obtain ⟨text,htext,hhead⟩ := hkeep [] (by decide)
  refine ⟨text,htext,?_⟩
  have hp : csvHeader.isPrefixOf text = false := by
    cases text with
    | nil => rfl
    | cons c cs =>
      have hc : c ≠ 'A' := fun hc => hhead (congrArg some hc)
      have hcons : csvHeader = 'A' :: csvHeader.tail := rfl
      rw [hcons,List.isPrefixOf_cons_cons]
      simp [hc.symm]
  rw [readCSV,after,hp]
  rfl

end Metrics

end ReadersWriters
