import ReadersWriters.CommandLine.Decimal
import ReadersWriters.CommandLine.Settings
import ReadersWriters.SimConfig
set_option autoImplicit false

namespace ReadersWriters
open CommandLine

/-- A call of `exit`, with what was written before it. -/
structure Exit where
  status : Int
  stdout : String := ""
  stderr : String := ""
  deriving DecidableEq, Repr

def printUsage (progName : String) : String :=
  "Readers-Writers Toolkit — OS Project Spring 2026, FAST-NUCES\n\n" ++
  "Usage: " ++ progName ++ " [options]\n\n" ++
  "Options:\n" ++
  "  --algo   <rp|wp|fa>                Algorithm (rp=Reader-Priority, wp=Writer-Priority, fa=Fair-Morris)\n" ++
  "  --readers <n>                      Number of reader threads (default: 5)\n" ++
  "  --writers <n>                      Number of writer threads (default: 3)\n" ++
  "  --ops     <n>                      Total operations (default: 100)\n" ++
  "  --log    <verbose|standard|summary> Log verbosity (default: verbose)\n" ++
  "  --logfile <path>                   Write log to file\n" ++
  "  --starve  <ms>                     Starvation threshold in ms (default: 500)\n" ++
  "  --benchmark                        Run all profiles x all algorithms x 5 runs\n" ++
  "  --output  <path>                   CSV output for benchmark results\n" ++
  "  --abort-test                       Enable TC-12 signal abort test\n" ++
  "  --help                             Print this message\n"

/-- The loop of `parseCLI`. A pattern with a value is the test `i + 1 < argc`. -/
def parseArgs (atoi : String → Int) (progName : String) :
    List String → SimConfig → Except Exit SimConfig
  | [], cfg => .ok cfg
  | "--help" :: _, _ => .error { status := 0, stdout := printUsage progName }
  | "--algo" :: a :: args, cfg =>
    match a with
    | "rp" => parseArgs atoi progName args { cfg with algo := .READER_PRIORITY }
    | "wp" => parseArgs atoi progName args { cfg with algo := .WRITER_PRIORITY }
    | "fa" => parseArgs atoi progName args { cfg with algo := .FAIR_MORRIS }
    | a => .error { status := 1, stderr := "Unknown algo '" ++ a ++ "'\n" }
  | "--readers" :: n :: args, cfg => parseArgs atoi progName args { cfg with numReaders := atoi n }
  | "--writers" :: n :: args, cfg => parseArgs atoi progName args { cfg with numWriters := atoi n }
  | "--ops" :: n :: args, cfg => parseArgs atoi progName args { cfg with totalOps := atoi n }
  | "--starve" :: n :: args, cfg =>
    parseArgs atoi progName args { cfg with starveThresholdMs := atoi n }
  | "--logfile" :: path :: args, cfg => parseArgs atoi progName args { cfg with logFile := path }
  | "--output" :: path :: args, cfg => parseArgs atoi progName args { cfg with csvOutput := path }
  | "--benchmark" :: args, cfg => parseArgs atoi progName args { cfg with benchmarkMode := true }
  | "--abort-test" :: args, cfg => parseArgs atoi progName args { cfg with enableAbortTest := true }
  | "--log" :: l :: args, cfg =>
    match l with
    | "verbose" => parseArgs atoi progName args { cfg with logLevel := .VERBOSE }
    | "standard" => parseArgs atoi progName args { cfg with logLevel := .STANDARD }
    | "summary" => parseArgs atoi progName args { cfg with logLevel := .SUMMARY }
    | l => .error { status := 1, stderr := "Unknown log level '" ++ l ++ "'\n" }
  | _ :: args, cfg => parseArgs atoi progName args cfg

def parseCLI (atoi : String → Int) (argv : List String) : Except Exit SimConfig :=
  parseArgs atoi (argv.headD "") argv.tail {}

/-- The documented options. -/
inductive Opt where
  | algo | readers | writers | ops | log | logfile | starve | benchmark | output | abortTest | help
  deriving DecidableEq, Repr

namespace Opt

def word : Opt → String
  | algo => "--algo"
  | readers => "--readers"
  | writers => "--writers"
  | ops => "--ops"
  | log => "--log"
  | logfile => "--logfile"
  | starve => "--starve"
  | benchmark => "--benchmark"
  | output => "--output"
  | abortTest => "--abort-test"
  | help => "--help"

def all : List Opt :=
  [algo,readers,writers,ops,log,logfile,starve,benchmark,output,abortTest,help]

def ofWord (arg : String) : Option Opt := all.find? fun o => o.word = arg

def takesValue : Opt → Bool
  | benchmark | abortTest | help => false
  | _ => true

def isNumeric : Opt → Bool
  | readers | writers | ops | starve => true
  | _ => false

end Opt

def algoOf : String → Option AlgoType
  | "rp" => some .READER_PRIORITY
  | "wp" => some .WRITER_PRIORITY
  | "fa" => some .FAIR_MORRIS
  | _ => none

def logLevelOf : String → Option LogLevel
  | "verbose" => some .VERBOSE
  | "standard" => some .STANDARD
  | "summary" => some .SUMMARY
  | _ => none

/-- The values that an option may have. An option that takes none has the empty one. -/
def Opt.valid : Opt → String → Bool
  | algo, a => (algoOf a).isSome
  | log, l => (logLevelOf l).isSome
  | readers, n | writers, n | ops, n | starve, n => (integer n).isSome
  | logfile, _ | output, _ => true
  | benchmark, v | abortTest, v | help, v => v = ""

/-- An option with its value, as it is written. -/
def words (g : Opt × String) : List String :=
  if g.1.takesValue then [g.1.word,g.2] else [g.1.word]

/-- The documented option language. -/
def Documented (args : List String) : Prop :=
  ∃ gs : List (Opt × String), args = gs.flatMap words ∧ ∀ g ∈ gs, g.1.valid g.2 = true

/-- The options that are found from left to right, whatever else there is. -/
def split : List String → List (Opt × String)
  | [] => []
  | arg :: args =>
    match Opt.ofWord arg with
    | none => split args
    | some o =>
      if o.takesValue then
        match args with
        | [] => []
        | value :: args => (o,value) :: split args
      else (o,"") :: split args

/-- The call of `exit` that an option and its value lead to. -/
def exitOf (progName : String) : Opt × String → Option Exit
  | (.help,_) => some { status := 0, stdout := printUsage progName }
  | (.algo,a) =>
    if (algoOf a).isSome then none
    else some { status := 1, stderr := "Unknown algo '" ++ a ++ "'\n" }
  | (.log,l) =>
    if (logLevelOf l).isSome then none
    else some { status := 1, stderr := "Unknown log level '" ++ l ++ "'\n" }
  | _ => none

/-- What an option that is accepted does to the configuration. -/
def setField (atoi : String → Int) (cfg : SimConfig) : Opt × String → SimConfig
  | (.algo,a) => { cfg with algo := (algoOf a).getD .READER_PRIORITY }
  | (.readers,n) => { cfg with numReaders := atoi n }
  | (.writers,n) => { cfg with numWriters := atoi n }
  | (.ops,n) => { cfg with totalOps := atoi n }
  | (.log,l) => { cfg with logLevel := (logLevelOf l).getD .VERBOSE }
  | (.logfile,path) => { cfg with logFile := path }
  | (.starve,n) => { cfg with starveThresholdMs := atoi n }
  | (.benchmark,_) => { cfg with benchmarkMode := true }
  | (.output,path) => { cfg with csvOutput := path }
  | (.abortTest,_) => { cfg with enableAbortTest := true }
  | (.help,_) => cfg

/-- An option has the value that is given to it last, or else the default. -/
def Gives {α : Type} (gs : List (Opt × String)) (o : Opt) (denotes : String → Option α)
    (default x : α) : Prop :=
  (lastOf o gs).elim (x = default) fun v => denotes v = some x

structure FieldsGiven (gs : List (Opt × String)) (cfg : SimConfig) : Prop where
  algo : Gives gs .algo algoOf .READER_PRIORITY cfg.algo
  numReaders : Gives gs .readers integer 5 cfg.numReaders
  numWriters : Gives gs .writers integer 3 cfg.numWriters
  totalOps : Gives gs .ops integer 100 cfg.totalOps
  logLevel : Gives gs .log logLevelOf .VERBOSE cfg.logLevel
  logFile : Gives gs .logfile some "" cfg.logFile
  benchmarkMode : Gives gs .benchmark (fun _ => some true) false cfg.benchmarkMode
  csvOutput : Gives gs .output some "" cfg.csvOutput
  starveThresholdMs : Gives gs .starve integer STARVE_MS cfg.starveThresholdMs
  readWorkMs : cfg.readWorkMs = READ_WORK_MS
  writeWorkMs : cfg.writeWorkMs = WRITE_WORK_MS
  enableAbortTest : Gives gs .abortTest (fun _ => some true) false cfg.enableAbortTest

/-- `parseCLI` accepts the documented language, with the documented meaning. -/
structure AsDocumented (argv : List String) : Prop where
  returns_iff : (∃ cfg, parseCLI atoi argv = .ok cfg) ↔ Documented argv.tail
  exits : ¬ Documented argv.tail → ∃ e, parseCLI atoi argv = .error e ∧ e.status = 1
  fields : ∀ cfg, parseCLI atoi argv = .ok cfg → FieldsGiven (split argv.tail) cfg
  reordering : ∀ cfg, parseCLI atoi argv = .ok cfg → ∀ gs, Reordering (split argv.tail) gs →
    ∀ progName, parseCLI atoi (progName :: gs.flatMap words) = .ok cfg

/-- An algorithm or a log level that does not exist. -/
def Unlisted (g : Opt × String) : Prop :=
  (g.1 = .algo ∨ g.1 = .log) ∧ g.1.valid g.2 = false

/-- The numbers that are given last fit their fields. -/
def NumbersFit (gs : List (Opt × String)) : Prop :=
  ∀ (o : Opt) v n, o.isNumeric = true → lastOf o gs = some v → integer v = some n → FitsInt n

/-- No option, or one without its value. -/
def Skipped (arg : String) (args : List String) : Prop :=
  ∀ o : Opt, arg = o.word → o.takesValue = true ∧ args = []

/-- An option that takes no value stands alone. -/
def Alone (g : Opt × String) : Prop := g.1.takesValue = false → g.2 = ""

theorem ofWord_word (o : Opt) : Opt.ofWord o.word = some o := by
  cases o <;> decide

theorem word_of_ofWord {arg : String} {o : Opt} (h : Opt.ofWord arg = some o) : arg = o.word := by
  simpa [eq_comm] using List.find?_some h

theorem ne_word_of_ofWord {arg : String} (h : Opt.ofWord arg = none) (o : Opt) : arg ≠ o.word := by
  rintro rfl
  rw [ofWord_word] at h
  cases h

section
variable {atoi : String → Int} {progName : String}

theorem parseArgs_algo (a : String) (args : List String) (cfg : SimConfig) :
    parseArgs atoi progName ("--algo" :: a :: args) cfg = (exitOf progName (.algo,a)).elim
      (parseArgs atoi progName args (setField atoi cfg (.algo,a))) .error := by
  by_cases hrp : a = "rp"
  · subst hrp
    rfl
  by_cases hwp : a = "wp"
  · subst hwp
    rfl
  by_cases hfa : a = "fa"
  · subst hfa
    rfl
  rw [parseArgs]
  · simp [exitOf,algoOf]
  all_goals assumption

theorem parseArgs_log (l : String) (args : List String) (cfg : SimConfig) :
    parseArgs atoi progName ("--log" :: l :: args) cfg = (exitOf progName (.log,l)).elim
      (parseArgs atoi progName args (setField atoi cfg (.log,l))) .error := by
  by_cases hv : l = "verbose"
  · subst hv
    rfl
  by_cases hst : l = "standard"
  · subst hst
    rfl
  by_cases hsu : l = "summary"
  · subst hsu
    rfl
  rw [parseArgs]
  · simp [exitOf,logLevelOf]
  all_goals assumption

/-- An option that finds its value, or needs none. -/
theorem parseArgs_words (g : Opt × String) (args : List String) (cfg : SimConfig) :
    parseArgs atoi progName (words g ++ args) cfg = (exitOf progName g).elim
      (parseArgs atoi progName args (setField atoi cfg g)) .error := by
  obtain ⟨o,v⟩ := g
  cases o with
  | algo => exact parseArgs_algo v args cfg
  | log => exact parseArgs_log v args cfg
  | _ => rfl

/-- A word is skipped that is no option, or lacks its value. -/
theorem parseArgs_skip {arg : String} {args : List String} {cfg : SimConfig}
    (h : Skipped arg args) :
    parseArgs atoi progName (arg :: args) cfg = parseArgs atoi progName args cfg := by
  have hhelp : arg ≠ "--help" := fun he => Bool.false_ne_true (h .help he).1
  have hbenchmark : arg ≠ "--benchmark" := fun he => Bool.false_ne_true (h .benchmark he).1
  have habort : arg ≠ "--abort-test" := fun he => Bool.false_ne_true (h .abortTest he).1
  have hvalue : ∀ (o : Opt) v args', arg = o.word → args = v :: args' → False := by
    rintro o v args' he rfl
    exact List.cons_ne_nil v args' (h o he).2
  rw [parseArgs]
  exacts [hhelp,hvalue .algo,hvalue .readers,hvalue .writers,hvalue .ops,hvalue .starve,
    hvalue .logfile,hvalue .output,hbenchmark,habort,hvalue .log]

theorem split_skip {arg : String} {args : List String} (h : Skipped arg args) :
    split (arg :: args) = split args := by
  cases ho : Opt.ofWord arg with
  | none => simp only [split,ho]
  | some o =>
    obtain ⟨ht,rfl⟩ := h o (word_of_ofWord ho)
    simp only [split,ho,ht,if_true]

theorem split_words {g : Opt × String} (hg : Alone g) (args : List String) :
    split (words g ++ args) = g :: split args := by
  obtain ⟨o,v⟩ := g
  cases ht : o.takesValue with
  | true => simp [words,ht,split,ofWord_word]
  | false =>
    obtain rfl : v = "" := hg ht
    simp [words,ht,split,ofWord_word]

/-- The words are skipped or read group by group. -/
theorem split_induction {motive : List String → Prop} (nil : motive [])
    (skip : ∀ arg args, Skipped arg args → motive args → motive (arg :: args))
    (group : ∀ g args, Alone g → motive args → motive (words g ++ args)) (args : List String) :
    motive args := by
  induction args using split.induct with
  | case1 => exact nil
  | case2 arg args ho ih => exact skip arg args (fun o h => absurd h (ne_word_of_ofWord ho o)) ih
  | case3 arg o ho ht =>
    refine skip arg [] (fun o' h => ?_) nil
    obtain rfl : o' = o := by simpa [h,ofWord_word] using ho
    exact ⟨ht,rfl⟩
  | case4 arg o ho ht value args ih =>
    have hg := group (o,value) args (fun hf => absurd (ht.symm.trans hf) (by decide)) ih
    rwa [words,if_pos ht,← word_of_ofWord ho] at hg
  | case5 arg args o ho ht ih =>
    have hg := group (o,"") args (fun _ => rfl) ih
    rwa [words,if_neg ht,← word_of_ofWord ho] at hg

/-- `parseCLI` is the effect of the options that it finds, up to one that it rejects. -/
theorem parseArgs_eq (args : List String) (cfg : SimConfig) :
    parseArgs atoi progName args cfg = ((split args).findSome? (exitOf progName)).elim
      (.ok ((split args).foldl (setField atoi) cfg)) .error := by
  induction args using split_induction generalizing cfg with
  | nil => rfl
  | skip arg args h ih => rw [parseArgs_skip h,split_skip h,ih]
  | group g args hg ih =>
    rw [parseArgs_words,split_words hg,List.findSome?_cons,List.foldl_cons,ih]
    cases exitOf progName g <;> rfl

end

theorem alone_of_valid {g : Opt × String} (h : g.1.valid g.2 = true) : Alone g := by
  obtain ⟨o,v⟩ := g
  intro ht
  cases o with
  | benchmark | abortTest | help => exact of_decide_eq_true h
  | _ => cases ht

theorem split_flatMap {gs : List (Opt × String)} (h : ∀ g ∈ gs, Alone g) :
    split (gs.flatMap words) = gs := by
  induction gs with
  | nil => rfl
  | cons g gs ih =>
    obtain ⟨hg,hgs⟩ := List.forall_mem_cons.mp h
    rw [List.flatMap_cons,split_words hg,ih hgs]

theorem documented_iff {args : List String} : Documented args ↔
    args = (split args).flatMap words ∧ ∀ g ∈ split args, g.1.valid g.2 = true := by
  refine ⟨?_,fun h => ⟨_,h⟩⟩
  rintro ⟨gs,rfl,hv⟩
  rw [split_flatMap fun g hg => alone_of_valid (hv g hg)]
  exact ⟨rfl,hv⟩

instance (args : List String) : Decidable (Documented args) :=
  decidable_of_iff _ documented_iff.symm

theorem mem_split {args : List String} {g : Opt × String} (h : g ∈ split args) :
    Alone g ∧ g.1.word ∈ args := by
  induction args using split_induction with
  | nil => cases h
  | skip arg args hs ih =>
    rw [split_skip hs] at h
    exact ⟨(ih h).1,List.mem_cons_of_mem arg (ih h).2⟩
  | group g' args hg ih =>
    rw [split_words hg] at h
    rcases List.mem_cons.mp h with rfl | h
    · refine ⟨hg,List.mem_append_left args ?_⟩
      simp only [words]
      split <;> exact List.mem_cons_self
    · exact ⟨(ih h).1,List.mem_append_right _ (ih h).2⟩

section
variable {atoi : String → Int} {progName : String} {g : Opt × String} {e : Exit}

theorem exitOf_eq_none : exitOf progName g = none ↔ g.1 ≠ .help ∧ ¬ Unlisted g := by
  obtain ⟨o,v⟩ := g
  cases o <;> simp [exitOf,Unlisted,Opt.valid]

theorem status_of_exitOf (h : exitOf progName g = some e) (hg : g.1 ≠ .help) : e.status = 1 := by
  obtain ⟨o,v⟩ := g
  cases o with
  | algo | log =>
    simp only [exitOf] at h
    obtain ⟨-,he⟩ := Option.ite_none_left_eq_some.mp h
    cases he
    rfl
  | help => exact absurd rfl hg
  | _ => cases h

/-- `parseCLI` returns what the options make of the defaults, unless it rejects one. -/
theorem parseCLI_eq_ok {argv : List String} {cfg : SimConfig} :
    parseCLI atoi argv = .ok cfg ↔
      (∀ g ∈ split argv.tail, g.1 ≠ .help ∧ ¬ Unlisted g) ∧
        (split argv.tail).foldl (setField atoi) {} = cfg := by
  rw [parseCLI,parseArgs_eq]
  cases hf : (split argv.tail).findSome? (exitOf (argv.headD "")) with
  | none =>
    have hnone : ∀ g ∈ split argv.tail, g.1 ≠ .help ∧ ¬ Unlisted g := fun g hg =>
      exitOf_eq_none.mp (List.findSome?_eq_none_iff.mp hf g hg)
    simpa using fun _ => hnone
  | some e =>
    obtain ⟨g,hg,he⟩ := List.exists_of_findSome?_eq_some hf
    refine iff_of_false (fun h => by cases h) fun h => ?_
    rw [exitOf_eq_none.mpr (h.1 g hg)] at he
    cases he

theorem parseCLI_exits {argv : List String} (h : ∀ g ∈ split argv.tail, g.1 ≠ .help) :
    (∃ cfg, parseCLI atoi argv = .ok cfg) ∨ ∃ e, parseCLI atoi argv = .error e ∧ e.status = 1 := by
  rw [parseCLI,parseArgs_eq]
  cases hf : (split argv.tail).findSome? (exitOf (argv.headD "")) with
  | none => exact .inl ⟨_,rfl⟩
  | some e =>
    obtain ⟨g,hg,he⟩ := List.exists_of_findSome?_eq_some hf
    exact .inr ⟨e,rfl,status_of_exitOf he (h g hg)⟩

end

section
variable {atoi : String → Int}

/-- The configuration that the values given last make. -/
def lastGiven (atoi : String → Int) (gs : List (Opt × String)) : SimConfig where
  algo := (lastOf .algo gs).elim .READER_PRIORITY fun a => (algoOf a).getD .READER_PRIORITY
  numReaders := (lastOf .readers gs).elim 5 atoi
  numWriters := (lastOf .writers gs).elim 3 atoi
  totalOps := (lastOf .ops gs).elim 100 atoi
  logLevel := (lastOf .log gs).elim .VERBOSE fun l => (logLevelOf l).getD .VERBOSE
  logFile := (lastOf .logfile gs).elim "" id
  benchmarkMode := (lastOf .benchmark gs).elim false fun _ => true
  csvOutput := (lastOf .output gs).elim "" id
  starveThresholdMs := (lastOf .starve gs).elim STARVE_MS atoi
  enableAbortTest := (lastOf .abortTest gs).elim false fun _ => true

theorem foldl_setField (gs : List (Opt × String)) :
    gs.foldl (setField atoi) {} = lastGiven atoi gs := by
  apply SimConfig.ext
  case' algo => refine foldl_field SimConfig.algo ?_ gs {}
  case' numReaders => refine foldl_field SimConfig.numReaders ?_ gs {}
  case' numWriters => refine foldl_field SimConfig.numWriters ?_ gs {}
  case' totalOps => refine foldl_field SimConfig.totalOps ?_ gs {}
  case' logLevel => refine foldl_field SimConfig.logLevel ?_ gs {}
  case' logFile => refine foldl_field SimConfig.logFile ?_ gs {}
  case' benchmarkMode => refine foldl_field SimConfig.benchmarkMode ?_ gs {}
  case' csvOutput => refine foldl_field SimConfig.csvOutput ?_ gs {}
  case' starveThresholdMs => refine foldl_field SimConfig.starveThresholdMs ?_ gs {}
  case' readWorkMs => refine foldl_unset SimConfig.readWorkMs ?_ gs {}
  case' writeWorkMs => refine foldl_unset SimConfig.writeWorkMs ?_ gs {}
  case' enableAbortTest => refine foldl_field SimConfig.enableAbortTest ?_ gs {}
  all_goals
    rintro cfg ⟨o,v⟩
    cases o <;> rfl

end

section
variable {gs : List (Opt × String)}

theorem gives_elim {α : Type} {o : Opt} {denotes : String → Option α} {default : α} {f : String → α}
    (h : ∀ v, lastOf o gs = some v → denotes v = some (f v)) :
    Gives gs o denotes default ((lastOf o gs).elim default f) := by
  rw [Gives]
  cases hl : lastOf o gs with
  | none => rfl
  | some v => exact h v hl

theorem integer_lastOf {o : Opt} {v : String} (hv : ∀ g ∈ gs, g.1.valid g.2 = true)
    (hn : NumbersFit gs) (ho : o.isNumeric = true) (hl : lastOf o gs = some v) :
    integer v = some (atoi v) := by
  have hvalid : (integer v).isSome = true := by
    have hg := hv _ (mem_of_lastOf hl)
    cases o with
    | readers | writers | ops | starve => exact hg
    | _ => cases ho
  obtain ⟨n,hs⟩ := Option.isSome_iff_exists.mp hvalid
  rw [hs,atoi_eq hs (hn o v n ho hl hs)]

theorem getD_of_isSome {α : Type} {x : Option α} (h : x.isSome = true) (d : α) :
    x = some (x.getD d) := by
  obtain ⟨a,rfl⟩ := Option.isSome_iff_exists.mp h
  rfl

theorem fieldsGiven_lastGiven (hv : ∀ g ∈ gs, g.1.valid g.2 = true) (hn : NumbersFit gs) :
    FieldsGiven gs (lastGiven atoi gs) where
  algo := gives_elim fun _ hl => getD_of_isSome (hv _ (mem_of_lastOf hl)) _
  numReaders := gives_elim fun _ => integer_lastOf hv hn rfl
  numWriters := gives_elim fun _ => integer_lastOf hv hn rfl
  totalOps := gives_elim fun _ => integer_lastOf hv hn rfl
  logLevel := gives_elim fun _ hl => getD_of_isSome (hv _ (mem_of_lastOf hl)) _
  logFile := gives_elim fun _ _ => rfl
  benchmarkMode := gives_elim fun _ _ => rfl
  csvOutput := gives_elim fun _ _ => rfl
  starveThresholdMs := gives_elim fun _ => integer_lastOf hv hn rfl
  readWorkMs := rfl
  writeWorkMs := rfl
  enableAbortTest := gives_elim fun _ _ => rfl

/-- What `atoi` returned is no number that does not fit. -/
theorem fits_of_gives {o : Opt} {v : String} {n default : Int}
    (h : Gives gs o integer default ((lastOf o gs).elim default atoi)) (hl : lastOf o gs = some v)
    (hi : integer v = some n) : FitsInt n := by
  rw [Gives,hl] at h
  obtain rfl : n = atoi v := Option.some.inj (hi.symm.trans h)
  exact fitsInt_atoi v

theorem numbersFit_of_fieldsGiven (h : FieldsGiven gs (lastGiven atoi gs)) : NumbersFit gs := by
  intro o v n ho hl hi
  cases o with
  | readers => exact fits_of_gives h.numReaders hl hi
  | writers => exact fits_of_gives h.numWriters hl hi
  | ops => exact fits_of_gives h.totalOps hl hi
  | starve => exact fits_of_gives h.starveThresholdMs hl hi
  | _ => cases ho

end

theorem lastGiven_reordering {atoi : String → Int} {gs hs : List (Opt × String)}
    (h : Reordering gs hs) : lastGiven atoi gs = lastGiven atoi hs := by
  simp only [lastGiven,h.lastOf_eq]

/-- The order of options that set different fields makes no difference. -/
theorem parseCLI_reordering {argv : List String} {cfg : SimConfig} {gs : List (Opt × String)}
    (h : parseCLI atoi argv = .ok cfg) (hr : Reordering (split argv.tail) gs) (progName : String) :
    parseCLI atoi (progName :: gs.flatMap words) = .ok cfg := by
  obtain ⟨hnone,rfl⟩ := parseCLI_eq_ok.mp h
  have hs : split (gs.flatMap words) = gs :=
    split_flatMap fun g hg => (mem_split (hr.mem_iff.mpr hg)).1
  refine parseCLI_eq_ok.mpr ⟨fun g hg => hnone g ?_,?_⟩
  · rw [List.tail_cons,hs] at hg
    exact hr.mem_iff.mpr hg
  · rw [List.tail_cons,hs,foldl_setField,foldl_setField,lastGiven_reordering hr]

/-- In particular, neighbours that set different fields may change places. -/
theorem parseCLI_swap {progName : String} {cfg : SimConfig} {gs hs : List (Opt × String)}
    {a b : Opt × String} (hab : a.1 ≠ b.1) (ha : ∀ g ∈ gs ++ a :: b :: hs, Alone g)
    (h : parseCLI atoi (progName :: (gs ++ a :: b :: hs).flatMap words) = .ok cfg) :
    parseCLI atoi (progName :: (gs ++ b :: a :: hs).flatMap words) = .ok cfg := by
  refine parseCLI_reordering h ?_ progName
  rw [List.tail_cons,split_flatMap ha]
  exact .swap hab gs hs

theorem not_unlisted_of_valid {g : Opt × String} (h : g.1.valid g.2 = true) : ¬ Unlisted g :=
  fun hu => Bool.false_ne_true (hu.2.symm.trans h)

/-- Without `--help` in it, a command line is treated as the documentation says exactly if it
is in the documented language, with numbers that fit where they are given last, or names an
algorithm or a log level that does not exist. -/
theorem as_documented_iff (argv : List String) (hhelp : "--help" ∉ argv.tail) :
    AsDocumented argv ↔ (Documented argv.tail ∧ NumbersFit (split argv.tail)) ∨
      ∃ g ∈ split argv.tail, Unlisted g := by
  have hno : ∀ g ∈ split argv.tail, g.1 ≠ .help := by
    intro g hg he
    have hm := (mem_split hg).2
    rw [he] at hm
    exact hhelp hm
  constructor
  · intro h
    by_contra hc
    obtain ⟨hd,hu⟩ := not_or.mp hc
    have hok : parseCLI atoi argv = .ok ((split argv.tail).foldl (setField atoi) {}) :=
      parseCLI_eq_ok.mpr ⟨fun g hg => ⟨hno g hg,fun hx => hu ⟨g,hg,hx⟩⟩,rfl⟩
    have hf := h.fields _ hok
    rw [foldl_setField] at hf
    exact hd ⟨h.returns_iff.mp ⟨_,hok⟩,numbersFit_of_fieldsGiven hf⟩
  · rintro (⟨hd,hn⟩ | ⟨g,hg,hu⟩)
    · have hv := (documented_iff.mp hd).2
      have hok : parseCLI atoi argv = .ok ((split argv.tail).foldl (setField atoi) {}) :=
        parseCLI_eq_ok.mpr ⟨fun g hg => ⟨hno g hg,not_unlisted_of_valid (hv g hg)⟩,rfl⟩
      refine ⟨iff_of_true ⟨_,hok⟩ hd,absurd hd,fun cfg h => ?_,
        fun cfg h gs hr => parseCLI_reordering h hr⟩
      obtain rfl := (parseCLI_eq_ok.mp h).2
      rw [foldl_setField]
      exact fieldsGiven_lastGiven hv hn
    · have hnot : ¬ ∃ cfg, parseCLI atoi argv = .ok cfg := by
        rintro ⟨cfg,h⟩
        exact ((parseCLI_eq_ok.mp h).1 g hg).2 hu
      have hd : ¬ Documented argv.tail := fun hd =>
        not_unlisted_of_valid ((documented_iff.mp hd).2 g hg) hu
      refine ⟨iff_of_false hnot hd,fun _ => (parseCLI_exits hno).resolve_left hnot,
        fun cfg h => absurd ⟨cfg,h⟩ hnot,fun cfg h => absurd ⟨cfg,h⟩ hnot⟩

theorem as_documented_iff_witness :
    AsDocumented ["rw_toolkit","--algo","wp","--readers","2","--benchmark","--readers","+7"] :=
  (as_documented_iff _ (by decide)).mpr <| .inl ⟨by decide +kernel,by
    intro o v n ho hl hi
    cases o with
    | readers =>
      obtain rfl : "+7" = v := Option.some.inj hl
      obtain rfl : 7 = n := Option.some.inj hi
      decide
    | writers | ops | starve => cases show none = some v from hl
    | _ => cases ho⟩

/-- Options that are no options are passed over, and values that are no numbers taken for 0. -/
theorem undocumented_accepted :
    parseCLI atoi ["rw_toolkit","--reader","8"] = .ok {} ∧
    parseCLI atoi ["rw_toolkit","--readers","eight"] = .ok { numReaders := 0 } ∧
    ¬ AsDocumented ["rw_toolkit","--reader","8"] ∧
    ¬ AsDocumented ["rw_toolkit","--readers","eight"] := by
  refine ⟨by decide +kernel,by decide +kernel,fun h => ?_,fun h => ?_⟩
  · exact absurd (h.returns_iff.mp ⟨_,rfl⟩) (by decide +kernel)
  · exact absurd (h.returns_iff.mp ⟨_,rfl⟩) (by decide +kernel)

end ReadersWriters
