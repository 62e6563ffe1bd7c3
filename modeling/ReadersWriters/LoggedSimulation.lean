import ReadersWriters.Interleaving.Auxiliary
import ReadersWriters.Interleaving.Printing
import ReadersWriters.LogReading
import ReadersWriters.RunSimulation
import ReadersWriters.SimulationEnds
set_option autoImplicit false

namespace ReadersWriters
open Interleaving Text

/-- The threads besides the workers. -/
inductive Actor where
  | main | watchdog
  deriving DecidableEq, Repr

/-- A call of the logger, with the index of the `ThreadInfo` that is passed to it. -/
inductive Call (ι : Type) where
  | record (i : ι) (state : ThreadState) (waitMs : Int) (msg : List Char)
  | summary (i : ι)
  | alert (i : ι) (waitMs : Int)
  | header (text : List Char)
  deriving DecidableEq, Repr

/-- The values that a call reads when its line is made. -/
def Call.read {ι : Type} (identity : ι → Identity) (record : ι → ThreadRecord)
    (opsCompleted : Int) : Call ι → LogCall
  | .record i state waitMs msg => .record (identity i) state waitMs msg
  | .summary i =>
      .summary (identity i) opsCompleted (record i).totalWaitMs (record i).starveCount
  | .alert i waitMs => .alert (identity i) waitMs
  | .header text => .header text

def Call.passes {ι : Type} (level : LogLevel) : Call ι → Bool
  | .record _ state _ _ => Logger.shouldLog level state
  | .summary _ | .alert _ _ | .header _ => true

namespace AlgoType

/-- The messages that the readers' functions of a lock pass to the transitions. -/
def readMessage (rc : Int) : AlgoType → ThreadState → List Char
  | READER_PRIORITY,.WAITING | WRITER_PRIORITY,.WAITING => "Reader requesting lock".toList
  | READER_PRIORITY,.ACTIVE | WRITER_PRIORITY,.ACTIVE =>
      "Reader acquired lock, readers=".toList ++ decimal rc
  | READER_PRIORITY,.RELEASING | WRITER_PRIORITY,.RELEASING =>
      "Reader released lock, readers=".toList ++ decimal rc
  | FAIR_MORRIS,.WAITING => "Reader requesting lock (Morris FIFO)".toList
  | FAIR_MORRIS,.ACTIVE => "Reader acquired lock (FIFO), readers=".toList ++ decimal rc
  | FAIR_MORRIS,.RELEASING => "Reader released lock (FIFO), readers=".toList ++ decimal rc
  | _,_ => []

def writeMessage : AlgoType → ThreadState → List Char
  | READER_PRIORITY,.WAITING | WRITER_PRIORITY,.WAITING => "Writer requesting lock".toList
  | READER_PRIORITY,.ACTIVE | WRITER_PRIORITY,.ACTIVE => "Writer acquired exclusive lock".toList
  | READER_PRIORITY,.RELEASING | WRITER_PRIORITY,.RELEASING =>
      "Writer released exclusive lock".toList
  | FAIR_MORRIS,.WAITING => "Writer requesting lock (Morris FIFO)".toList
  | FAIR_MORRIS,.ACTIVE => "Writer acquired exclusive lock (Morris FIFO)".toList
  | FAIR_MORRIS,.RELEASING => "Writer released exclusive lock (Morris FIFO)".toList
  | _,_ => []

end AlgoType

/-- What a worker keeps for its log: the last `rc`, and whether the abort exit is the one
behind `writeLock`. -/
structure Notes where
  rc : Int := 0
  aborted : Bool := false
  deriving DecidableEq, Repr

section
variable {ι S R W : Type}

/-- `rc` is assigned where the count changes. -/
def note (L : RWLockBase ι S R W) (s s' : S) (u : Worker R W) (n : Notes) : Notes where
  rc := if L.readerCount s' = L.readerCount s then n.rc else L.readerCount s'
  aborted := match u with
    | .writer _ _ (.call true _) => true
    | _ => n.aborted

/-- The wait that a transition passes on: for ACTIVE it is what `currentWaitMs` returned. -/
def shownWait : ThreadState → Transition → Int
  | .ACTIVE,.entered ms => ms
  | .RELEASING,_ => -1
  | _,_ => 0

/-- The record of `transitionWaiting`, `transitionActive` or `transitionReleasing`. -/
def transitionRecord (i : ι) (message : ThreadState → List Char) (tr : Transition)
    (st : ThreadState) : Call ι :=
  .record i st (shownWait st tr) (message st)

/-- What a worker logs after a step of its own. -/
def Worker.logs (algo : AlgoType) (L : RWLockBase ι S R W) (i : ι) (process : Process)
    (tr : Transition) (n : Notes) : Worker R W → List (Call ι)
  | .reader _ pc => match pc with
      | .start => [.record i .INIT 0 "Reader thread started".toList]
      | .call p =>
          ((L.readPublish p).map (transitionRecord i (algo.readMessage n.rc) tr)).toList
      | .finish => [.record i .DONE (-1) "Reader thread finished".toList,.summary i]
      | _ => []
  | .writer _ isAbortTarget pc => match pc with
      | .sigaction => if isAbortTarget then
          [.record i .INIT 0 "Writer TC-12 abort target: SIGUSR1 handler installed".toList]
        else []
      | .start => [.record i .INIT 0 "Writer thread started".toList]
      | .abortTest => if isAbortTarget ∧ process.abortSignalReceived then
          [.record i .DONE (-1) "Writer TC-12: abort signal received, exiting cleanly".toList]
        else []
      | .call _ p => ((L.writePublish p).map (transitionRecord i algo.writeMessage tr)).toList
      | .finish => [.record i .DONE (-1) (if n.aborted then
          "Writer TC-12: abort signal received mid-operation, lock released cleanly".toList
        else "Writer thread finished".toList),.summary i]
      | _ => []

end

/-- How the logger is set up, and what `result.toString()` will give. -/
structure LogSetup where
  level : LogLevel := .VERBOSE
  logFile : Bool := true
  result : List Char := []

section
variable (cfg : Workload) (algo : AlgoType) (w : LogSetup)

/-- `info.tid` counts the threads from 1. -/
def Workload.identity (i : cfg.Tid) : Identity where
  tid := i.val+1
  type := if cfg.isWriter i then .WRITER else .READER
  algo := algo

def Workload.hdrText : List Char :=
  "Algorithm: ".toList ++ algoLongName algo ++ "  |  Readers: ".toList ++ decimal cfg.numReaders ++
    "  |  Writers: ".toList ++ decimal cfg.numWriters ++ "  |  Ops: ".toList ++ decimal cfg.totalOps

/-- The text of the last header; the dash takes three bytes in the source. -/
def completeText (result : List Char) : List Char :=
  "Simulation Complete \u00e2\u0080\u0094 ".toList ++ result

/-- The alert comes behind the updates of the counters, the last header behind the join. -/
def Simulated.actorCalls {ι S : Type} (result : List Char) (s : Simulated ι S) :
    Around ι → List (Call ι)
  | .watchdog _ => match s.watched.watchdog with
      | .event i waitMs _ => [.alert i waitMs]
      | _ => []
  | .main => match s.main with
      | .watchdogJoin false => [.header (completeText result)]
      | _ => []
  | .disturbance _ => []

/-- A thread is joined when it has returned from its last call. The watchdog is started behind
the first header of the main thread. -/
def Simulated.awaits {n : ℕ} {S : Type} (s : Simulated (Fin n) S) :
    Around (Fin n) → List (Fin n ⊕ Actor)
  | .main => .inr .main :: match s.main with
      | .join k => if h : k < n then [.inl ⟨k,h⟩] else []
      | .watchdogJoin _ => [.inr .watchdog]
      | _ => []
  | .watchdog _ => [.inr .watchdog,.inr .main]
  | .disturbance _ => []

/-- What the threads of a simulation log. -/
def talk : Talk cfg.Tid (cfg.Tid × TimePoint) (Around cfg.Tid)
    (Simulated cfg.Tid (algo.Shared cfg.Tid)) (Watchee algo.ReadPC algo.WritePC × Notes) Actor
    (Call cfg.Tid) WallClock Char where
  threadCalls i _ s t :=
    if t.1.stores (algo.lock cfg.Tid) then
      t.1.worker.logs algo (algo.lock cfg.Tid) i s.watched.sim.process t.1.transition t.2
    else []
  actor
    | .main => some .main
    | .watchdog _ => some .watchdog
    | .disturbance _ => none
  actorCalls e s := s.actorCalls w.result e
  awaits e s := s.awaits e
  passes := Call.passes w.level
  threadLine _ o s t v :=
    (v.read (cfg.identity algo) s.watched.record t.1.worker.info.opsCompleted).line o
  -- only the workers ask for a summary
  actorLine _ o s v := (v.read (cfg.identity algo) s.watched.record 0).line o
  copies := w.logFile
  newline := '\n'

/-- The simulation with what its workers keep for their log. -/
def noted (starveThresholdMs : Int) : Machine cfg.Tid (cfg.Tid × TimePoint) (Around cfg.Tid)
    (Simulated cfg.Tid (algo.Shared cfg.Tid)) (Watchee algo.ReadPC algo.WritePC × Notes) :=
  (simulated (algo.lock cfg.Tid) starveThresholdMs none).noting fun _ _ s _ s' t' =>
    note (algo.lock cfg.Tid) s.watched.sim.lock s'.watched.sim.lock t'.worker

/-- The simulation with its log; each step comes with a reading of the clock on the wall. -/
def logged (starveThresholdMs : Int) :=
  (noted cfg algo starveThresholdMs).printing (talk cfg algo w)

/-- The first header is to be printed; `before` is in the log of the process already. -/
def loggedStart (process : Process)
    (before : List (Printed (cfg.Tid ⊕ Actor) (Call cfg.Tid) Char)) :=
  (talk cfg algo w).start
    ((cfg.simulatedStart (algo.lock cfg.Tid) process).noting fun _ => {})
    (fun | .inr .main => [.header (cfg.hdrText algo)] | _ => []) before

end

abbrev LoggedConfig (cfg : Workload) (algo : AlgoType) :=
  Config cfg.Tid (Logged (Simulated cfg.Tid (algo.Shared cfg.Tid)) (cfg.Tid ⊕ Actor)
    (Call cfg.Tid) Char) (Watchee algo.ReadPC algo.WritePC × Notes)

abbrev LoggedEvent (cfg : Workload) (algo : AlgoType) :=
  Event cfg.Tid ((cfg.Tid × TimePoint) × WallClock) (Around cfg.Tid ⊕ Actor × WallClock)
    (Logged (Simulated cfg.Tid (algo.Shared cfg.Tid)) (cfg.Tid ⊕ Actor) (Call cfg.Tid) Char)
    (Watchee algo.ReadPC algo.WritePC × Notes)

section
variable {cfg : Workload} {algo : AlgoType} {w : LogSetup} {starveThresholdMs : Int}

/-- What is left of a configuration without the log. -/
def unlogged (c : LoggedConfig cfg algo) : Config cfg.Tid (Simulated cfg.Tid (algo.Shared cfg.Tid))
    (Watchee algo.ReadPC algo.WritePC) :=
  ⟨c.shared.base,fun i => (c.locals i).1⟩

def unnoted (cfg : Workload) (algo : AlgoType) (starveThresholdMs : Int) :
    Simulation (noted cfg algo starveThresholdMs)
      (simulated (algo.lock cfg.Tid) starveThresholdMs none) :=
  (simulated (algo.lock cfg.Tid) starveThresholdMs none).unnoted fun _ _ s _ s' t' =>
    note (algo.lock cfg.Tid) s.watched.sim.lock s'.watched.sim.lock t'.worker

@[simp] theorem unnoted_shared (c : Config cfg.Tid (Simulated cfg.Tid (algo.Shared cfg.Tid))
    (Watchee algo.ReadPC algo.WritePC × Notes)) :
    ((unnoted cfg algo starveThresholdMs).view c).shared = c.shared := rfl

@[simp] theorem unnoted_locals (c : Config cfg.Tid (Simulated cfg.Tid (algo.Shared cfg.Tid))
    (Watchee algo.ReadPC algo.WritePC × Notes)) (i : cfg.Tid) :
    ((unnoted cfg algo starveThresholdMs).view c).locals i = (c.locals i).1 := rfl

/-- The steps that are not of the log. -/
def unloggedSteps (cfg : Workload) (algo : AlgoType) (w : LogSetup) (starveThresholdMs : Int)
    (h : List (LoggedEvent cfg algo)) :=
  (unnoted cfg algo starveThresholdMs).history
    (((talk cfg algo w).view (noted cfg algo starveThresholdMs)).history h)

variable {process : Process} {before : List (Printed (cfg.Tid ⊕ Actor) (Call cfg.Tid) Char)}

instance : Nonempty WallClock := ⟨⟨0,0,0,0⟩⟩

instance {ι : Type} : Nonempty (ι → ι × TimePoint) := ⟨fun i => (i,0)⟩

/-- All that can make calls. -/
def Workload.authors (cfg : Workload) : List (cfg.Tid ⊕ Actor) :=
  (List.finRange _).map .inl ++ [.inr .main,.inr .watchdog]

theorem Workload.mem_authors (a : cfg.Tid ⊕ Actor) : a ∈ cfg.authors := by
  rcases a with i | a
  · exact List.mem_append_left _ (List.mem_map_of_mem (List.mem_finRange i))
  · cases a <;> simp [authors]

theorem unlogged_run {h c}
    (hr : Run (logged cfg algo w starveThresholdMs) (loggedStart cfg algo w process before) h c) :
    Run (simulated (algo.lock cfg.Tid) starveThresholdMs none)
      (cfg.simulatedStart (algo.lock cfg.Tid) process)
      (unloggedSteps cfg algo w starveThresholdMs h) (unlogged c) :=
  (unnoted cfg algo starveThresholdMs).run (Simulation.run (Talk.view _ _) hr)

/-- The log does not change what a simulation does: a run with it is one without it, and whatever
the simulation could do next without it, wherever the authors are in their calls and whoever
has the mutex, it can do with it, and then all calls can be completed. -/
theorem logger_transparent {h c}
    (hr : Run (logged cfg algo w starveThresholdMs) (loggedStart cfg algo w process before) h c) :
    Run (simulated (algo.lock cfg.Tid) starveThresholdMs none)
      (cfg.simulatedStart (algo.lock cfg.Tid) process)
      (unloggedSteps cfg algo w starveThresholdMs h) (unlogged c) ∧
    ∀ h₁ c₁, Run (simulated (algo.lock cfg.Tid) starveThresholdMs none) (unlogged c) h₁ c₁ →
      ∃ h' c', Run (logged cfg algo w starveThresholdMs) c h' c' ∧
        unloggedSteps cfg algo w starveThresholdMs h' = h₁ ∧ unlogged c' = c₁ ∧
        c'.shared.printer.mutex = none ∧ ∀ a, c'.shared.printer.Idle a := by
  refine ⟨unlogged_run hr,fun h₁ c₁ hr₁ => ?_⟩
  obtain ⟨h₂,c₂,hr₂,rfl,rfl⟩ := hr₁.noting (fun _ _ s _ s' t' =>
    note (algo.lock cfg.Tid) s.watched.sim.lock s'.watched.sim.lock t'.worker)
    fun i => (c.locals i).2
  obtain ⟨h₃,c₃,hr₃,rfl,rfl,hm,hi⟩ := Talk.continues (T := talk cfg algo w)
    (m := noted cfg algo starveThresholdMs) (Talk.sound_run hr) cfg.authors hr₂
  exact ⟨h₃,c₃,hr₃,rfl,rfl,hm,fun a => hi a (Workload.mem_authors a)⟩

end

/-- A reader and a writer share three operations. -/
abbrev threeOperations : Workload := oneOfEach 3 false

/-- At noon. -/
def noon : WallClock := ⟨12,0,0,0⟩

/-- The main thread prints its header and creates the workers. The writer takes the lock, the
reader waits for it, and after 500 ms the watchdog finds the reader starving. -/
def starvation : List (Label threeOperations.Tid ((threeOperations.Tid × TimePoint) × WallClock)
    (Around threeOperations.Tid ⊕ Actor × WallClock)) :=
  [List.replicate 6 (.env (.inr (.main,noon))),List.replicate 3 (.env (.inl .main)),
    List.replicate 30 (.thread 1 ((0,0),noon)),List.replicate 18 (.thread 0 ((0,0),noon)),
    List.replicate 8 (.env (.inl (.watchdog 500000000))),
    List.replicate 2 (.env (.inr (.watchdog,noon)))].flatten

/-- The watchdog prints its alert. The writer lets the lock go and asks for it again; the reader
is first and runs to its end, then the writer, which has waited for 100 ms. Both are joined, the
watchdog stops, and the last header is printed. -/
def recovery : List (Label threeOperations.Tid ((threeOperations.Tid × TimePoint) × WallClock)
    (Around threeOperations.Tid ⊕ Actor × WallClock)) :=
  [List.replicate 4 (.env (.inr (.watchdog,noon))),
    List.replicate 25 (.thread 1 ((0,550000000),noon)),
    List.replicate 42 (.thread 0 ((0,600000000),noon)),
    List.replicate 43 (.thread 1 ((0,650000000),noon)),List.replicate 4 (.env (.inl .main)),
    List.replicate 3 (.env (.inl (.watchdog 660000000))),[.env (.inl .main)],
    List.replicate 6 (.env (.inr (.main,noon)))].flatten

theorem starvation_isSome : ((logged threeOperations .READER_PRIORITY {} 500).exec starvation
    (loggedStart threeOperations .READER_PRIORITY {} {} [])).isSome = true := by decide +kernel

/-- The watchdog has the mutex and is about to print. -/
def starving : LoggedConfig threeOperations .READER_PRIORITY := Option.get _ starvation_isSome

theorem recovery_isSome : ((logged threeOperations .READER_PRIORITY {} 500).exec recovery
    starving).isSome = true := by decide +kernel

/-- All calls have been completed. -/
def recovered : LoggedConfig threeOperations .READER_PRIORITY := Option.get _ recovery_isSome

theorem starving_run : Run (logged threeOperations .READER_PRIORITY {} 500)
    (loggedStart threeOperations .READER_PRIORITY {} {} [])
    ((logged threeOperations .READER_PRIORITY {} 500).events starvation
      (loggedStart threeOperations .READER_PRIORITY {} {} [])) starving :=
  Run.events _ (Option.some_get _).symm

theorem recovery_run : Run (logged threeOperations .READER_PRIORITY {} 500) starving
    ((logged threeOperations .READER_PRIORITY {} 500).events recovery starving) recovered :=
  Run.events _ (Option.some_get _).symm

/-- While the watchdog keeps the mutex of the log, the writer could run to its end. -/
theorem logger_transparent_witness : ∃ h c h₁ c₁,
    Run (logged threeOperations .READER_PRIORITY {} 500)
      (loggedStart threeOperations .READER_PRIORITY {} {} []) h c ∧
    c.shared.printer.mutex = some (.inr .watchdog) ∧
    Run (simulated (AlgoType.READER_PRIORITY.lock threeOperations.Tid) 500 none) (unlogged c)
      h₁ c₁ ∧ (c₁.locals 1).worker.terminated = true ∧
    ∃ h' c', Run (logged threeOperations .READER_PRIORITY {} 500) c h' c' ∧
      unlogged c' = c₁ ∧ ∀ a, c'.shared.printer.Idle a := by
  obtain ⟨h₁,hr₁,-⟩ := Run.of_exec _ (Option.some_get (show
    ((simulated (AlgoType.READER_PRIORITY.lock threeOperations.Tid) 500 none).exec
      (turns (0,550000000) [(1,32)]) (unlogged starving)).isSome = true by decide +kernel)).symm
  obtain ⟨h',c',hr',-,hc',-,hi⟩ := (logger_transparent starving_run).2 _ _ hr₁
  exact ⟨_,_,h₁,_,starving_run,by decide +kernel,hr₁,by decide +kernel,h',c',hr',hc',hi⟩

end ReadersWriters
