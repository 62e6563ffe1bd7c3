import ReadersWriters.SimConfig
import ReadersWriters.Text.Printf
set_option autoImplicit false

namespace ReadersWriters
open Text

def stateName : ThreadState → List Char
  | .INIT => "INIT".toList
  | .WAITING => "WAITING".toList
  | .ACTIVE => "ACTIVE".toList
  | .BLOCKED => "BLOCKED".toList
  | .RELEASING => "RELEASING".toList
  | .DONE => "DONE".toList

def threadTypeName : ThreadType → List Char
  | .READER => "R".toList
  | .WRITER => "W".toList

def algoShortName : AlgoType → List Char
  | .READER_PRIORITY => "RP".toList
  | .WRITER_PRIORITY => "WP".toList
  | .FAIR_MORRIS => "FA".toList

def algoLongName : AlgoType → List Char
  | .READER_PRIORITY => "Reader-Priority".toList
  | .WRITER_PRIORITY => "Writer-Priority".toList
  | .FAIR_MORRIS => "Fair (Morris)".toList

/-- The part of a `ThreadInfo` that says whose it is. -/
structure Identity where
  tid : Int
  type : ThreadType
  algo : AlgoType
  deriving DecidableEq, Repr

/-- The fields of `tm_info` and `ts` that a timestamp shows. -/
structure WallClock where
  tm_hour : Fin 24
  tm_min : Fin 60
  tm_sec : Fin 61
  tv_nsec : Fin 1000000000
  deriving DecidableEq, Repr

namespace Logger

def formatTimestamp (t : WallClock) : List Char :=
  let hms :=
    padded 2 t.tm_hour ++ ":".toList ++ padded 2 t.tm_min ++ ":".toList ++ padded 2 t.tm_sec
  snprintf 20 (hms ++ ".".toList ++ padded 3 (t.tv_nsec/1000000))

def shouldLog (level : LogLevel) (state : ThreadState) : Bool :=
  match level with
  | .VERBOSE => true
  | .STANDARD => state ∈ [.WAITING,.ACTIVE,.BLOCKED,.DONE]
  | .SUMMARY => false

/-- What all lines about a thread begin with. -/
def prefixOf (t : WallClock) (info : Identity) : List Char :=
  "[".toList ++ formatTimestamp t ++ "] | TID:".toList ++ zeroPadded 3 info.tid ++
    " | TYPE:".toList ++ leftAligned 1 (threadTypeName info.type) ++
    " | ALGO:".toList ++ leftAligned 2 (algoShortName info.algo)

/-- What `record` shows of a wait. -/
def waitBuf (waitMs : Int) : List Char :=
  snprintf 32 (if waitMs ≥ 0 then decimal waitMs ++ "ms".toList else "--".toList)

/-- The line of `record`. -/
def record (t : WallClock) (info : Identity) (state : ThreadState) (waitMs : Int)
    (msg : List Char) : List Char :=
  snprintf 512 (prefixOf t info ++ " | STATE:".toList ++ leftAligned 9 (stateName state) ++
    " | WAIT:".toList ++ leftAligned 8 (waitBuf waitMs) ++ " | MSG:".toList ++ cString msg)

/-- The average of `summary`. -/
def avgWait (opsCompleted totalWaitMs : Int) : Int :=
  if opsCompleted > 0 then totalWaitMs.tdiv opsCompleted else 0

/-- The line of `summary`. -/
def summary (t : WallClock) (info : Identity) (opsCompleted totalWaitMs starveCount : Int) :
    List Char :=
  snprintf 512 (prefixOf t info ++ " | SUMMARY | ".toList ++
    "OPS:".toList ++ decimal opsCompleted ++
    " | TOTAL_WAIT:".toList ++ decimal totalWaitMs ++ "ms".toList ++
    " | AVG_WAIT:".toList ++ decimal (avgWait opsCompleted totalWaitMs) ++ "ms".toList ++
    " | STARVE_EVENTS:".toList ++ decimal starveCount)

/-- The line of `alert`. -/
def alert (t : WallClock) (info : Identity) (waitMs : Int) : List Char :=
  snprintf 512 (prefixOf t info ++ " | STATE:BLOCKED    | WAIT:".toList ++
    leftAligned 8 (decimal waitMs) ++
    "ms | MSG:STARVATION ALERT - threshold exceeded".toList)

/-- The line above the text of a header, and below it. -/
def separator : List Char := "======================================================".toList

def header (text : List Char) : List Char :=
  snprintf 512 ("\n".toList ++ separator ++ "\n  ".toList ++ cString text ++ "\n".toList ++
    separator)

end Logger

/-- A call of the logger, with what it reads of the `ThreadInfo`. -/
inductive LogCall where
  | record (info : Identity) (state : ThreadState) (waitMs : Int) (msg : List Char)
  | summary (info : Identity) (opsCompleted totalWaitMs starveCount : Int)
  | alert (info : Identity) (waitMs : Int)
  | header (text : List Char)
  deriving DecidableEq, Repr

namespace LogCall

def line (t : WallClock) : LogCall → List Char
  | record info state waitMs msg => Logger.record t info state waitMs msg
  | summary info ops total starve => Logger.summary t info ops total starve
  | alert info waitMs => Logger.alert t info waitMs
  | header text => Logger.header text

end LogCall

end ReadersWriters
