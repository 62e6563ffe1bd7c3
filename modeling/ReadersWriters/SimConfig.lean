import ReadersWriters.AlgoType
set_option autoImplicit false

namespace ReadersWriters

def STARVE_MS : Int := 500

def READ_WORK_MS : Int := 100

def WRITE_WORK_MS : Int := 150

/-- Maximum threads supported in a single simulation. -/
def MAX_THREADS : Int := 64

def BENCHMARK_RUNS : ℕ := 5

inductive LogLevel where
  | VERBOSE | STANDARD | SUMMARY
  deriving DecidableEq, Repr

inductive LoadProfile where
  | LIGHT | BALANCED | HEAVY | CUSTOM
  deriving DecidableEq, Repr

@[ext] structure SimConfig where
  algo : AlgoType := .READER_PRIORITY
  numReaders : Int := 5
  numWriters : Int := 3
  totalOps : Int := 100
  logLevel : LogLevel := .VERBOSE
  logFile : String := ""
  benchmarkMode : Bool := false
  csvOutput : String := ""
  starveThresholdMs : Int := STARVE_MS
  readWorkMs : Int := READ_WORK_MS
  writeWorkMs : Int := WRITE_WORK_MS
  enableAbortTest : Bool := false
  deriving DecidableEq, Repr

def applyLoadProfile (cfg : SimConfig) : LoadProfile → SimConfig
  | .LIGHT => { cfg with numReaders := 3, numWriters := 1, totalOps := 100 }
  | .BALANCED => { cfg with numReaders := 5, numWriters := 5, totalOps := 500 }
  | .HEAVY => { cfg with numReaders := 10, numWriters := 10, totalOps := 1000 }
  | .CUSTOM => cfg

end ReadersWriters
