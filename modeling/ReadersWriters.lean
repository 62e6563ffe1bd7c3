import ReadersWriters.Budget
import ReadersWriters.DataIntegrity
import ReadersWriters.DeadlockFreedom
import ReadersWriters.Export
import ReadersWriters.Launch
import ReadersWriters.LoggedWait
import ReadersWriters.Metrics
import ReadersWriters.Observers
import ReadersWriters.ReadCounter
import ReadersWriters.ReaderPreference
import ReadersWriters.Refinement
import ReadersWriters.RunSimulation
import ReadersWriters.ShippedTested
import ReadersWriters.Signals
import ReadersWriters.SimulationResult
import ReadersWriters.Starvation
import ReadersWriters.StepBound
import ReadersWriters.TimedWait
import ReadersWriters.WriterPreference
import ReadersWriters.WriterPriorityGate
import ReadersWriters.WriterPriorityReaders
