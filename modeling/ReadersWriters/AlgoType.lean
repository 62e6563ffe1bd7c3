import ReadersWriters.FairMorris
import ReadersWriters.ReaderPriority
import ReadersWriters.WriterPriority
set_option autoImplicit false

namespace ReadersWriters
open Interleaving

inductive AlgoType where
  | READER_PRIORITY | WRITER_PRIORITY | FAIR_MORRIS
  deriving DecidableEq, Repr

namespace AlgoType

def Shared (ι : Type) : AlgoType → Type
  | READER_PRIORITY => ReaderPriorityLock.Shared
  | WRITER_PRIORITY => WriterPriorityLock.Shared
  | FAIR_MORRIS => FairMorrisLock.Shared ι

def ReadPC : AlgoType → Type
  | READER_PRIORITY => ReaderPriorityLock.ReadPC
  | WRITER_PRIORITY => WriterPriorityLock.ReadPC
  | FAIR_MORRIS => FairMorrisLock.ReadPC

def WritePC : AlgoType → Type
  | READER_PRIORITY => ReaderPriorityLock.WritePC
  | WRITER_PRIORITY => WriterPriorityLock.WritePC
  | FAIR_MORRIS => FairMorrisLock.WritePC

/-- The lock that `runSimulation` makes for an algorithm. -/
def lock (ι : Type) [DecidableEq ι] :
    (algo : AlgoType) → RWLockBase ι (algo.Shared ι) algo.ReadPC algo.WritePC
  | READER_PRIORITY => ReaderPriorityLock.lock ι
  | WRITER_PRIORITY => WriterPriorityLock.lock ι
  | FAIR_MORRIS => FairMorrisLock.lock ι

/-- Mutual exclusion of all three locks. -/
theorem exclusive {ι : Type} [Fintype ι] [DecidableEq ι] {algo : AlgoType} {isWriter : ι → Bool}
    {h : List (Event ι ι ι (algo.Shared ι) (Client algo.ReadPC algo.WritePC))}
    {c : Config ι (algo.Shared ι) (Client algo.ReadPC algo.WritePC)}
    (hr : Run (algo.lock ι).client ((algo.lock ι).fresh isWriter) h c) :
    (algo.lock ι).Exclusive c := by
  cases algo with
  | READER_PRIORITY => exact ReaderPriorityLock.exclusive (ReaderPriorityLock.inv_run hr)
  | WRITER_PRIORITY => exact WriterPriorityLock.exclusive (WriterPriorityLock.inv_run hr)
  | FAIR_MORRIS => exact FairMorrisLock.exclusive (FairMorrisLock.counted_run hr)

end AlgoType

end ReadersWriters
