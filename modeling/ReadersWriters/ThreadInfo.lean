set_option autoImplicit false

namespace ReadersWriters

inductive ThreadType where
  | READER | WRITER
  deriving DecidableEq, Repr

/-- Every reader or writer thread is in exactly one of these states. -/
inductive ThreadState where
  | INIT | WAITING | ACTIVE | BLOCKED | RELEASING | DONE
  deriving DecidableEq, Repr

/-- The part of a thread's record that the worker threads and their locks write. -/
structure ThreadInfo where
  state : ThreadState := .INIT
  opsCompleted : Int := 0
  deriving DecidableEq, Repr

/-- `info->state.store(..)`, for the program points that store a state. -/
def ThreadInfo.publish (info : ThreadInfo) : Option ThreadState → ThreadInfo
  | some st => { info with state := st }
  | none => info

@[simp] theorem ThreadInfo.publish_opsCompleted (info : ThreadInfo) (st : Option ThreadState) :
    (info.publish st).opsCompleted = info.opsCompleted := by cases st <;> rfl

end ReadersWriters
