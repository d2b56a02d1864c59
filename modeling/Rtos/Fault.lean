/-!
# Refusals and faults

An `Error` is reported to the caller, who may go on. A `Fault` is a broken invariant: the call that
meets one leaves its masked section and ends the run, and only its message is left.
-/

namespace Rtos

inductive Error
  | noMemory
  | wrongQueueKind
  | noControl
  deriving DecidableEq

namespace Error

def text : Error → String
  | noMemory => "out of memory"
  | wrongQueueKind => "operation not supported by this queue type"
  | noControl => "queue has no control callback"

def name : Error → String
  | noMemory => "NoMemory"
  | wrongQueueKind => "WrongQueueKind"
  | noControl => "NoControl"

end Error

/-- How a bounded wait ended. Running out of time is a result, not an error. -/
inductive Status
  | ok
  | timeout
  deriving DecidableEq

namespace Status

def isOk (s : Status) : Bool := s = ok

def name : Status → String
  | ok => "Ok"
  | timeout => "Timeout"

end Status

inductive Fault
  | notStarted
  | badIndex (length index : Nat)
  | addOverflow
  | subtractOverflow
  | localIndex (index : Nat)
  | alreadyWaiting
  | waitForeverTimedOut
  | lockForeverTimedOut
  | claimedWhileHeld (mutex : String)
  | unlockedByNonOwner (mutex : String)
  | unlockedWhileFree
  | alreadyQueued
  | wrongHome (recorded given : Nat)
  | noBuffer (slot : Nat)
  | taskQueueCount
  | driverQueueCount
  | tooSmallForHeader
  | tooLongForSlot (length : Nat)
  | pastEnd (stop length : Nat)
  | startUp (step : String) (error : Error)
  deriving DecidableEq

namespace Fault

def message : Fault → String
  | notStarted => "no current task: scheduler not started"
  | badIndex length index =>
    s!"index out of bounds: the len is {length} but the index is {index}"
  | addOverflow => "attempt to add with overflow"
  | subtractOverflow => "attempt to subtract with overflow"
  | localIndex index => s!"tls index {index} out of range"
  | alreadyWaiting => "task already waiting"
  | waitForeverTimedOut => "assertion failed: status.is_ok()"
  | lockForeverTimedOut => "mutex wait forever timed out"
  | claimedWhileHeld mutex => s!"mutex '{mutex}' claimed while held"
  | unlockedByNonOwner mutex => s!"mutex '{mutex}' unlocked by non-owner"
  | unlockedWhileFree => "assertion failed: m.count > 0"
  | alreadyQueued => "message already queued"
  | wrongHome recorded given =>
    s!"assertion `left == right` failed\n  left: QueueId({recorded})\n right: QueueId({given})"
  | noBuffer slot => s!"queued message {slot} has no buffer"
  | taskQueueCount => "task queue count out of step"
  | driverQueueCount => "driver queue count out of step"
  | tooSmallForHeader => "message too small for op header"
  | tooLongForSlot length => s!"op message length {length} exceeds slot"
  | pastEnd stop length =>
    s!"range end index {stop} out of range for slice of length {length}"
  | startUp step error => step ++ ": " ++ error.name

end Fault

end Rtos
