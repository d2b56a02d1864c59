import Rtos.Message
import Rtos.Mutex
import Rtos.Semaphore

/-!
# Code that the kernel refers to

The kernel keeps references to code that it does not contain: the entry of each task, and the
routines that a driver hangs on a queue. They are named here; what they do is said in
`Rtos.Routine.Program`.
-/

namespace Rtos

structure Pipeline where
  pool : QueueId
  work : QueueId
  transmit : QueueId
  totals : MutexId
  deriving DecidableEq

inductive Entry
  /-- Performs operations of the script until one tells it to return. -/
  | worker
  | idle
  | sampler (p : Pipeline)
  | filter (p : Pipeline)
  | monitor (p : Pipeline)

/-- What a driver queue runs after each put. Every routine gets the data word of its queue. -/
inductive PutRoutine
  | log
  /-- Empties queue `data`, returning each message to its home. -/
  | drain
  /-- Posts semaphore `data`. -/
  | post
  /-- Moves one message from queue `data / 256` to queue `data % 256`. -/
  | move
  /-- Sends off what is on the pipeline's transmit queue. -/
  | transmit (p : Pipeline)
  deriving DecidableEq

/-- What a driver queue does on a control request. -/
inductive ControlRoutine
  /-- The sum of the data word, the request and its argument. -/
  | sum
  /-- The number of messages on the queue that the argument names. -/
  | count

end Rtos
