import Rtos.Bench
import Rtos.Call.Task
import Rtos.Listing

/-!
# Operations of a script

A script is a list of operations. Whatever has the processor performs the next one when it asks for
it, and each operation that completes has an answer. A timeout of `none` means to wait for ever.
-/

namespace Rtos

inductive Operation
  | createTask (name : String) (priority : UInt8) (stack : Stack) (arg : UInt64)
  | start
  | delay (ticks : Int32)
  | wake (t : TaskId)
  | exit
  /-- Tells the worker that performs it to return. -/
  | leave
  | current
  | localWord (n : Nat)
  | setLocalWord (n : Nat) (value : UInt64)
  | task (t : TaskId)
  | taskLines
  | order
  | resetTimes
  | tick (n : Nat)
  | tickCount
  | schedule
  | stats
  | switch (sp : StackPointer)
  | advance (microseconds : UInt32)
  | arm (after : Nat)
  | mask
  | restoreMask
  | window
  | createSemaphore (name : String) (count : UInt32)
  | post (s : SemId)
  | wait (s : SemId) (ticks : Option Int32)
  | semaphore (s : SemId)
  | semaphoreRows
  | createMutex (name : String)
  | lock (m : MutexId) (ticks : Option Int32)
  | unlock (m : MutexId)
  | owner (m : MutexId)
  | mutexRows
  | createQueue (name : String) (kind : QueueKind)
  | createPool (name : String) (kind : QueueKind) (count size : UInt64) (tagged : Bool)
  | setRoutines (q : QueueId) (put : Option PutRoutine) (control : Option ControlRoutine)
      (data : UInt64)
  | control (q : QueueId) (control : UInt32) (arg : UInt64)
  | lookUp (name : String)
  | queue (q : QueueId)
  | queueLines
  | queueMessages (q : QueueId)
  | poolMessages (q : QueueId)
  | receive (q : QueueId) (hand : Nat) (ticks : Int32) (tagged : Bool)
  | put (q : QueueId) (hand : Nat)
  | giveBack (hand : Nat)
  | putTagged (q : QueueId) (hand : Nat) (code length : UInt16)
  | toTagged (hand : Nat)
  | toPlain (hand : Nat)
  | inspect (hand : Nat)
  | write (hand offset : Nat) (bytes : List UInt8)
  | drop (hand : Nat)
  /-- Makes a second message for a slot, as another kernel's tables would have it. -/
  | forge (id : MessageId) (home : QueueId) (length : Nat) (hand : Nat)

inductive Answer
  | nothing
  | flag (b : Bool)
  | number (n : UInt32)
  | word (w : UInt64)
  | status (s : Status)
  | task (t : Option TaskId)
  | tasks (ts : List TaskId)
  | queue (q : Option QueueId)
  | created (r : Except Error Nat)
  | accepted (r : Except Error Unit)
  | controlled (r : Except Error Int32)
  | stats (s : SchedulerStats)
  | taskState (name : String) (priority : UInt8) (state : TaskState) (status : TaskStatus)
  | semaphoreState (name : String) (count : UInt32)
  | queueState (name : String) (kind : QueueKind) (count : UInt32)
  | lines (ls : List String)
  | semaphoreRows (rs : List SemaphoreRow)
  | mutexRows (rs : List MutexRow)
  | messageRows (rs : List MessageRow)
  /-- A message that is now in a hand, in brief. -/
  | message (m : Option Held)
  /-- A message in a hand, with its contents. -/
  | contents (m : Held)
  /-- The operation needs a message, and the hand is empty. -/
  | emptyHand
  /-- The bytes do not fit where they should be written. -/
  | outOfRange

end Rtos
