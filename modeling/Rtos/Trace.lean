import Rtos.Listing.Kernel
import Rtos.Operation
import Rtos.Section

/-!
# What a run shows

A run is told as a row of steps, one for each operation of its script: the events in the order in
which they happened, and the state of the kernel at the end.
-/

namespace Rtos

structure TaskView where
  state : TaskState
  status : TaskStatus
  time : UInt32

structure SemaphoreView where
  count : UInt32
  waiters : List String

structure MutexView where
  depth : UInt32
  owner : Option TaskId
  waiters : List String

structure Snapshot where
  current : Option TaskId
  ticks : UInt32
  tasks : List TaskView
  semaphores : List SemaphoreView
  mutexes : List MutexView
  queues : List UInt32
  stats : SchedulerStats
  requests : Nat
  masked : Bool

def Snapshot.ofCore (c : Core) (masked : Bool) : Snapshot :=
  let k := c.kernel
  { current := k.current
    ticks := k.ticks
    tasks := k.tasks.map fun t => { state := t.state, status := t.status, time := t.time }
    semaphores := k.semaphores.map fun s =>
      { count := s.count, waiters := k.waiterNames s.waiters }
    mutexes := k.mutexes.map fun m =>
      { depth := m.depth, owner := m.owner, waiters := k.waiterNames m.waiters }
    queues := k.queues.map k.queueCount
    stats := k.stats
    requests := c.requests
    masked }

inductive Event
  | completed (operation : Nat) (a : Answer)
  /-- A fault, in an operation unless a task met it on its own. -/
  | failed (operation : Option Nat) (f : Fault)
  | frame (sp : StackPointer) (arg : UInt64) (stackBytes : Nat)
  | first (sp : StackPointer) (masked : Bool)
  | started (context : Nat)
  | put (data : UInt64) (masked : Bool)
  | control (data : UInt64) (control : UInt32) (arg : UInt64) (masked : Bool)
  | note (n : Note)
  | interrupt (operation : Nat)

/-- What happened from the start of an operation to the start of the next, and the state then. -/
structure Step where
  events : Array Event
  state : Option Snapshot

inductive Ending
  /-- The script is over. -/
  | finished
  | fault
  /-- Nothing can ask for the next operation any more. -/
  | stuck
  deriving DecidableEq

end Rtos
