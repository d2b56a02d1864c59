import Rtos.Fault
import Rtos.Queue
import Rtos.ReadyList

/-!
# The state of the kernel

All tables, the ready list, who runs and who is to run next, the tick count and the statistics of
the scheduler. It is only read and written with interrupts masked.
-/

namespace Rtos

/-- What scheduling decisions cost, and how many switches they led to. -/
structure SchedulerStats where
  total : UInt32 := 0
  longest : UInt32 := 0
  switches : UInt32 := 0
  decisions : UInt32 := 0

namespace SchedulerStats

def addDecision (elapsed : UInt32) (s : SchedulerStats) : SchedulerStats :=
  { s with
    total := s.total + elapsed
    longest := max s.longest elapsed
    decisions := s.decisions + 1 }

def addSwitch (s : SchedulerStats) : SchedulerStats :=
  { s with switches := s.switches + 1 }

end SchedulerStats

structure Kernel where
  tasks : List Task := []
  ready : Option TaskId := none
  current : Option TaskId := none
  next : Option TaskId := none
  ticks : UInt32 := 0
  stats : SchedulerStats := {}
  semaphores : List Semaphore := []
  mutexes : List Mutex := []
  queues : List Queue := []
  slots : List Slot := []

/-- The entry of a table that a handle names. There has to be one. -/
def entry {α : Type} (table : List α) (index : Nat) : Except Fault α :=
  match table[index]? with
  | some a => .ok a
  | none => .error (.badIndex table.length index)

namespace Kernel

variable (k : Kernel)

def task (id : TaskId) : Except Fault Task := entry k.tasks id.index

def semaphore (s : SemId) : Except Fault Semaphore := entry k.semaphores s.index

def mutex (m : MutexId) : Except Fault Mutex := entry k.mutexes m.index

def queue (q : QueueId) : Except Fault Queue := entry k.queues q.index

def slot (id : MessageId) : Except Fault Slot := entry k.slots id.index

/-- The task that runs; there is none until the scheduler has made its first switch. -/
def currentTask : Except Fault TaskId :=
  match k.current with
  | some id => .ok id
  | none => .error .notStarted

def localWord (n : Nat) : Except Fault UInt64 := do
  let t ← k.task (← k.currentTask)
  match t.localWord? n with
  | some w => return w
  | none => throw (.localIndex n)

def queueSemaphore (q : QueueId) : Except Fault (Option SemId) := do
  match (← k.queue q).discipline with
  | .task sem => return some sem
  | .driver _ => return none

def controlRoutine (q : QueueId) :
    Except Fault (Except Error (ControlRoutine × UInt64)) := do
  match (← k.queue q).discipline with
  | .task _ => return .error .wrongQueueKind
  | .driver { control := none, .. } => return .error .noControl
  | .driver { control := some r, data, .. } => return .ok (r, data)

/-- The oldest queue of that name. -/
def lookUp (name : String) : Option QueueId :=
  (k.queues.findIdx? fun q => q.name = name).map QueueId.mk

/-- Messages on a queue: the units of its semaphore, or its own count. -/
def queueCount (q : Queue) : UInt32 :=
  match q.discipline with
  | .task sem => (k.semaphores[sem.index]?.map Semaphore.count).getD 0
  | .driver d => d.count

def taskTableIsFull : Bool := Limits.tasks ≤ k.tasks.length

def queueTableIsFull : Bool := Limits.queues ≤ k.queues.length

def slotsFit (count : Nat) : Bool := k.slots.length + count ≤ Limits.slots

def updateTask (id : TaskId) (f : Task → Task) : Kernel :=
  { k with tasks := TaskTable.update k.tasks id f }

def readyOrder : List TaskId :=
  ReadyList.order k.tasks k.ready

def choice : Option TaskId :=
  ReadyList.choose k.tasks k.ready k.current

/-- Takes over a decision for task `t`; whether a switch has to follow. A switch to the task that
runs already is dropped. -/
def elect (t : TaskId) : Kernel × Bool :=
  if k.current = some t then ({ k with next := none }, false)
  else ({ k with next := some t }, true)

def countTick : Kernel :=
  { k with ticks := k.ticks + 1, tasks := k.tasks.map Task.tick }

def addTask (name : String) (priority : UInt8) (sp : StackPointer) (stackBytes : Nat) :
    Option (TaskId × Kernel) :=
  if k.taskTableIsFull then none
  else
    let id : TaskId := ⟨k.tasks.length⟩
    let (tasks, ready) :=
      ReadyList.insert (k.tasks ++ [.fresh name priority sp stackBytes]) k.ready id
    some (id, { k with tasks, ready })

def addSemaphore (name : String) (count : UInt32) : Option (SemId × Kernel) :=
  if k.semaphores.length < Limits.semaphores then
    some (⟨k.semaphores.length⟩, { k with semaphores := k.semaphores ++ [{ name, count }] })
  else none

def addMutex (name : String) : Option (MutexId × Kernel) :=
  if k.mutexes.length < Limits.mutexes then
    some (⟨k.mutexes.length⟩, { k with mutexes := k.mutexes ++ [{ name }] })
  else none

def addQueue (name : String) (discipline : Discipline) : Option (QueueId × Kernel) :=
  if k.queueTableIsFull then none
  else some (⟨k.queues.length⟩, { k with queues := k.queues ++ [{ name, discipline }] })

/-- Makes queue `q` a pool and adds its slots, all of them empty, unless they do not fit. -/
def addPool (q : QueueId) (shape : PoolShape) : Option (MessageId × Kernel) :=
  if k.slotsFit shape.count then
    some (⟨k.slots.length⟩, { k with
      queues := k.queues.modify q.index ({ · with pool := some shape })
      slots := k.slots ++ List.replicate shape.count { home := q } })
  else none

end Kernel

end Rtos
