import Rtos.Limits

/-!
# Tasks

A task has a fixed priority, a state, the meaning of its last wake-up and a countdown that the
periodic tick drives. Two links thread it into lists: `next` into the ready list of all tasks, and
`nextWaiter` into at most one list of waiters.
-/

namespace Rtos

structure TaskId where
  index : Nat
  deriving DecidableEq

inductive TaskState
  | exit
  | run
  | sleep
  deriving DecidableEq

namespace TaskState

def letter : TaskState → Char
  | exit => 'x'
  | run => 'r'
  | sleep => 's'

def name : TaskState → String
  | exit => "Exit"
  | run => "Run"
  | sleep => "Sleep"

end TaskState

/-- Why a task last became runnable; `invalid` while it is blocked. -/
inductive TaskStatus
  | ok
  | timeout
  | invalid
  deriving DecidableEq

namespace TaskStatus

def letter : TaskStatus → Char
  | ok => 'O'
  | timeout => 'T'
  | invalid => 'I'

def name : TaskStatus → String
  | ok => "Ok"
  | timeout => "Timeout"
  | invalid => "Invalid"

end TaskStatus

/-- A saved stack pointer. It stands for the whole context that was saved below it. -/
abbrev StackPointer := UInt64

structure Task where
  name : String
  priority : UInt8
  stackPointer : StackPointer
  stackBytes : Nat
  state : TaskState := .run
  status : TaskStatus := .ok
  /-- Ticks left to sleep; a negative countdown stands still. -/
  countdown : Int32 := 0
  next : Option TaskId := none
  nextWaiter : Option TaskId := none
  locals : List UInt64 := List.replicate Limits.localWords 0
  /-- Clock reading at the last switch to this task. -/
  start : UInt32 := 0
  /-- Microseconds of run time, without the stint that is going on. -/
  time : UInt32 := 0

namespace Task

def fresh (name : String) (priority : UInt8) (stackPointer : StackPointer) (stackBytes : Nat) :
    Task :=
  { name, priority, stackPointer, stackBytes }

def isRunnable (t : Task) : Bool := t.state = .run

def block (ticks : Int32) (t : Task) : Task :=
  { t with state := .sleep, countdown := ticks, status := .invalid }

def wake (status : TaskStatus) (t : Task) : Task :=
  { t with state := .run, status }

/-- One tick of the countdown. The tick that brings it to zero wakes the task. -/
def tick (t : Task) : Task :=
  if t.state = .sleep ∧ 0 < t.countdown then
    let t := { t with countdown := t.countdown - 1 }
    if t.countdown = 0 then t.wake .timeout else t
  else t

def switchOut (stackPointer : StackPointer) (now : UInt32) (t : Task) : Task :=
  { t with stackPointer, time := t.time + (now - t.start) }

def localWord? (t : Task) (n : Nat) : Option UInt64 :=
  t.locals[n]?

def setLocalWord (n : Nat) (value : UInt64) (t : Task) : Task :=
  { t with locals := t.locals.set n value }

end Task

namespace TaskTable

variable (tasks : List Task)

def next (id : TaskId) : Option TaskId :=
  tasks[id.index]?.bind Task.next

def nextWaiter (id : TaskId) : Option TaskId :=
  tasks[id.index]?.bind Task.nextWaiter

def priority (id : TaskId) : UInt8 :=
  (tasks[id.index]?.map Task.priority).getD 0

def isRunnable (id : TaskId) : Bool :=
  tasks[id.index]?.any Task.isRunnable

def name (id : TaskId) : String :=
  (tasks[id.index]?.map Task.name).getD ""

def update (id : TaskId) (f : Task → Task) : List Task :=
  tasks.modify id.index f

end TaskTable

end Rtos
