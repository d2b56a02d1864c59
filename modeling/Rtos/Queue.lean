import Rtos.Chain
import Rtos.Limits
import Rtos.Routine

/-!
# Queues

A queue is a list of messages linked through their slots, first in, first out. On a task queue a
consumer may block: the units of a semaphore stand for its messages. A driver queue never blocks,
counts its messages itself and may run a routine after each put. A pool is a queue that knows the
shape of the slots it was made with.
-/

namespace Rtos

inductive QueueKind
  | task
  | driver
  deriving DecidableEq

namespace QueueKind

def letter : QueueKind → Char
  | task => 't'
  | driver => 'd'

def name : QueueKind → String
  | task => "Task"
  | driver => "Driver"

end QueueKind

structure PoolShape where
  count : Nat
  /-- Bytes of one slot, after rounding. -/
  size : Nat

structure Driver where
  count : UInt32 := 0
  put : Option PutRoutine := none
  control : Option ControlRoutine := none
  data : UInt64 := 0

inductive Discipline
  | task (sem : SemId)
  | driver (d : Driver)

structure Queue where
  name : String
  discipline : Discipline
  first : Option MessageId := none
  last : Option MessageId := none
  pool : Option PoolShape := none

namespace Queue

def kind (q : Queue) : QueueKind :=
  match q.discipline with
  | .task _ => .task
  | .driver _ => .driver

/-- The messages of the queue, in the order in which they will be taken. -/
def toList (q : Queue) (slots : List Slot) : List MessageId :=
  chain (SlotTable.next slots) slots.length q.first

def push (q : Queue) (slots : List Slot) (id : MessageId) : Queue × List Slot :=
  match q.first, q.last with
  | some first, some last =>
    let slots := slots.modify last.index ({ · with next := some id })
    ({ q with first := some first, last := some id },
      slots.modify id.index ({ · with next := none }))
  | _, _ =>
    ({ q with first := some id, last := some id }, slots.modify id.index ({ · with next := none }))

def pop (q : Queue) (slots : List Slot) : Option (MessageId × Queue × List Slot) :=
  match q.first with
  | none => none
  | some id =>
    let first := SlotTable.next slots id
    let last := if first.isNone then none else q.last
    some (id, { q with first, last }, slots.modify id.index ({ · with next := none }))

end Queue

end Rtos
