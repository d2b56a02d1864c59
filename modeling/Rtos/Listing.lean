import Rtos.Kernel
import Rtos.Text.Column

/-!
# Lines of the listings

Each kind of object has a row that says what the listing shows of it, and a line in the columns of
its header. Semaphores and mutexes also have a detailed form with one waiter on each further line.
-/

namespace Rtos

structure TaskRow where
  name : String
  stack : UInt64
  stackBytes : Nat
  priority : UInt8
  state : TaskState
  time : UInt32

namespace TaskRow

def header : String := "name       stack      size prio"

/-- Run time in seconds, with six places. -/
def seconds (time : UInt32) : String :=
  Text.number 4 (time.toNat / 1000000) ++ "." ++ Text.zeroFilled 6 (time.toNat % 1000000)

def line (r : TaskRow) : String :=
  " ".intercalate [Text.left 10 r.name, Text.hexadecimal 10 r.stack.toNat,
    Text.number 4 r.stackBytes, Text.number 4 r.priority.toNat, r.state.letter.toString,
    seconds r.time]

end TaskRow

structure QueueRow where
  name : String
  kind : QueueKind
  count : UInt32
  pool : Option PoolShape

namespace QueueRow

def header : String := "name       typ count alloc size"

def line (r : QueueRow) : String :=
  let queue := Text.left 10 r.name ++ " " ++ r.kind.letter.toString ++ "   " ++
    Text.number 5 r.count.toNat
  match r.pool with
  | none => queue
  | some p => queue ++ " " ++ Text.number 5 p.count ++ " " ++ Text.number 4 p.size

end QueueRow

structure MessageRow where
  id : MessageId
  next : Option MessageId
  home : String
  queue : Option String
  length : Nat

namespace MessageRow

def header : String := "  msg   next  home       queue        len"

def line (r : MessageRow) : String :=
  let next := match r.next with
    | some n => toString n.index
    | none => "-"
  "  " ++ " ".intercalate [Text.left 5 (toString r.id.index), Text.left 5 next,
    Text.left 10 r.home, Text.left 10 (r.queue.getD "none"), Text.number 5 r.length]

end MessageRow

def withWaiters (line : String) (waiters : List String) : String :=
  line ++ String.join (waiters.map ("\n  " ++ ·))

structure SemaphoreRow where
  name : String
  count : UInt32
  /-- The one that waits longest comes first. -/
  waiters : List String

namespace SemaphoreRow

def header : String := "name       count"

def line (r : SemaphoreRow) : String := Text.left 10 r.name ++ " " ++ toString r.count.toNat

def detailed (r : SemaphoreRow) : String := withWaiters r.line r.waiters

end SemaphoreRow

structure MutexRow where
  name : String
  depth : UInt32
  owner : Option String
  waiters : List String

namespace MutexRow

def header : String := "name       count owner"

def line (r : MutexRow) : String :=
  " ".intercalate [Text.left 10 r.name, Text.number 5 r.depth.toNat, r.owner.getD ""]

def detailed (r : MutexRow) : String := withWaiters r.line r.waiters

end MutexRow

end Rtos
