import Rtos.Fault
import Rtos.Queue

/-!
# Notes

What the kernel and the tasks report about their work, with the level of each report.
-/

namespace Rtos

inductive Level
  | trace
  | debug
  | info
  | warn
  deriving DecidableEq

def Level.name : Level → String
  | trace => "TRACE"
  | debug => "DEBUG"
  | info => "INFO"
  | warn => "WARN"

inductive Note
  | taskSwitch (source target : String)
  | semPost (name : String) (count : UInt32)
  | semWaitStart (name : String)
  | semWaitEnd (name : String) (status : Status)
  | messagePut (queue : String) (id : MessageId)
  | messageGet (queue : String) (id : Option MessageId)
  | taskExited (name : String)
  | taskCreated (name : String) (priority : UInt8) (stackBytes : Nat)
  | semCreated (name : String) (count : UInt32)
  | mutexCreated (name : String)
  | queueCreated (name : String) (kind : QueueKind)
  | poolCreated (name : String) (count size : Nat)
  | noTask
  | noStack
  | noSemaphore (name : String)
  | noMutex (name : String)
  | noQueue (name : String)
  | noSlots (pool : String)
  | noStorage (pool : String)
  | report (samples mean sent switches : UInt32)

namespace Note

def level : Note → Level
  | taskSwitch .. | semPost .. | semWaitStart .. | semWaitEnd .. | messagePut ..
  | messageGet .. => .trace
  | taskExited .. | taskCreated .. | semCreated .. | mutexCreated .. | queueCreated ..
  | poolCreated .. => .debug
  | report .. => .info
  | noTask | noStack | noSemaphore .. | noMutex .. | noQueue .. | noSlots .. | noStorage .. => .warn

def text : Note → String
  | taskSwitch source target => s!"task switch '{source}' -> '{target}'"
  | semPost name count => s!"sem post '{name}' count {count}"
  | semWaitStart name => s!"sem wait '{name}' start"
  | semWaitEnd name status => s!"sem wait '{name}' end " ++ status.name
  | messagePut queue id => s!"put '{queue}' msg {id.index}"
  | messageGet queue none => s!"get '{queue}' msg None"
  | messageGet queue (some id) => s!"get '{queue}' msg Some({id.index})"
  | taskExited name => s!"task '{name}' exited"
  | taskCreated name priority stackBytes =>
    s!"task '{name}' created, prio {priority}, stack {stackBytes} bytes"
  | semCreated name count => s!"sem '{name}' created, count {count}"
  | mutexCreated name => s!"mutex '{name}' created"
  | queueCreated name kind => s!"queue '{name}' created, type {kind.letter}"
  | poolCreated name count size => s!"pool '{name}' created, {count} x {size} bytes"
  | noTask => "no memory for task allocation"
  | noStack => "no memory for stack allocation"
  | noSemaphore name => s!"no memory for semaphore '{name}'"
  | noMutex name => s!"no memory for mutex '{name}'"
  | noQueue name => s!"no memory for queue '{name}'"
  | noSlots pool => s!"no message slots for pool '{pool}'"
  | noStorage pool => s!"no memory for pool '{pool}'"
  | report samples mean sent switches =>
    s!"{samples} samples, mean {mean}, {sent} sent, {switches} switches"

/-- The note as one line, its level in front. -/
def line (n : Note) : String :=
  n.level.name ++ " " ++ n.text

end Note

/-- Which notes are kept. -/
inductive Verbosity
  | silent
  | important
  | everything

def Verbosity.keeps : Verbosity → Level → Bool
  | silent, _ => false
  | important, l => l = .info ∨ l = .warn
  | everything, _ => true

end Rtos
