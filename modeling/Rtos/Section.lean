import Rtos.Kernel
import Rtos.Note

/-!
# Masked sections

A masked section is what the kernel does between masking interrupts and unmasking them. Nothing can
come in between, so a section is one step: a function of the kernel and of the few services that it
reaches from there, namely the clock, the request for a switch and the notes. A section that meets
a broken invariant ends in a fault, and what it did before stays done.
-/

namespace Rtos

/-- A microsecond clock that wraps around and moves on by `step` whenever it is read. -/
structure Clock where
  now : UInt32 := 0
  step : UInt32 := 1

structure Core where
  kernel : Kernel := {}
  clock : Clock := {}
  /-- Switches requested so far. -/
  requests : Nat := 0
  /-- A switch was requested and has not been taken. -/
  pending : Bool := false
  notes : Array Note := #[]

namespace Core

def addNote (n : Note) (c : Core) : Core := { c with notes := c.notes.push n }

/-- The core with a switch requested, which stays pending until it is taken. -/
def requestSwitch (c : Core) : Core := { c with requests := c.requests + 1, pending := true }

end Core

abbrev Section : Type → Type := EStateM Fault Core

namespace Section

variable {α : Type}

def kernel : Section Kernel := return (← get).kernel

def setKernel (k : Kernel) : Section Unit := modify ({ · with kernel := k })

def modifyKernel (f : Kernel → Kernel) : Section Unit :=
  modify fun c => { c with kernel := f c.kernel }

def note (n : Note) : Section Unit := modify (Core.addNote n)

def now : Section UInt32 := do
  let { now, step } := (← get).clock
  modify ({ · with clock := { now := now + step, step } })
  return now

def requestSwitch : Section Unit := modify Core.requestSwitch

def reading (f : Kernel → Except Fault α) : Section α := do
  match f (← kernel) with
  | .ok a => return a
  | .error e => throw e

def currentTask : Section TaskId := reading Kernel.currentTask

def task (id : TaskId) : Section Task := reading (·.task id)

def semaphore (s : SemId) : Section Semaphore := reading (·.semaphore s)

def mutex (m : MutexId) : Section Mutex := reading (·.mutex m)

def queue (q : QueueId) : Section Queue := reading (·.queue q)

def slot (id : MessageId) : Section Slot := reading (·.slot id)

def setSemaphore (s : SemId) (sem : Semaphore) : Section Unit :=
  modifyKernel fun k => { k with semaphores := k.semaphores.set s.index sem }

def setMutex (m : MutexId) (mutex : Mutex) : Section Unit :=
  modifyKernel fun k => { k with mutexes := k.mutexes.set m.index mutex }

def setQueue (q : QueueId) (queue : Queue) : Section Unit :=
  modifyKernel fun k => { k with queues := k.queues.set q.index queue }

def setSlot (id : MessageId) (slot : Slot) : Section Unit :=
  modifyKernel fun k => { k with slots := k.slots.set id.index slot }

/-- One more. A count may not wrap around. -/
def increment (n : UInt32) : Section UInt32 :=
  if n + 1 = 0 then throw .addOverflow else return n + 1

def decrement (n : UInt32) : Section UInt32 :=
  if n = 0 then throw .subtractOverflow else return n - 1

end Section

end Rtos
