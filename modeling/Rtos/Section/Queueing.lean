import Rtos.Section.Waiting

/-!
# Moving messages

A message that goes onto a queue leaves its payload with its slot, and gets it back when it is taken
off. A put on a task queue posts the semaphore of the queue; a put on a driver queue counts the
message and says which routine has to run afterwards.
-/

namespace Rtos.Section

/-- Appends a message to a queue. Returns the routine to run, with its data word, once interrupts
are unmasked. -/
def enqueue (q : QueueId) (m : Message) : Section (Option (PutRoutine × UInt64)) := do
  let slot ← slot m.id
  if slot.queue.isSome then throw .alreadyQueued
  else if slot.home ≠ m.home then throw (.wrongHome slot.home.index m.home.index)
  else
    setSlot m.id { slot with queue := some q, payload := some m.payload }
    let (queue, slots) := (← queue q).push (← kernel).slots m.id
    modifyKernel ({ · with slots })
    setQueue q queue
    match queue.discipline with
    | .task sem =>
      post sem
      return none
    | .driver d =>
      setQueue q { queue with discipline := .driver { d with count := ← increment d.count } }
      note (.messagePut queue.name m.id)
      return d.put.map (·, d.data)

def dequeue (q : QueueId) : Section (Option Message) := do
  match (← queue q).pop (← kernel).slots with
  | none => return none
  | some (id, queue, slots) =>
    modifyKernel ({ · with slots })
    setQueue q queue
    let slot ← slot id
    setSlot id { slot with queue := none, payload := none }
    match slot.payload with
    | none => throw (.noBuffer id.index)
    | some payload => return some { id, home := slot.home, payload }

def pollDriver (q : QueueId) : Section (Option Message) := do
  let queue ← queue q
  match queue.discipline with
  | .task _ => return none
  | .driver d =>
    if d.count = 0 then
      note (.messageGet queue.name none)
      return none
    else
      setQueue q { queue with discipline := .driver { d with count := d.count - 1 } }
      match ← dequeue q with
      | none => throw .driverQueueCount
      | some m =>
        note (.messageGet queue.name (some m.id))
        return some m

def setRoutines (q : QueueId) (put : Option PutRoutine) (control : Option ControlRoutine)
    (data : UInt64) : Section (Except Error Unit) := do
  let queue ← queue q
  match queue.discipline with
  | .task _ => return .error .wrongQueueKind
  | .driver d =>
    setQueue q { queue with discipline := .driver { d with put, control, data } }
    return .ok ()

end Rtos.Section
