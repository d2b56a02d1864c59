import Rtos.Chain
import Rtos.Task

/-!
# Lists of waiting tasks

The tasks blocked on one object, the one that waits longest first. A list is only a first and a
last member: the links run through `Task.nextWaiter`, so a task can wait in one list at a time.
-/

namespace Rtos

structure WaitList where
  first : Option TaskId := none
  last : Option TaskId := none

namespace WaitList

variable (w : WaitList) (tasks : List Task)

def toList : List TaskId :=
  chain (TaskTable.nextWaiter tasks) tasks.length w.first

def isEmpty : Bool := w.first.isNone

/-- Appends task `id` and puts it to sleep for `ticks` ticks. A task that may not wait at all is
only marked as timed out. -/
def add (id : TaskId) (ticks : Int32) : WaitList × List Task :=
  let settle (t : Task) : Task :=
    let t := { t with nextWaiter := none }
    if ticks = 0 then { t with status := .timeout } else t.block ticks
  match w.first, w.last with
  | some first, some last =>
    let tasks := TaskTable.update tasks last ({ · with nextWaiter := some id })
    (⟨some first, some id⟩, TaskTable.update tasks id settle)
  | _, _ => (⟨some id, some id⟩, TaskTable.update tasks id settle)

/-- Unlinks task `id`, wherever it stands. A task that is not on the list stays as it is. -/
def remove (id : TaskId) : WaitList × List Task :=
  let members := w.toList tasks
  if id ∈ members then
    let rest := TaskTable.nextWaiter tasks id
    let before := memberBefore id members
    let last := if w.last = some id then before else w.last
    match before with
    | some p =>
      let tasks := TaskTable.update tasks p ({ · with nextWaiter := rest })
      (⟨w.first, last⟩, TaskTable.update tasks id ({ · with nextWaiter := none }))
    | none => (⟨rest, last⟩, TaskTable.update tasks id ({ · with nextWaiter := none }))
  else (w, tasks)

/-- Takes the first task off the list and wakes it, if it still sleeps. A first task that was woken
some other way unlinks itself when it runs, and until then nobody is woken. -/
def wakeFirst : Option (TaskId × WaitList × List Task) :=
  match w.first with
  | none => none
  | some id =>
    match tasks[id.index]? with
    | none => none
    | some t =>
      if t.state = .sleep then
        let last := if t.nextWaiter.isNone then none else w.last
        some (id, ⟨t.nextWaiter, last⟩,
          TaskTable.update tasks id fun t => { t with nextWaiter := none }.wake .ok)
      else none

end WaitList

end Rtos
