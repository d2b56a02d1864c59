import Rtos.Chain
import Rtos.Task

/-!
# The ready list and the choice of a task

Every task is on one list through `Task.next`, by falling priority, and by age within a priority.
A task is never taken off it: sleeping and exited tasks are passed over.
-/

namespace Rtos.ReadyList

variable (tasks : List Task)

def order (ready : Option TaskId) : List TaskId :=
  chain (TaskTable.next tasks) tasks.length ready

/-- Links task `id` into the list, behind all tasks of its own priority. -/
def insert (ready : Option TaskId) (id : TaskId) : List Task × Option TaskId :=
  let (before, behind) := (order tasks ready).span
    fun t => TaskTable.priority tasks id ≤ TaskTable.priority tasks t
  let tasks := TaskTable.update tasks id ({ · with next := behind.head? })
  match before.getLast? with
  | some last => (TaskTable.update tasks last ({ · with next := some id }), ready)
  | none => (tasks, some id)

/-- The first runnable task behind `t` among the tasks of its priority that follow it. -/
def peerAfter (t : TaskId) : Option TaskId :=
  let band := (chain (TaskTable.next tasks) tasks.length (TaskTable.next tasks t)).takeWhile
    fun p => TaskTable.priority tasks p = TaskTable.priority tasks t
  band.find? (TaskTable.isRunnable tasks)

/-- The task that should run: the first runnable one, unless the current task is a runnable one of
the same priority that has a runnable peer behind it. So peers take turns. -/
def choose (ready current : Option TaskId) : Option TaskId :=
  match (order tasks ready).find? (TaskTable.isRunnable tasks) with
  | none => none
  | some first =>
    let peer := match current with
      | some t =>
        if TaskTable.isRunnable tasks t ∧
            TaskTable.priority tasks t = TaskTable.priority tasks first then
          peerAfter tasks t
        else none
      | none => none
    some (peer.getD first)

end Rtos.ReadyList
