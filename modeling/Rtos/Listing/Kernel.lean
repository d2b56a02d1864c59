import Rtos.Listing

/-!
# Listing the tables

What the kernel's tables hold, row by row. Stacks are shown at one conventional address, as the
place of a stack says nothing about the kernel.
-/

namespace Rtos

/-- The address that stands for the base of every stack. -/
def shownStack : UInt64 := 0x20000000

namespace Kernel

variable (k : Kernel)

def waiterNames (w : WaitList) : List String :=
  ((w.toList k.tasks).take Limits.listedWaiters).map (TaskTable.name k.tasks)

def taskRows : List TaskRow :=
  k.tasks.map fun t =>
    { name := t.name, stack := shownStack, stackBytes := t.stackBytes, priority := t.priority,
      state := t.state, time := t.time }

def semaphoreRows : List SemaphoreRow :=
  k.semaphores.map fun s =>
    { name := s.name, count := s.count, waiters := k.waiterNames s.waiters }

def mutexRows : List MutexRow :=
  k.mutexes.map fun m =>
    { name := m.name, depth := m.depth, owner := m.owner.map (TaskTable.name k.tasks),
      waiters := k.waiterNames m.waiters }

def queueRows : List QueueRow :=
  k.queues.map fun q =>
    { name := q.name, kind := q.kind, count := k.queueCount q, pool := q.pool }

/-- The row of a slot. A put on a queue that does not exist leaves its slot without one. -/
def messageRow (id : MessageId) (s : Slot) : Except Fault MessageRow := do
  let home ← k.queue s.home
  let holder ← s.queue.mapM k.queue
  return { id, next := s.next, home := home.name, queue := holder.map Queue.name,
           length := (home.pool.map PoolShape.size).getD 0 }

def queueMessages (q : Queue) : Except Fault (List MessageRow) :=
  ((q.toList k.slots).take Limits.listedMessages).mapM fun id => do k.messageRow id (← k.slot id)

/-- The slots whose home is `pool`, wherever their messages are. -/
def poolMessages (pool : QueueId) : Except Fault (List MessageRow) :=
  ((k.slots.zipIdx.filter fun (s, _) => s.home = pool).take Limits.listedMessages).mapM
    fun (s, i) => k.messageRow ⟨i⟩ s

end Kernel

end Rtos
