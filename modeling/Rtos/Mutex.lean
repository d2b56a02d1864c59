import Rtos.WaitList

/-!
# Mutexes

A mutex has an owner, who may lock it again, and the tasks that wait for it. The last unlock hands
it to nobody: the first waiter is woken and claims it when it runs, if it is then free.
-/

namespace Rtos

structure MutexId where
  index : Nat
  deriving DecidableEq

structure Mutex where
  name : String
  /-- Locks of the owner that have not been undone. -/
  depth : UInt32 := 0
  owner : Option TaskId := none
  waiters : WaitList := {}

end Rtos
