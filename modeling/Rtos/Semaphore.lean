import Rtos.WaitList

/-!
# Semaphores

A semaphore is a count of units and the tasks that wait for one. A task woken from the list owns
nothing yet: it claims a unit when it runs again, if there is one then.
-/

namespace Rtos

structure SemId where
  index : Nat
  deriving DecidableEq

structure Semaphore where
  name : String
  count : UInt32
  waiters : WaitList := {}

end Rtos
