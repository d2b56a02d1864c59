/-!
# Stacks

A stack is a region of memory that one task keeps for good. It comes from the heap or from whoever
creates the task.
-/

namespace Rtos

structure StackRegion where
  base : UInt64
  size : UInt64

/-- One past the highest address; addresses wrap around. -/
def StackRegion.top (r : StackRegion) : UInt64 := r.base + r.size

inductive Stack
  | heap (bytes : Nat)
  | fixed (bytes : Nat)

namespace Stack

def bytes : Stack → Nat
  | heap n | fixed n => n

end Stack

end Rtos
