import Rtos.Action
import Rtos.Limits

/-!
# Taking turns

One decision after another, each with the switch that it asks for: by themselves, or at ticks. Two
tasks of one priority under a clock that stands still take turns in this way, and no time passes for
either.
-/

namespace Rtos

namespace Section

/-- One decision after another, each followed by a switch; who has the processor after each of
them. -/
def turns : List StackPointer → Section (List TaskId)
  | [] => return []
  | sp :: sps => do
    schedule
    let _ ← switch sp
    let t ← currentTask
    return t :: (← turns sps)

/-- One tick after another, each followed by a switch. -/
def rounds : List StackPointer → Section Unit
  | [] => return ()
  | sp :: sps => do
    tick
    let _ ← switch sp
    rounds sps

end Section

namespace Turns

open Section

def addPeer (name : String) : Section (Option TaskId) := adding (·.addTask name 1 0 16)

def addIdle : Section Unit := do
  match ← adding (·.addTask "idle" 0 0 Limits.idleStackBytes) with
  | some id => discard (startWith id)
  | none => return ()

def setUp (started : Bool) : Core :=
  let adds : Section Unit := do
    discard (addPeer "a")
    discard (addPeer "b")
    if started then addIdle
  match adds { clock := { step := 0 } } with
  | .ok _ c | .error _ c => c

def kernelAfter (n : Nat) (started : Bool) : Kernel :=
  match rounds (List.replicate n 0) (setUp started) with
  | .ok _ c | .error _ c => c.kernel

end Turns

end Rtos
