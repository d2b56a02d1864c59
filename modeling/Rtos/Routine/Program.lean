import Rtos.Operation.Program
import Rtos.Pipeline

/-!
# What the referenced code does

The programs of task entries and of the routines of driver queues.
-/

namespace Rtos

open Program

def performAll : Program Bench Unit :=
  repeatWith (fun _ => do
    if ← request .perform then return .inr () else return .inl ()) ()

/-- The life of a task: its entry, and its exit if the entry returns. -/
def Entry.program {α : Type} : Entry → Program Bench α
  | .worker => do
    performAll
    Call.exit
  | .idle => forever (request .idle)
  | .sampler p => p.sampler
  | .filter p => p.filter
  | .monitor p => p.monitor

namespace PutRoutine

/-- Whether running the routine is an event that shows. -/
def isShown : PutRoutine → Bool
  | transmit _ => false
  | _ => true

def program (data : UInt64) : PutRoutine → Program Bench Unit
  | log => return ()
  | drain =>
    repeatWith (fun _ => do
      match ← Call.receive ⟨data.toNat⟩ noWait with
      | none => return .inr ()
      | some m =>
        Call.giveBack m
        return .inl ()) ()
  | post => Call.post ⟨data.toNat⟩
  | move => do
    match ← Call.receive ⟨data.toNat / 256⟩ noWait with
    | none => return ()
    | some m => Call.put ⟨data.toNat % 256⟩ m
  | transmit p => p.transmitAll

end PutRoutine

namespace ControlRoutine

def program (data : UInt64) (control : UInt32) (arg : UInt64) :
    ControlRoutine → Program Bench Int32
  | sum => return (data + control.toUInt64 + arg).toUInt32.toInt32
  | count => return (← Call.count ⟨arg.toNat⟩).toInt32

end ControlRoutine

end Rtos
