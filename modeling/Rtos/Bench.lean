import Rtos.Message.Tagged

/-!
# The application's own state

Operations of a script keep the messages that they took in numbered hands, and the masks that they
set aside on a stack. The sampling pipeline keeps its totals.
-/

namespace Rtos

inductive Held
  | plain (m : Message)
  | tagged (m : TaggedMessage)

namespace Held

def message : Held → Message
  | plain m => m
  | tagged m => m.message

def toTagged : Held → Except Fault TaggedMessage
  | plain m => TaggedMessage.ofMessage m
  | tagged m => .ok m

/-- The bytes that a holder may write to. -/
def area : Held → List UInt8
  | plain m => m.payload
  | tagged m => m.area

def withArea (area : List UInt8) : Held → Held
  | plain m => plain { m with payload := area }
  | tagged m => tagged (m.withArea area)

end Held

/-- What the pipeline has counted since the last report, and sent since the start. -/
structure Totals where
  sum : UInt32 := 0
  samples : UInt32 := 0
  sent : UInt32 := 0

structure Bench where
  /-- Each hand that holds a message. -/
  hands : List (Nat × Held) := []
  /-- Masks to go back to, the latest first. -/
  masks : List Bool := []
  totals : Totals := {}

namespace Bench

def held (h : Nat) (b : Bench) : Option Held := b.hands.lookup h

/-- Puts a message into hand `h`. What the hand held before is lost. -/
def hold (h : Nat) (m : Held) (b : Bench) : Bench :=
  { b with hands := (h, m) :: b.hands.filter (·.1 ≠ h) }

def empty (h : Nat) (b : Bench) : Bench :=
  { b with hands := b.hands.filter (·.1 ≠ h) }

def pushMask (saved : Bool) (b : Bench) : Bench := { b with masks := saved :: b.masks }

def popMask (b : Bench) : Option (Bool × Bench) :=
  match b.masks with
  | [] => none
  | saved :: masks => some (saved, { b with masks })

end Bench

end Rtos
