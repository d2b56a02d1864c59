import Rtos.Fault
import Rtos.Message

/-!
# Tagged messages

A tagged message is a message whose payload starts with a header: an operation code and the length
of the valid data, two bytes each, low byte first. The rest of the payload is the data area. Many
streams can share one queue this way.
-/

namespace Rtos

def tagBytes : Nat := 4

structure TaggedMessage where
  message : Message

namespace TaggedMessage

/-- The number that two bytes stand for, low byte first. -/
def pair (low high : UInt8) : UInt16 :=
  low.toUInt16 ||| (high.toUInt16 <<< 8)

def bytes (n : UInt16) : List UInt8 :=
  [n.toUInt8, (n >>> 8).toUInt8]

/-- Reads a message as a tagged one. The header has to fit. -/
def ofMessage (m : Message) : Except Fault TaggedMessage :=
  if m.payload.length < tagBytes then .error .tooSmallForHeader else .ok ⟨m⟩

variable (m : TaggedMessage)

def code : UInt16 :=
  pair (m.message.payload.getD 0 0) (m.message.payload.getD 1 0)

/-- The length that the header states. It may exceed the capacity. -/
def length : UInt16 :=
  pair (m.message.payload.getD 2 0) (m.message.payload.getD 3 0)

/-- The data area, valid or not. -/
def area : List UInt8 :=
  m.message.payload.drop tagBytes

def capacity : Nat :=
  m.message.payload.length - tagBytes

def isEmpty : Bool := m.length = 0

/-- The valid data: as much of the area as the header states. -/
def data : List UInt8 :=
  m.area.take (min m.length.toNat m.capacity)

def withArea (area : List UInt8) : TaggedMessage :=
  ⟨{ m.message with payload := m.message.payload.take tagBytes ++ area }⟩

def withHeader (code length : UInt16) : TaggedMessage :=
  ⟨{ m.message with payload := bytes code ++ bytes length ++ m.area }⟩

end TaggedMessage

end Rtos
