/-!
# Messages and their slots

A message is a buffer that moves between queues without being copied. Its slot is the record that
stays behind: while the message is queued the slot keeps the payload and names the queue, and while
somebody holds the message the slot is empty. The pool that made a slot is its home for ever.
-/

namespace Rtos

structure QueueId where
  index : Nat
  deriving DecidableEq

structure MessageId where
  index : Nat
  deriving DecidableEq

abbrev Payload := List UInt8

/-- A message in somebody's hands. -/
structure Message where
  id : MessageId
  home : QueueId
  payload : Payload
  deriving DecidableEq

structure Slot where
  home : QueueId
  next : Option MessageId := none
  queue : Option QueueId := none
  /-- The payload of a queued message. -/
  payload : Option Payload := none

namespace SlotTable

def next (slots : List Slot) (id : MessageId) : Option MessageId :=
  slots[id.index]?.bind Slot.next

end SlotTable

namespace Payload

def overwrite (payload : Payload) (offset : Nat) (bytes : List UInt8) : Payload :=
  payload.take offset ++ bytes ++ payload.drop (offset + bytes.length)

/-- The first `count` pieces of `size` bytes that a block of storage is cut into. -/
def pieces (size : Nat) : Nat → Payload → List Payload
  | 0, _ => []
  | count + 1, storage => storage.take size :: pieces size count (storage.drop size)

theorem length_pieces {size count : Nat} {storage : Payload} :
    (pieces size count storage).length = count := by
  induction count generalizing storage with
  | zero => rfl
  | succ count ih => rw [pieces, List.length_cons, ih]

end Payload

end Rtos
