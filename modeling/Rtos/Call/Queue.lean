import Rtos.Call.Wait
import Rtos.Listing.Kernel
import Rtos.Message.Tagged

/-!
# Calls about queues, pools and messages

Taking a message from a task queue claims a unit of its semaphore in one section and takes the
message off in a later one. The routine of a driver queue runs after the put, with the mask of the
caller.
-/

namespace Rtos.Call

open Program

variable {σ : Type}

/-- What a new queue of that kind needs: a task queue gets a semaphore of its own. -/
def createDiscipline (name : String) : QueueKind → Program σ (Except Error Discipline)
  | .task => do
    match ← createSemaphore name 0 with
    | .ok s => return .ok (.task s)
    | .error e => return .error e
  | .driver => return .ok (.driver {})

def createQueue (name : String) (kind : QueueKind) : Program σ (Except Error QueueId) := do
  if ← reading (.ok ·.queueTableIsFull) then
    note (.noQueue name)
    return .error .noMemory
  else
    match ← createDiscipline name kind with
    | .error e => return .error e
    | .ok discipline =>
      match ← critical (.addQueue name discipline) with
      | some q =>
        note (.queueCreated name kind)
        return .ok q
      | none =>
        note (.noQueue name)
        return .error .noMemory

def put (q : QueueId) (m : Message) : Program σ Unit := do
  match ← critical (.enqueue q m) with
  | none => return ()
  | some (routine, data) => request (.put routine data)

def giveBack (m : Message) : Program σ Unit := put m.home m

/-- Takes the first message of a queue. On a task queue this waits up to `ticks` ticks for one; a
driver queue is polled. -/
def receive (q : QueueId) (ticks : Int32) : Program σ (Option Message) := do
  match ← reading (·.queueSemaphore q) with
  | none => critical (.pollDriver q)
  | some s =>
    match ← wait s ticks with
    | .timeout => return none
    | .ok =>
      match ← critical (.dequeue q) with
      | some m => return some m
      | none => fault .taskQueueCount

def putTagged (q : QueueId) (m : TaggedMessage) (code length : UInt16) : Program σ Unit := do
  if length.toNat ≤ m.capacity then put q (m.withHeader code length).message
  else fault (.tooLongForSlot length.toNat)

def receiveTagged (q : QueueId) (ticks : Int32) : Program σ (Option TaggedMessage) := do
  match ← receive q ticks with
  | none => return none
  | some m => return some (← ofExcept (TaggedMessage.ofMessage m))

def giveBackTagged (m : TaggedMessage) : Program σ Unit := giveBack m.message

def roundUp (size : Nat) : Nat :=
  (size + (Limits.slotAlignment - 1)) / Limits.slotAlignment * Limits.slotAlignment

def blankStorage (shape : PoolShape) : Payload := List.replicate (shape.count * shape.size) 0

/-- The messages that a new pool starts with. Each of its slots gets a piece of the storage. -/
def freshMessages (q : QueueId) (first : MessageId) (shape : PoolShape) (storage : Payload) :
    List Message :=
  ((Payload.pieces shape.size shape.count storage).zipIdx first.index).map
    fun (payload, i) => { id := ⟨i⟩, home := q, payload }

def fillPool (name : String) (q : QueueId) (shape : PoolShape) (storage : Payload) :
    Program σ (Except Error QueueId) := do
  match ← critical (.addPool q shape) with
  | none =>
    note (.noSlots name)
    return .error .noMemory
  | some first =>
    (freshMessages q first shape storage).forM (put q)
    note (.poolCreated name shape.count shape.size)
    return .ok q

/-- Whether there is memory for the storage of a pool of that shape. A total that no word can hold
is refused without a note. -/
def reserveStorage (name : String) (shape : PoolShape) : Program σ Bool := do
  let total := shape.count * shape.size
  if Limits.wordBound ≤ total then return false
  else if ← request (.reserve total) then return true
  else
    note (.noStorage name)
    return false

/-- Makes a queue that holds `count` messages of `size` bytes, rounded up, whose buffers are cut from
a storage with that content. The rounded size has to be a word. -/
def createPoolWith (content : PoolShape → Payload) (name : String) (kind : QueueKind)
    (count size : Nat) : Program σ (Except Error QueueId) := do
  let shape : PoolShape := { count, size := roundUp size }
  if Limits.wordBound ≤ shape.size then fault .addOverflow
  else if ← reading (.ok <| ·.slotsFit shape.count) then
    if ← reserveStorage name shape then
      match ← createQueue name kind with
      | .error e => return .error e
      | .ok q => fillPool name q shape (content shape)
    else return .error .noMemory
  else
    note (.noSlots name)
    return .error .noMemory

def createPool (name : String) (kind : QueueKind) (count size : Nat) :
    Program σ (Except Error QueueId) := createPoolWith blankStorage name kind count size

/-- Makes a pool whose slots hold `size` bytes behind the header of a tagged message. -/
def createTaggedPool (name : String) (kind : QueueKind) (count size : Nat) :
    Program σ (Except Error QueueId) :=
  if Limits.wordBound ≤ size + tagBytes then fault .addOverflow
  else createPool name kind count (size + tagBytes)

def setRoutines (q : QueueId) (put : Option PutRoutine) (control : Option ControlRoutine)
    (data : UInt64) : Program σ (Except Error Unit) :=
  critical (.setRoutines q put control data)

def control (q : QueueId) (control : UInt32) (arg : UInt64) : Program σ (Except Error Int32) := do
  match ← reading (·.controlRoutine q) with
  | .error e => return .error e
  | .ok (routine, data) => return .ok (← request (.control routine data control arg))

def lookUp (name : String) : Program σ (Option QueueId) := reading (.ok <| ·.lookUp name)

def queue (q : QueueId) : Program σ Queue := reading (·.queue q)

def queueMessages (q : QueueId) : Program σ (List MessageRow) :=
  reading fun k => do k.queueMessages (← k.queue q)

def poolMessages (pool : QueueId) : Program σ (List MessageRow) := reading (·.poolMessages pool)

def count (q : QueueId) : Program σ UInt32 := reading fun k => return k.queueCount (← k.queue q)

end Rtos.Call
