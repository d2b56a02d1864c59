import Rtos.Call.Queue
import Rtos.Listing.Kernel
import Rtos.Operation

/-!
# What the operations do

Each operation is a program of kernel calls that ends in its answer. An operation that needs a
message and finds its hand empty calls nothing.
-/

namespace Rtos

namespace Bench

open Program

def release (h : Nat) (f : Held → Program Bench Answer) : Program Bench Answer := do
  match (← own get).held h with
  | none => return .emptyHand
  | some m =>
    own (modify (empty h))
    f m

def take (h : Nat) (m : Held) : Program Bench Answer := do
  own (modify (hold h m))
  return .message (some m)

def takeReceived (h : Nat) : Option Held → Program Bench Answer
  | some m => take h m
  | none => return .message none

def takeMask : Program Bench (Option Bool) := do
  match (← own get).popMask with
  | none => return none
  | some (saved, b) =>
    own (set b)
    return some saved

end Bench

namespace Operation

open Program Bench

def donorPoolNotes (first count length : Nat) : List Note :=
  .queueCreated "f" .driver :: (List.range count).map (fun i => .messagePut "f" ⟨first + i⟩) ++
    [.poolCreated "f" count length]

/-- What another kernel notes when its tables are laid out so that slot `id` belongs to queue `home`
and the message of that slot is taken. The slots before it belong to the first queue. -/
def donorNotes (id : MessageId) (home : QueueId) (length : Nat) : List Note :=
  if home.index = 0 then
    donorPoolNotes 0 (id.index + 1) length ++
      (List.range (id.index + 1)).map fun i => .messageGet "f" (some ⟨i⟩)
  else
    donorPoolNotes 0 id.index length ++
      List.replicate (home.index - 1) (.queueCreated "f" .driver) ++
      donorPoolNotes id.index 1 length ++ [.messageGet "f" (some id)]

def created {α : Type} (index : α → Nat) : Except Error α → Answer
  | .ok a => .created (.ok (index a))
  | .error e => .created (.error e)

def program : Operation → Program Bench Answer
  | createTask name priority stack arg =>
    return created TaskId.index (← Call.createTask .worker arg name priority stack)
  | start => return created TaskId.index (← Call.start)
  | delay ticks => do
    Call.delay ticks
    return .nothing
  | wake t => do
    Call.wake t
    return .nothing
  | exit => Call.exit
  | leave => return .nothing
  | current => return .task (← Call.kernel).current
  | localWord n => return .word (← Call.localWord n)
  | setLocalWord n value => do
    Call.setLocalWord n value
    return .nothing
  | task t => do
    let name := (← Call.task t).name
    let priority := (← Call.task t).priority
    let state := (← Call.task t).state
    let status := (← Call.task t).status
    return .taskState name priority state status
  | taskLines => return .lines ((← Call.kernel).taskRows.map TaskRow.line)
  | order => return .tasks (← Call.kernel).readyOrder
  | resetTimes => do
    Call.resetTimes
    return .nothing
  | tick n => do
    times n Call.tick
    return .nothing
  | tickCount => return .number (← Call.kernel).ticks
  | schedule => do
    Call.schedule
    return .nothing
  | stats => return .stats (← Call.kernel).stats
  | switch sp => return .word (← Call.switch sp)
  | advance microseconds => do
    request (.advance microseconds)
    return .nothing
  | arm after => do
    request (.arm after)
    return .nothing
  | mask => do
    let saved ← Program.mask
    own (modify (pushMask saved))
    return .nothing
  | restoreMask => do
    match ← takeMask with
    | none => return .flag false
    | some saved =>
      unmask saved
      return .flag true
  | window => do
    match ← takeMask with
    | none => return .flag false
    | some saved =>
      let saved ← Program.window saved
      own (modify (pushMask saved))
      return .flag true
  | createSemaphore name count => return created SemId.index (← Call.createSemaphore name count)
  | post s => do
    Call.post s
    return .nothing
  | wait s (some ticks) => return .status (← Call.wait s ticks)
  | wait s none => do
    Call.waitUntilClaimed s
    return .nothing
  | semaphore s => do
    let name := (← Call.semaphore s).name
    let count := (← Call.semaphore s).count
    return .semaphoreState name count
  | semaphoreRows => return .semaphoreRows (← Call.kernel).semaphoreRows
  | createMutex name => return created MutexId.index (← Call.createMutex name)
  | lock m (some ticks) => return .status (← Call.lock m ticks)
  | lock m none => do
    Call.lockUntilClaimed m
    return .nothing
  | unlock m => do
    Call.unlock m
    return .nothing
  | owner m => return .task (← Call.mutex m).owner
  | mutexRows => return .mutexRows (← Call.kernel).mutexRows
  | createQueue name kind => return created QueueId.index (← Call.createQueue name kind)
  | createPool name kind count size false =>
    return created QueueId.index (← Call.createPool name kind count.toNat size.toNat)
  | createPool name kind count size true =>
    return created QueueId.index (← Call.createTaggedPool name kind count.toNat size.toNat)
  | setRoutines q p c data => return .accepted (← Call.setRoutines q p c data)
  | control q c arg => return .controlled (← Call.control q c arg)
  | lookUp name => return .queue (← Call.lookUp name)
  | queue q => do
    let name := (← Call.queue q).name
    let kind := (← Call.queue q).kind
    let count ← Call.count q
    return .queueState name kind count
  | queueLines => return .lines ((← Call.kernel).queueRows.map QueueRow.line)
  | queueMessages q => return .messageRows (← Call.queueMessages q)
  | poolMessages q => return .messageRows (← Call.poolMessages q)
  | receive q hand ticks false => do
    takeReceived hand ((← Call.receive q ticks).map .plain)
  | receive q hand ticks true => do
    takeReceived hand ((← Call.receiveTagged q ticks).map .tagged)
  | put q hand => release hand fun m => do
    Call.put q m.message
    return .nothing
  | giveBack hand => release hand fun m => do
    Call.giveBack m.message
    return .nothing
  | putTagged q hand code length => release hand fun m => do
    Call.putTagged q (← ofExcept m.toTagged) code length
    return .nothing
  | toTagged hand => release hand fun m => do
    take hand (.tagged (← ofExcept m.toTagged))
  | toPlain hand => release hand fun m => take hand (.plain m.message)
  | inspect hand => do
    match (← own get).held hand with
    | none => return .emptyHand
    | some m => return .contents m
  | write hand offset bytes => do
    match (← own get).held hand with
    | none => return .emptyHand
    | some m =>
      if offset + bytes.length ≤ m.area.length then
        own (modify (hold hand (m.withArea (Payload.overwrite m.area offset bytes))))
        return .nothing
      else return .outOfRange
  | drop hand => do
    let before ← own get
    own (modify (empty hand))
    return .flag (before.held hand).isSome
  | forge id home length hand => do
    let length := Call.roundUp length
    (donorNotes id home length).forM note
    take hand (.plain { id, home, payload := List.replicate length 0 })

end Operation

end Rtos
