import Rtos.Call.Queue
import Rtos.Call.Task
import Rtos.Proofs.WaitStep

/-!
# The kernel in use

Every task has a thread, which makes kernel calls one after the other while the task is the current
one. Interrupt handlers make calls at any moment, and the port takes switches. A call under way is
what is left of its program in `Rtos.Call`; between two of its requests anything else may happen.

Masks are not kept track of, and a switch need not be due to be taken. A masked section is one
action of a program, so nothing comes into it, and all else that a mask does is to rule steps out:
what holds of all these runs holds of those that the mask allows. A fault ends a run.
-/

namespace Rtos

/-- The calls that the kernel offers, with what each of them returns. -/
inductive KernelCall : Type → Type
  | createTask (entry : Entry) (arg : UInt64) (name : String) (priority : UInt8) (stack : Stack) :
      KernelCall (Except Error TaskId)
  | start : KernelCall (Except Error TaskId)
  | delay (ticks : Int32) : KernelCall Unit
  | wake (t : TaskId) : KernelCall Unit
  | exit : KernelCall Empty
  | tick : KernelCall Unit
  | schedule : KernelCall Unit
  | setLocalWord (n : Nat) (value : UInt64) : KernelCall Unit
  | resetTimes : KernelCall Unit
  /-- A copy of the kernel, from which the listings are made. -/
  | kernel : KernelCall Kernel
  | task (t : TaskId) : KernelCall Task
  | localWord (n : Nat) : KernelCall UInt64
  | semaphore (s : SemId) : KernelCall Semaphore
  | mutex (m : MutexId) : KernelCall Mutex
  | lookUp (name : String) : KernelCall (Option QueueId)
  | queue (q : QueueId) : KernelCall Queue
  | queueMessages (q : QueueId) : KernelCall (List MessageRow)
  | poolMessages (q : QueueId) : KernelCall (List MessageRow)
  | count (q : QueueId) : KernelCall UInt32
  | createSemaphore (name : String) (count : UInt32) : KernelCall (Except Error SemId)
  | post (s : SemId) : KernelCall Unit
  | wait (s : SemId) (ticks : Int32) : KernelCall Status
  | waitUntilClaimed (s : SemId) : KernelCall Unit
  | createMutex (name : String) : KernelCall (Except Error MutexId)
  | lock (m : MutexId) (ticks : Int32) : KernelCall Status
  | lockUntilClaimed (m : MutexId) : KernelCall Unit
  | unlock (m : MutexId) : KernelCall Unit
  | createQueue (name : String) (kind : QueueKind) : KernelCall (Except Error QueueId)
  | createPool (name : String) (kind : QueueKind) (count size : Nat) :
      KernelCall (Except Error QueueId)
  | createTaggedPool (name : String) (kind : QueueKind) (count size : Nat) :
      KernelCall (Except Error QueueId)
  | put (q : QueueId) (m : Message) : KernelCall Unit
  | giveBack (m : Message) : KernelCall Unit
  | receive (q : QueueId) (ticks : Int32) : KernelCall (Option Message)
  | putTagged (q : QueueId) (m : TaggedMessage) (code length : UInt16) : KernelCall Unit
  | giveBackTagged (m : TaggedMessage) : KernelCall Unit
  | receiveTagged (q : QueueId) (ticks : Int32) : KernelCall (Option TaggedMessage)
  | setRoutines (q : QueueId) (put : Option PutRoutine) (control : Option ControlRoutine)
      (data : UInt64) : KernelCall (Except Error Unit)
  | control (q : QueueId) (control : UInt32) (arg : UInt64) : KernelCall (Except Error Int32)

namespace KernelCall

variable {α : Type}

def program : {α : Type} → KernelCall α → Program Unit α
  | _, createTask entry arg name priority stack => Call.createTask entry arg name priority stack
  | _, start => Call.start
  | _, delay ticks => Call.delay ticks
  | _, wake t => Call.wake t
  | _, exit => Call.exit
  | _, tick => Call.tick
  | _, schedule => Call.schedule
  | _, setLocalWord n value => Call.setLocalWord n value
  | _, resetTimes => Call.resetTimes
  | _, kernel => Call.kernel
  | _, task t => Call.task t
  | _, localWord n => Call.localWord n
  | _, semaphore s => Call.semaphore s
  | _, mutex m => Call.mutex m
  | _, lookUp name => Call.lookUp name
  | _, queue q => Call.queue q
  | _, queueMessages q => Call.queueMessages q
  | _, poolMessages q => Call.poolMessages q
  | _, count q => Call.count q
  | _, createSemaphore name n => Call.createSemaphore name n
  | _, post s => Call.post s
  | _, wait s ticks => Call.wait s ticks
  | _, waitUntilClaimed s => Call.waitUntilClaimed s
  | _, createMutex name => Call.createMutex name
  | _, lock m ticks => Call.lock m ticks
  | _, lockUntilClaimed m => Call.lockUntilClaimed m
  | _, unlock m => Call.unlock m
  | _, createQueue name kind => Call.createQueue name kind
  | _, createPool name kind n size => Call.createPool name kind n size
  | _, createTaggedPool name kind n size => Call.createTaggedPool name kind n size
  | _, put q m => Call.put q m
  | _, giveBack m => Call.giveBack m
  | _, receive q ticks => Call.receive q ticks
  | _, putTagged q m code length => Call.putTagged q m code length
  | _, giveBackTagged m => Call.giveBackTagged m
  | _, receiveTagged q ticks => Call.receiveTagged q ticks
  | _, setRoutines q p c data => Call.setRoutines q p c data
  | _, control q c arg => Call.control q c arg

/-- Whether the call may give up the processor. A handler must not make such a call. -/
def maySuspend (k : Kernel) : KernelCall α → Prop
  | start | exit | waitUntilClaimed _ | lockUntilClaimed _ => True
  | delay ticks | wait _ ticks | lock _ ticks => ticks ≠ 0
  | receive q ticks | receiveTagged q ticks => ticks ≠ 0 ∧ k.queueSemaphore q ≠ .ok none
  | _ => False

def takes : KernelCall α → List Message
  | put _ m | giveBack m => [m]
  | putTagged _ m _ _ | giveBackTagged m => [m.message]
  | _ => []

def gives : {α : Type} → KernelCall α → α → List Message
  | _, receive _ _, m => m.toList
  | _, receiveTagged _ _, m => (m.map TaggedMessage.message).toList
  | _, _, _ => []

def isStart : KernelCall α → Bool
  | start => true
  | _ => false

end KernelCall

def Action.puts {β : Type} : Action β → Option (QueueId × Message)
  | enqueue q m => some (q, m)
  | _ => none

/-- A masked section that was carried out, with its result. -/
structure Outcome where
  {β : Type}
  action : Action β
  result : β

namespace Outcome

def tried (o : Outcome) : Option (Waitable × Verdict) := o.action.tried o.result

def put (o : Outcome) : Option (QueueId × Message) := o.action.puts

def taken : Outcome → Option (QueueId × Message)
  | ⟨.dequeue q, some m⟩ | ⟨.pollDriver q, some m⟩ => some (q, m)
  | _ => none

def made : Outcome → List Message
  | ⟨.addPool q shape, some first⟩ => Call.freshMessages q first shape (Call.blankStorage shape)
  | _ => []

end Outcome

inductive Caller
  | handler
  /-- The thread of a task, or the one that boots, which has no task. -/
  | thread (t : Option TaskId)
  deriving DecidableEq

/-- Where a call stands: its last section, and the messages that it holds. -/
structure Phase where
  last : Option Outcome := none
  cargo : List Message := []

namespace Phase

/-- The object that the call is blocked on, with the task that sleeps or slept on it. -/
def blocked (ph : Phase) : Option (Waitable × TaskId) :=
  match ph.last.bind Outcome.tried with
  | some (w, .asleep t) => some (w, t)
  | _ => none

def gone (ph : Phase) : Prop := ∃ o, ph.last = some o ∧ o.action.exits

def after (o : Outcome) (ph : Phase) : Phase where
  last := some o
  cargo := match o.put with
    | some (_, m) => ph.cargo.eraseP (·.id = m.id)
    | none => o.made ++ (o.taken.map Prod.snd).toList ++ ph.cargo

end Phase

structure OpenCall where
  caller : Caller
  {α : Type}
  call : KernelCall α
  /-- What is left of the program of the call. -/
  rest : Program Unit α
  phase : Phase := {}

def Program.isAtRoutine {σ α : Type} : Program σ α → Bool
  | .ask (.put _ _) _ | .ask (.control _ _ _ _) _ => true
  | _ => false

/-- A heap, by what it may answer when it is asked for a block of so many bytes. Below the bound it
may grant or refuse as it likes, and differently the next time. -/
structure Heap where
  answers (bytes : Nat) (granted : Bool) : Prop
  total (bytes : Nat) : ∃ granted, answers bytes granted
  bounded {bytes : Nat} (granted : answers bytes true) : bytes < Limits.blockBound

namespace Heap

def any : Heap where
  answers bytes granted := granted = true → bytes < Limits.blockBound
  total _ := ⟨false, fun granted => absurd granted Bool.false_ne_true⟩
  bounded granted := granted rfl

theorem answers_any {heap : Heap} {bytes : Nat} {granted : Bool} (h : heap.answers bytes granted) :
    any.answers bytes granted := by
  rintro rfl
  exact heap.bounded h

def upTo (limit : Nat) (bound : limit < Limits.blockBound) : Heap where
  answers bytes granted := granted = decide (bytes ≤ limit)
  total _ := ⟨_, rfl⟩
  bounded granted := Nat.lt_of_le_of_lt (of_decide_eq_true granted.symm) bound

/-- Whether a block of that size is never refused. -/
def Grants (heap : Heap) (bytes : Nat) : Prop := ¬ heap.answers bytes false

end Heap

/-- What the port and the routines may answer to a request that is no section. -/
inductive Reply : {β : Type} → Request Unit β → Core → β → Core → Prop
  | mask (c : Core) (before : Bool) : Reply .mask c before c
  | unmask (c : Core) (saved : Bool) : Reply (.unmask saved) c () c
  | barrier (c : Core) : Reply .barrier c () c
  | idle (c : Core) : Reply .idle c () c
  | pend (c : Core) : Reply .pend c () c.requestSwitch
  | reserve (c : Core) (heap : Heap) (bytes : Nat) (granted : Bool)
      (answer : heap.answers bytes granted) : Reply (.reserve bytes) c granted c
  | frame (c : Core) (entry : Entry) (arg : UInt64) (bytes : Nat) (sp : StackPointer) :
      Reply (.frame entry arg bytes) c sp c
  | startFirst (c : Core) (sp : StackPointer) : Reply (.startFirst sp) c () c
  | put (c : Core) (r : PutRoutine) (data : UInt64) : Reply (.put r data) c () c
  | control (c : Core) (r : ControlRoutine) (data : UInt64) (control : UInt32) (arg : UInt64)
      (answer : Int32) : Reply (.control r data control arg) c answer c
  | note (c : Core) (n : Note) : Reply (.note n) c () c

/-- A section that was carried out, with the kernel before it. `call` is none when the port took a
switch. -/
structure Record where
  kernel : Kernel
  caller : Caller
  call : Option (Sigma KernelCall)
  outcome : Outcome

structure System where
  core : Core := {}
  /-- The calls under way, the latest first. -/
  calls : List OpenCall := []
  /-- Messages that tasks and handlers hold between their calls. -/
  held : List Message := []
  /-- Slots of messages that were dropped. -/
  lost : List MessageId := []
  /-- Sections carried out so far, the latest first. -/
  log : List Record := []

namespace System

/-- A thread makes a call while its task is current and all its calls under way wait for a routine,
which then makes it. -/
def MayBegin {α : Type} (s : System) (who : Caller) (call : KernelCall α) : Prop :=
  match who with
  | .handler => ¬ call.maySuspend s.core.kernel
  | .thread t => s.core.kernel.current = t ∧
      ∀ o ∈ s.calls, o.caller = .thread t → o.rest.isAtRoutine

end System

/-- Whether the thread of the caller runs. The call that starts the scheduler makes another task
current and goes on nevertheless. -/
def Caller.Runs {α : Type} (who : Caller) (call : KernelCall α) (k : Kernel) : Prop :=
  match who with
  | .handler => True
  | .thread t => k.current = t ∨ call.isStart

/-- A call goes on while its thread runs, unless the thread has made another call since. `later`
are the calls made since. -/
def OpenCall.MayGoOn (o : OpenCall) (later : List OpenCall) (k : Kernel) : Prop :=
  o.caller.Runs o.call k ∧ (o.caller ≠ .handler → ∀ o' ∈ later, o'.caller ≠ o.caller)

/-- Somebody makes a call, or a call goes on by one request. Besides, the port takes a switch, whoever
holds a message writes to it or drops it, and time passes. -/
inductive System.Step : System → System → Prop
  | begin {α : Type} (s : System) (who : Caller) (call : KernelCall α) (held : List Message)
      (may : s.MayBegin who call) (holds : s.held.Perm (call.takes ++ held)) :
      System.Step s { s with
        calls := ⟨who, call, call.program, { cargo := call.takes }⟩ :: s.calls, held }
  | reply {α β : Type} (c c' : Core) (later earlier : List OpenCall) (held : List Message)
      (lost : List MessageId) (log : List Record) (who : Caller) (call : KernelCall α)
      (r : Request Unit β) (next : β → Program Unit α) (ph : Phase) (b : β)
      (may : OpenCall.MayGoOn ⟨who, call, .ask r next, ph⟩ later c.kernel)
      (answer : Reply r c b c') :
      System.Step ⟨c, later ++ ⟨who, call, .ask r next, ph⟩ :: earlier, held, lost, log⟩
        ⟨c', later ++ ⟨who, call, next b, ph⟩ :: earlier, held, lost, log⟩
  | act {α β : Type} (c c' : Core) (later earlier : List OpenCall) (held : List Message)
      (lost : List MessageId) (log : List Record) (who : Caller) (call : KernelCall α)
      (a : Action β) (next : Except Fault β → Program Unit α) (ph : Phase) (b : β)
      (may : OpenCall.MayGoOn ⟨who, call, .ask (.act a) next, ph⟩ later c.kernel)
      (result : a.toSection c = .ok b c') :
      System.Step ⟨c, later ++ ⟨who, call, .ask (.act a) next, ph⟩ :: earlier, held, lost, log⟩
        ⟨c', later ++ ⟨who, call, next (.ok b), ph.after ⟨a, b⟩⟩ :: earlier, held, lost,
          ⟨c.kernel, who, some ⟨α, call⟩, ⟨a, b⟩⟩ :: log⟩
  | unroll {α β τ : Type} (c : Core) (later earlier : List OpenCall) (held : List Message)
      (lost : List MessageId) (log : List Record) (who : Caller) (call : KernelCall α)
      (body : τ → Program Unit (τ ⊕ β)) (t : τ) (next : β → Program Unit α) (ph : Phase) :
      System.Step ⟨c, later ++ ⟨who, call, .loop body t next, ph⟩ :: earlier, held, lost, log⟩
        ⟨c, later ++ ⟨who, call, Program.unroll body t next, ph⟩ :: earlier, held, lost, log⟩
  | finish {α : Type} (c : Core) (later earlier : List OpenCall) (held : List Message)
      (lost : List MessageId) (log : List Record) (who : Caller) (call : KernelCall α)
      (a : α) (ph : Phase) :
      System.Step ⟨c, later ++ ⟨who, call, .done a, ph⟩ :: earlier, held, lost, log⟩
        ⟨c, later ++ earlier, call.gives a ++ held, lost, log⟩
  | switch (s : System) (c : Core) (sp resumed : StackPointer)
      (result : Section.switch sp s.core = .ok resumed c) :
      System.Step s { s with
        core := c
        log := ⟨s.core.kernel, .handler, none, ⟨.switch sp, resumed⟩⟩ :: s.log }
  | write (s : System) (before behind : List Message) (m : Message) (payload : Payload)
      (holds : s.held = before ++ m :: behind) (fits : payload.length = m.payload.length) :
      System.Step s { s with held := before ++ { m with payload } :: behind }
  | drop (s : System) (before behind : List Message) (m : Message)
      (holds : s.held = before ++ m :: behind) :
      System.Step s { s with held := before ++ behind, lost := m.id :: s.lost }
  | elapse (s : System) (clock : Clock) : System.Step s { s with core := { s.core with clock } }

/-- What a run comes to, from a fresh kernel. -/
inductive Reachable : System → Prop
  | boot (clock : Clock) : Reachable { core := { clock } }
  | step {s s' : System} : Reachable s → System.Step s s' → Reachable s'

/-- The call `o`, which is under way, is about to meet a fault. -/
def System.FaultsIn (s : System) (o : OpenCall) (f : Fault) : Prop :=
  ∃ later earlier, s.calls = later ++ o :: earlier ∧ o.MayGoOn later s.core.kernel ∧
    ((∃ (β : Type) (next : β → Program Unit o.α), o.rest = .ask (.fault f) next) ∨
      ∃ (β : Type) (a : Action β) (next : Except Fault β → Program Unit o.α) (c : Core),
        o.rest = .ask (.act a) next ∧ a.toSection s.core = .error f c)

def System.Faults (s : System) (f : Fault) : Prop := ∃ o, s.FaultsIn o f

end Rtos
