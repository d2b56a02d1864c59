import Rtos.Proofs.System
import Rtos.Routine.Program

/-!
# The code of the pipeline, spot by spot

A spot is a place in the code of a task of the pipeline, with what the task knows there. At each spot
the code makes one call, works on the totals or sends a note, and goes on at another spot. The spots
are a finite account of `Rtos.Pipeline`: `Spot.opened_code` says that what the code there has left to
do is this deed and then the code of the spot that follows.
-/

namespace Rtos

open Program

/-- The request of a kernel call, made for an application with a state of its own. -/
def Request.lift {σ : Type} : {β : Type} → Request Unit β → Request σ β
  | _, mask => mask
  | _, unmask saved => unmask saved
  | _, barrier => barrier
  | _, idle => idle
  | _, act a => act a
  | _, pend => pend
  | _, reserve bytes => reserve bytes
  | _, frame entry arg bytes => frame entry arg bytes
  | _, startFirst sp => startFirst sp
  | _, put r data => put r data
  | _, control r data request arg => control r data request arg
  | _, note n => note n
  | _, fault f => fault f
  | _, perform => perform
  | _, advance n => advance n
  | _, arm n => arm n
  | _, own f => own fun s => ((f ()).1, s)

namespace Program

variable {σ α β τ : Type}

def lift : {α : Type} → Program Unit α → Program σ α
  | _, done a => done a
  | _, ask r next => ask r.lift fun b => (next b).lift
  | _, loop body t next => loop (fun t => (body t).lift) t fun b => (next b).lift

/-- The program with its first loop, if it begins with one, unrolled once. -/
def opened : Program σ α → Program σ α
  | loop body t next => unroll body t next
  | p => p

theorem lift_bind (p : Program Unit α) (f : α → Program Unit β) :
    (p.bind f).lift = (p.lift (σ := σ)).bind fun a => (f a).lift := by
  induction p with
  | done a => rfl
  | ask r next ih => exact congrArg (ask r.lift) (funext fun b => ih b f)
  | loop body t next _ ih => exact congrArg (loop _ t) (funext fun b => ih b f)

theorem lift_bind_eq {p : Program Unit α} {p' : Program σ α} {f : α → Program Unit β}
    {f' : α → Program σ β} (hp : p.lift = p') (hf : ∀ a, (f a).lift = f' a) :
    (p.bind f).lift = p'.bind f' := by
  rw [lift_bind, hp]
  exact congrArg _ (funext hf)

theorem lift_leave {saved : Bool} {result : Except Fault α} :
    (leave saved result).lift = leave (σ := σ) saved result := by
  cases result <;> rfl

theorem lift_critical {a : Action α} : (critical a).lift = critical (σ := σ) a :=
  congrArg (ask .mask) <| funext fun _ => congrArg (ask (.act a)) <| funext fun _ => lift_leave

theorem lift_settle {saved : Bool} {v : Except Fault Verdict} {resume : TaskId → Action Verdict} :
    (Call.settle saved v resume).lift = Call.settle (σ := σ) saved v resume := by
  refine lift_bind_eq (congrArg (loop · (saved, v) done) (funext fun (saved, v) => ?_)) fun (saved, status) =>
    lift_leave
  cases v with
  | error f => rfl
  | ok v => cases v <;> rfl

theorem lift_wait {s : SemId} {ticks : Int32} :
    (Call.wait s ticks).lift = Call.wait (σ := σ) s ticks :=
  congrArg (ask .mask) <| funext fun _ => congrArg (ask (.act _)) <| funext fun _ => lift_settle

theorem lift_lock {m : MutexId} {ticks : Int32} :
    (Call.lock m ticks).lift = Call.lock (σ := σ) m ticks := by
  refine congrArg (ask .mask) <| funext fun _ => congrArg (ask (.act _)) <| funext fun result => ?_
  cases result with
  | error f => rfl
  | ok x => exact lift_settle

theorem lift_lockUntilClaimed {m : MutexId} :
    (Call.lockUntilClaimed m).lift = Call.lockUntilClaimed (σ := σ) m := by
  refine lift_bind_eq lift_lock fun status => ?_
  cases status <;> rfl

theorem lift_put {q : QueueId} {m : Message} : (Call.put q m).lift = Call.put (σ := σ) q m := by
  refine lift_bind_eq lift_critical fun r => ?_
  cases r <;> rfl

theorem lift_putTagged {q : QueueId} {m : TaggedMessage} {code length : UInt16} :
    (Call.putTagged q m code length).lift = Call.putTagged (σ := σ) q m code length := by
  unfold Call.putTagged
  split
  · exact lift_put
  · rfl

theorem lift_receive {q : QueueId} {ticks : Int32} :
    (Call.receive q ticks).lift = Call.receive (σ := σ) q ticks := by
  refine lift_bind_eq lift_critical fun s => ?_
  cases s with
  | none => exact lift_critical
  | some s =>
    refine lift_bind_eq lift_wait fun status => ?_
    cases status with
    | timeout => rfl
    | ok =>
      refine lift_bind_eq lift_critical fun m => ?_
      cases m <;> rfl

theorem lift_receiveTagged {q : QueueId} {ticks : Int32} :
    (Call.receiveTagged q ticks).lift = Call.receiveTagged (σ := σ) q ticks := by
  refine lift_bind_eq lift_receive fun m => ?_
  cases m with
  | none => rfl
  | some m =>
    refine lift_bind_eq ?_ fun _ => rfl
    cases TaggedMessage.ofMessage m <;> rfl

end Program

/-- The parts of the pipeline: four tasks, and the routine of the transmit queue. -/
inductive Part
  | sampler
  | filter
  | monitor
  | idle
  | transmission
  deriving DecidableEq

inductive Spot
  | asks (reading : UInt32)
  /-- The sampler has filled a buffer, and puts it to work. -/
  | fills (reading : UInt32) (m : TaggedMessage)
  | pauses (reading : UInt32)
  | awaits
  | enters (m : TaggedMessage) (value : UInt32)
  | adds (m : TaggedMessage) (value : UInt32)
  | counts (m : TaggedMessage)
  | leaves (m : TaggedMessage)
  /-- The filter passes the buffer on to be transmitted. -/
  | passes (m : TaggedMessage)
  /-- The monitor waits for a second to pass. -/
  | rests
  | opens
  | takesSamples
  | takesSum (samples : UInt32)
  | closes (samples sum : UInt32)
  | looksSent (samples sum : UInt32)
  | looksSwitches (samples sum sent : UInt32)
  | tells (samples sum sent switches : UInt32)
  | resets
  | waits
  | off
  | polls
  | tallies (m : TaggedMessage)
  | returns (m : TaggedMessage)
  | ended
  /-- The sampler meets a fault as it fills a buffer. -/
  | failsToFill (reading : UInt32) (m : TaggedMessage) (f : Fault)
  /-- The filter meets a fault as it reads one. -/
  | failsToRead (m : TaggedMessage) (f : Fault)

/-- What the code does at a spot. -/
inductive Deed : Type 1
  | call {β : Type} (call : KernelCall β) (next : β → Spot)
  | own {β : Type} (f : StateM Totals β) (next : β → Spot)
  | note (n : Note) (next : Spot)
  | idle
  | fault (f : Fault)
  | ends

def Deed.IsOf (code : Spot → Program Bench Unit) (p : Program Bench Unit) : Deed → Prop
  | call c next => p = c.program.lift.bind fun b => code (next b)
  | own f next => p = (Program.own (Pipeline.onTotals f)).bind fun b => code (next b)
  | note n next => p = (Program.note n).bind fun _ => code next
  | idle => p = (request .idle).bind fun _ => code .waits
  | fault f => ∃ (β : Type) (next : β → Program Bench Unit), p = ask (.fault f) next
  | ends => p = done ()

namespace Spot

variable (p : Pipeline)

def filled (reading : UInt32) (m : TaggedMessage) : Spot :=
  match Pipeline.firstBytes m.area with
  | .error f => failsToFill reading m f
  | .ok _ => fills reading (m.withArea (Payload.overwrite m.area 0 (Pipeline.wordBytes reading)))

def read (m : TaggedMessage) : Spot :=
  match Pipeline.firstBytes m.data with
  | .error f => failsToRead m f
  | .ok bytes => enters m (Pipeline.wordOfBytes bytes >>> 24)

def deed : Spot → Deed
  | asks reading => .call (.receiveTagged p.pool 10) fun m =>
    match m with
    | none => pauses reading
    | some m => filled (Pipeline.nextReading reading) m
  | fills reading m => .call (.putTagged p.work m Pipeline.codeSample 4) fun _ => pauses reading
  | pauses reading => .call (.delay 5) fun _ => asks reading
  | awaits => .call (.receiveTagged p.work waitForever) fun m =>
    match m with
    | none => awaits
    | some m => read m
  | enters m value => .call (.lockUntilClaimed p.totals) fun _ => adds m value
  | adds m value => .own (Pipeline.addValue value) fun _ => counts m
  | counts m => .own Pipeline.countSample fun _ => leaves m
  | leaves m => .call (.unlock p.totals) fun _ => passes m
  | passes m => .call (.putTagged p.transmit m Pipeline.codeFiltered m.length) fun _ => awaits
  | rests => .call (.delay Limits.ticksPerSecond.toInt32) fun _ => opens
  | opens => .call (.lockUntilClaimed p.totals) fun _ => takesSamples
  | takesSamples => .own Pipeline.takeSamples takesSum
  | takesSum samples => .own Pipeline.takeSum (closes samples)
  | closes samples sum => .call (.unlock p.totals) fun _ => looksSent samples sum
  | looksSent samples sum => .own Pipeline.sent (looksSwitches samples sum)
  | looksSwitches samples sum sent => .call .kernel fun k => tells samples sum sent k.stats.switches
  | tells samples sum sent switches => .note (.report samples (sum / samples) sent switches) resets
  | resets => .call .resetTimes fun _ => rests
  | waits => .idle
  | off => .ends
  | polls => .call (.receiveTagged p.transmit noWait) fun m =>
    match m with
    | none => ended
    | some m => tallies m
  | tallies m => .own Pipeline.countSent fun _ => returns m
  | returns m => .call (.giveBackTagged m) fun _ => polls
  | ended => .ends
  | failsToFill _ _ f | failsToRead _ f => .fault f

def code : Spot → Program Bench Unit
  | asks reading => loop p.sampleOnce reading fun e => nomatch e
  | fills reading m => do
    Call.putTagged p.work m Pipeline.codeSample 4
    Call.delay 5
    loop p.sampleOnce reading fun e => nomatch e
  | pauses reading => do
    Call.delay 5
    loop p.sampleOnce reading fun e => nomatch e
  | awaits => p.filter
  | enters m value => do
    Call.lockUntilClaimed p.totals
    own (Pipeline.onTotals (Pipeline.addValue value))
    own (Pipeline.onTotals Pipeline.countSample)
    Call.unlock p.totals
    Call.putTagged p.transmit m Pipeline.codeFiltered m.length
    p.filter
  | adds m value => do
    own (Pipeline.onTotals (Pipeline.addValue value))
    own (Pipeline.onTotals Pipeline.countSample)
    Call.unlock p.totals
    Call.putTagged p.transmit m Pipeline.codeFiltered m.length
    p.filter
  | counts m => do
    own (Pipeline.onTotals Pipeline.countSample)
    Call.unlock p.totals
    Call.putTagged p.transmit m Pipeline.codeFiltered m.length
    p.filter
  | leaves m => do
    Call.unlock p.totals
    Call.putTagged p.transmit m Pipeline.codeFiltered m.length
    p.filter
  | passes m => do
    Call.putTagged p.transmit m Pipeline.codeFiltered m.length
    p.filter
  | rests => p.monitor
  | opens => do
    Call.lockUntilClaimed p.totals
    let samples ← own (Pipeline.onTotals Pipeline.takeSamples)
    let sum ← own (Pipeline.onTotals Pipeline.takeSum)
    Call.unlock p.totals
    Pipeline.report samples sum
    p.monitor
  | takesSamples => do
    let samples ← own (Pipeline.onTotals Pipeline.takeSamples)
    let sum ← own (Pipeline.onTotals Pipeline.takeSum)
    Call.unlock p.totals
    Pipeline.report samples sum
    p.monitor
  | takesSum samples => do
    let sum ← own (Pipeline.onTotals Pipeline.takeSum)
    Call.unlock p.totals
    Pipeline.report samples sum
    p.monitor
  | closes samples sum => do
    Call.unlock p.totals
    Pipeline.report samples sum
    p.monitor
  | looksSent samples sum => do
    Pipeline.report samples sum
    p.monitor
  | looksSwitches samples sum sent => do
    let switches := (← Call.kernel).stats.switches
    Program.note (.report samples (sum / samples) sent switches)
    Call.resetTimes
    p.monitor
  | tells samples sum sent switches => do
    Program.note (.report samples (sum / samples) sent switches)
    Call.resetTimes
    p.monitor
  | resets => do
    Call.resetTimes
    p.monitor
  | waits => forever (request .idle)
  | polls => p.transmitAll
  | tallies m => do
    own (Pipeline.onTotals Pipeline.countSent)
    Call.giveBackTagged m
    p.transmitAll
  | returns m => do
    Call.giveBackTagged m
    p.transmitAll
  | off | ended => return ()
  | failsToFill reading m f => do
    let _ : List UInt8 ← Program.fault f
    let area := Payload.overwrite m.area 0 (Pipeline.wordBytes reading)
    Call.putTagged p.work (m.withArea area) Pipeline.codeSample 4
    Call.delay 5
    loop p.sampleOnce reading fun e => nomatch e
  | failsToRead m f => do
    let bytes ← Program.fault f
    Call.lockUntilClaimed p.totals
    own (Pipeline.onTotals (Pipeline.addValue (Pipeline.wordOfBytes bytes >>> 24)))
    own (Pipeline.onTotals Pipeline.countSample)
    Call.unlock p.totals
    Call.putTagged p.transmit m Pipeline.codeFiltered m.length
    p.filter

theorem opened_putTagged {q : QueueId} {m : TaggedMessage} {code length : UInt16}
    {f : Unit → Program Bench Unit} :
    ((Call.putTagged q m code length).bind f).opened = (Call.putTagged q m code length).bind f := by
  unfold Call.putTagged
  split <;> rfl

theorem bind_call {β : Type} {call : Program Unit β} {call' : Program Bench β}
    {next next' : β → Program Bench Unit} (same : call.lift = call')
    (follows : ∀ b, next' b = next b) : call'.bind next' = call.lift.bind next := by
  rw [same]
  exact congrArg _ (funext follows)

theorem bind_eq {α β : Type} (q : Program Bench α) (f : α → Program Bench β) : q.bind f = q >>= f :=
  rfl

theorem opened_asks (reading : UInt32) :
    ((asks reading).deed p).IsOf (code p) ((asks reading).code p).opened := by
  refine (Program.bind_assoc ..).trans (bind_call lift_receiveTagged fun m => ?_)
  cases m with
  | none => simp only [bind_eq, pure_bind, LawfulMonad.bind_assoc]; rfl
  | some m =>
    dsimp only [filled]
    cases Pipeline.firstBytes m.area <;> (simp only [bind_eq, pure_bind, LawfulMonad.bind_assoc]; rfl)

theorem opened_awaits : (awaits.deed p).IsOf (code p) (awaits.code p).opened := by
  refine (Program.bind_assoc ..).trans ((Program.bind_assoc ..).trans
    (bind_call lift_receiveTagged fun m => ?_))
  cases m with
  | none => rfl
  | some m =>
    dsimp only [read]
    cases Pipeline.firstBytes m.data <;> (simp only [bind_eq, LawfulMonad.bind_assoc]; rfl)

theorem opened_rests : (rests.deed p).IsOf (code p) (rests.code p).opened := by
  refine (Program.bind_assoc ..).trans ((Program.bind_assoc ..).trans
    (bind_call lift_critical fun _ => ?_))
  simp only [bind_eq, LawfulMonad.bind_assoc]; rfl

theorem opened_polls : (polls.deed p).IsOf (code p) (polls.code p).opened := by
  refine (Program.bind_assoc ..).trans (bind_call lift_receiveTagged fun m => ?_)
  cases m with
  | none => rfl
  | some m =>
    simp only [bind_eq, pure_bind, LawfulMonad.bind_assoc]; rfl

/-- What the code has left to do at a spot is the deed, and then what is left at the next one. -/
theorem opened_code (x : Spot) : (x.deed p).IsOf (code p) (x.code p).opened := by
  cases x with
  | asks reading => exact opened_asks p reading
  | fills reading m => exact opened_putTagged.trans (bind_call lift_putTagged fun _ => rfl)
  | pauses reading => exact bind_call lift_critical fun _ => rfl
  | awaits => exact opened_awaits p
  | enters m value => exact bind_call lift_lockUntilClaimed fun _ => rfl
  | adds m value => rfl
  | counts m => rfl
  | leaves m => exact bind_call lift_critical fun _ => rfl
  | passes m => exact opened_putTagged.trans (bind_call lift_putTagged fun _ => rfl)
  | rests => exact opened_rests p
  | opens => exact bind_call lift_lockUntilClaimed fun _ => rfl
  | takesSamples => rfl
  | takesSum samples => rfl
  | closes samples sum => exact bind_call lift_critical fun _ => rfl
  | looksSent samples sum =>
    dsimp only [code, Pipeline.report]
    simp only [LawfulMonad.bind_assoc]; rfl
  | looksSwitches samples sum sent => exact bind_call lift_critical fun _ => rfl
  | tells samples sum sent switches => rfl
  | resets => exact bind_call lift_critical fun _ => rfl
  | waits => rfl
  | off => rfl
  | polls => exact opened_polls p
  | tallies m => rfl
  | returns m => exact bind_call lift_put fun _ => rfl
  | ended => rfl
  | failsToFill reading m f => exact ⟨_, _, rfl⟩
  | failsToRead m f => exact ⟨_, _, rfl⟩

end Spot

end Rtos
