import Rtos.Routine.Program
import Rtos.Trace

/-!
# The machine

One processor with an interrupt mask, a clock and a context for each task. The machine answers the
requests of the program that runs, one at a time. On a preemptive machine a switch that is due is
taken as soon as interrupts are unmasked; on a manual one only the script takes switches, and all
its operations run in one context.

An operation runs on top of the program that asked for it, as an interrupt handler does, and that
program goes on when the operation completes.
-/

namespace Rtos

inductive Mode
  | manual
  | preemptive
  deriving DecidableEq

inductive Role
  | thread
  | operation (i : Nat)
  | interrupt (i : Nat)

namespace Role

def operation? : Role → Option Nat
  | thread => none
  | operation i | interrupt i => some i

end Role

structure Activity where
  role : Role
  program : Program Bench Answer

structure Context where
  isStarted : Bool
  /-- What runs in the context; each activity waits for the one before it. -/
  activities : List Activity

structure Machine where
  mode : Mode
  verbosity : Verbosity
  script : List Operation
  core : Core
  bench : Bench := {}
  isMasked : Bool := false
  /-- Unmaskings to let pass before the armed interrupt comes in. -/
  armed : Option Nat := none
  inInterrupt : Bool := false
  /-- The context of each frame, behind the one that booted. -/
  contexts : List Context
  running : Nat := 0
  /-- The largest block that the heap grants. -/
  largestBlock : Nat := 0x7fffffffffff
  frames : Nat := 0
  begun : Nat := 0
  /-- Operations that have begun and not ended, in ascending order. -/
  unfinished : List Nat := []
  events : Array Event := #[]
  steps : Array Step := #[]
  ending : Option Ending := none

namespace Machine

variable (m : Machine)

def emit (e : Event) : Machine := { m with events := m.events.push e }

def updateActivities (f : List Activity → List Activity) : Machine :=
  { m with contexts := m.contexts.modify m.running fun c =>
      { c with activities := f c.activities } }

def goOn (p : Program Bench Answer) : Machine :=
  m.updateActivities fun
    | [] => []
    | a :: rest => { a with program := p } :: rest

/-- Ends the step that is going on. Events before the first operation belong to its step. -/
def closeStep (state : Option Snapshot) : Machine :=
  if m.begun = 0 then m
  else { m with steps := m.steps.push ⟨m.events, state⟩, events := #[] }

def snapshot : Snapshot := .ofCore m.core m.isMasked

def finish (e : Ending) : Machine :=
  { m.closeStep (if e = .fault then none else some m.snapshot) with ending := some e }

def fail (role : Role) (f : Fault) : Machine :=
  let m := m.emit (.failed role.operation? f)
  let unfinished := m.unfinished.filter fun i => some i ≠ role.operation?
  { m with unfinished }.finish .fault

def begin (role : Nat → Role) : Machine :=
  match m.script[m.begun]? with
  | none => m.finish .finished
  | some op =>
    let i := m.begun
    let m := m.closeStep (some m.snapshot)
    let m := { m with begun := i + 1, unfinished := m.unfinished ++ [i] }
    m.updateActivities (⟨role i, op.program⟩ :: ·)

def takeCore (core : Core) : Machine :=
  let keep (events : Array Event) (n : Note) : Array Event :=
    if m.verbosity.keeps n.level then events.push (.note n) else events
  { m with core := { core with notes := #[] }, events := core.notes.foldl keep m.events }

def resume (n : Nat) : Machine :=
  let isNew := m.contexts[n]?.any (!·.isStarted)
  let contexts := m.contexts.modify n ({ · with isStarted := true })
  let m := { m with running := n, contexts }
  if isNew then m.emit (.started n) else m

/-- Takes the pending switch, if nothing stands against it. `sp` is the stack pointer of the
context that is left. -/
def deliver (sp : StackPointer) : Machine :=
  if m.mode = .preemptive ∧ m.core.pending ∧ ¬ m.isMasked ∧ ¬ m.inInterrupt then
    match Section.switch sp { m.core with pending := false } with
    | .ok resumed core =>
      let m := m.takeCore core
      if resumed.toNat = m.running then m else m.resume resumed.toNat
    | .error f core => (m.takeCore core).fail .thread f
  else m

def deliverRunning : Machine := m.deliver (UInt64.ofNat m.running)

/-- Goes back to an earlier mask. Unmasking lets the armed interrupt in when its time has come, and
then a pending switch is taken. -/
def unmask (saved : Bool) : Machine :=
  let m := { m with isMasked := saved }
  if saved ∨ m.inInterrupt then m
  else match m.armed with
    | none => m.deliverRunning
    | some (n + 1) => { m with armed := some n }.deliverRunning
    | some 0 =>
      let m := { m with armed := none, inInterrupt := true }
      (m.emit (.interrupt m.begun)).begin .interrupt

def currentIsRunnable : Bool :=
  m.core.kernel.current.any (TaskTable.isRunnable m.core.kernel.tasks)

def frameAddress (n : Nat) : StackPointer :=
  match m.mode with
  | .manual => UInt64.ofNat (n * 0x1000)
  | .preemptive => UInt64.ofNat n

def addFrame (entry : Entry) : StackPointer × Machine :=
  let n := m.frames + 1
  let context : Context := ⟨false, [⟨.thread, entry.program⟩]⟩
  (m.frameAddress n, { m with frames := n, contexts := m.contexts ++ [context] })

def answer (role : Role) {β : Type} :
    Request Bench β → (β → Program Bench Answer) → Machine
  | .mask, next => { m with isMasked := true }.goOn (next m.isMasked)
  | .unmask saved, next => (m.goOn (next ())).unmask saved
  | .barrier, next =>
    if m.mode = .preemptive ∧ m.currentIsRunnable then m.goOn (next ())
    else (m.goOn (next ())).begin .operation
  | .idle, next => (m.goOn (next ())).begin .operation
  | .perform, next =>
    let leaves := match m.script[m.begun]? with
      | some .leave => true
      | _ => false
    (m.goOn (next leaves)).begin .operation
  | .act a, next =>
    match a.toSection m.core with
    | .ok b core => (m.takeCore core).goOn (next (.ok b))
    | .error f core => (m.takeCore core).goOn (next (.error f))
  | .pend, next =>
    ({ m with core := m.core.requestSwitch }.goOn (next ())).deliverRunning
  | .reserve bytes, next => m.goOn (next (bytes ≤ m.largestBlock))
  | .frame entry arg stackBytes, next =>
    let (sp, m) := m.addFrame entry
    (m.emit (.frame sp arg stackBytes)).goOn (next sp)
  | .startFirst sp, next =>
    let m := (m.emit (.first sp m.isMasked)).goOn (next ())
    { m with isMasked := false }.deliver sp
  | .put r data, next =>
    let m := if r.isShown then m.emit (.put data m.isMasked) else m
    m.goOn ((r.program data).bind next)
  | .control r data control arg, next =>
    (m.emit (.control data control arg m.isMasked)).goOn ((r.program data control arg).bind next)
  | .note n, next => (if m.verbosity.keeps n.level then m.emit (.note n) else m).goOn (next ())
  | .fault f, _ => m.fail role f
  | .advance microseconds, next =>
    let clock := { m.core.clock with now := m.core.clock.now + microseconds }
    { m with core := { m.core with clock } }.goOn (next ())
  | .arm after, next => { m with armed := some after }.goOn (next ())
  | .own f, next =>
    let (b, bench) := f.run m.bench
    { m with bench }.goOn (next b)

def completeOperation (i : Nat) (a : Answer) : Machine :=
  { m.emit (.completed i a) with unfinished := m.unfinished.erase i }

/-- Ends the running activity with its answer. A pending switch may follow an interrupt. -/
def complete (role : Role) (a : Answer) : Machine :=
  let m := m.updateActivities List.tail
  match role with
  | .thread => m.finish .stuck
  | .operation i => m.completeOperation i a
  | .interrupt i => { m.completeOperation i a with inInterrupt := false }.deliverRunning

def step : Machine :=
  match (m.contexts[m.running]?).bind (·.activities.head?) with
  | none => m.finish .stuck
  | some { role, program } =>
    match program with
    | .done a => m.complete role a
    | .ask r next => m.answer role r next
    | .loop body t next => m.goOn (Program.unroll body t next)

def run : Nat → Machine → Machine
  | 0, m => m.finish .stuck
  | fuel + 1, m => if m.ending.isSome then m else run fuel m.step

def initial (mode : Mode) (verbosity : Verbosity) (clock : Clock) (boot : Program Bench Answer)
    (script : List Operation) : Machine :=
  { mode, verbosity, script, core := { clock }, contexts := [⟨true, [⟨.thread, boot⟩]⟩] }

end Machine

end Rtos
