import Rtos.Proofs.Journal
import Rtos.Proofs.Script
import Rtos.Proofs.Spots

/-!
# The pipeline at work

The four tasks of the pipeline run under the kernel, from the moment at which the code that boots has
started the scheduler. Every part is at a spot of its code or in the call that it makes there. A part
goes on while its task is the current one; ticks come in at any moment, and so do switches. The
routine of the transmit queue runs on the thread of the filter, whose call waits for it.

As in a `System`, masks only rule out some of these runs, and a masked section is one step.
-/

namespace Rtos

def Part.task : Part → TaskId
  | sampler => Pipeline.samplerTask
  | filter | transmission => Pipeline.filterTask
  | monitor => Pipeline.monitorTask
  | idle => Pipeline.idleTask

def Spot.part : Spot → Part
  | asks _ | fills .. | pauses _ | failsToFill .. => .sampler
  | awaits | enters .. | adds .. | counts _ | leaves _ | passes _ | failsToRead .. => .filter
  | rests | opens | takesSamples | takesSum _ | closes .. | looksSent .. | looksSwitches .. | tells ..
  | resets => .monitor
  | waits => .idle
  | off | polls | tallies _ | returns _ | ended => .transmission

/-- The buffers that the part has in its hands. -/
def Spot.hand : Spot → List Message
  | fills _ m | enters m _ | adds m _ | counts m | leaves m | passes m | tallies m | returns m
  | failsToFill _ m _ | failsToRead m _ => [m.message]
  | _ => []

/-- The buffers that the part keeps in its hands while the call that it makes is under way. -/
def Spot.keeps : Spot → List Message
  | enters m _ | leaves m => [m.message]
  | _ => []

/-- What a part does: it stands at a spot, or is in the call that it makes there. -/
inductive Job : Type 1
  | stands (x : Spot)
  | calls (x : Spot) {β : Type} (call : KernelCall β) (next : β → Spot) (rest : Program Unit β)
      (phase : Phase)

namespace Job

def spot : Job → Spot
  | stands x | calls x .. => x

def hand : Job → List Message
  | stands x => x.hand
  | calls x _ _ _ ph => x.keeps ++ ph.cargo

end Job

structure Plant where
  core : Core
  jobs : Part → Job
  totals : Totals := {}
  journal : Journal := {}
  /-- Sections carried out so far, the latest first. -/
  log : List Record

namespace Plant

variable (p : Plant)

def IsUp (part : Part) : Prop := p.core.kernel.current = some part.task

def setJob (part : Part) (job : Job) : Plant := { p with jobs := Function.update p.jobs part job }

end Plant

def Script.boots {α : Type} (call : KernelCall α) (n : Nat) : List Move :=
  .begins (.thread none) call :: goesOn n

def Script.plant : List Move :=
  boots (.createTaggedPool "pool" .task 8 16) 80 ++ boots (.createQueue "work" .task) 20 ++
    boots (.createQueue "tx" .driver) 20 ++ boots (.createMutex "stats") 10 ++
    boots (.setRoutines ⟨2⟩ (some (.transmit .objects)) none 0) 10 ++
    boots (.createTask (.sampler .objects) 0 "sampler" 2 (.heap Limits.taskStackBytes)) 20 ++
    boots (.createTask (.filter .objects) 0 "filter" 3 (.heap Limits.taskStackBytes)) 20 ++
    boots (.createTask (.monitor .objects) 0 "monitor" 1 (.heap Limits.taskStackBytes)) 20 ++
    boots .start 30

namespace Plant

/-- The plant when the scheduler has been started. -/
def started (clock : Clock) : Plant where
  core := { (System.run Script.plant).core with clock }
  jobs
    | .sampler => .stands (.asks 0)
    | .filter => .stands .awaits
    | .monitor => .stands .rests
    | .idle => .stands .waits
    | .transmission => .stands .off
  log := (System.run Script.plant).log

open Pipeline

inductive Step (p : Plant) : Plant → Prop
  | begins (part : Part) (x : Spot) {β : Type} (call : KernelCall β) (next : β → Spot)
      (up : p.IsUp part) (here : p.jobs part = .stands x) (does : x.deed objects = .call call next) :
      Step p (p.setJob part (.calls x call next call.program { cargo := call.takes }))
  | replies (part : Part) (x : Spot) {β γ : Type} (call : KernelCall β) (next : β → Spot)
      (r : Request Unit γ) (rest : γ → Program Unit β) (ph : Phase) (b : γ) (c : Core)
      (up : p.IsUp part) (here : p.jobs part = .calls x call next (.ask r rest) ph)
      (plain : (Program.ask r rest).isAtRoutine = false) (answer : Reply r p.core b c) :
      Step p { p.setJob part (.calls x call next (rest b) ph) with core := c }
  | acts (part : Part) (x : Spot) {β γ : Type} (call : KernelCall β) (next : β → Spot)
      (a : Action γ) (rest : Except Fault γ → Program Unit β) (ph : Phase) (b : γ) (c : Core)
      (up : p.IsUp part) (here : p.jobs part = .calls x call next (.ask (.act a) rest) ph)
      (result : a.toSection p.core = .ok b c) :
      Step p { p.setJob part (.calls x call next (rest (.ok b)) (ph.after ⟨a, b⟩)) with
        core := c
        journal := p.journal.acts part.task ⟨a, b⟩
        log := ⟨p.core.kernel, .thread (some part.task), some ⟨β, call⟩, ⟨a, b⟩⟩ :: p.log }
  | unrolls (part : Part) (x : Spot) {β γ τ : Type} (call : KernelCall β) (next : β → Spot)
      (body : τ → Program Unit (τ ⊕ γ)) (t : τ) (rest : γ → Program Unit β) (ph : Phase)
      (up : p.IsUp part) (here : p.jobs part = .calls x call next (.loop body t rest) ph) :
      Step p (p.setJob part (.calls x call next (Program.unroll body t rest) ph))
  | finishes (part : Part) (x : Spot) {β : Type} (call : KernelCall β) (next : β → Spot) (b : β)
      (ph : Phase) (up : p.IsUp part) (here : p.jobs part = .calls x call next (.done b) ph) :
      Step p (p.setJob part (.stands (next b)))
  | owns (part : Part) (x : Spot) {β : Type} (f : StateM Totals β) (next : β → Spot)
      (up : p.IsUp part) (here : p.jobs part = .stands x) (does : x.deed objects = .own f next) :
      Step p { p.setJob part (.stands (next (f.run p.totals).1)) with
        totals := (f.run p.totals).2
        journal := p.journal.owns part.task p.totals (f.run p.totals).2 }
  | notes (part : Part) (x : Spot) (n : Note) (next : Spot) (up : p.IsUp part)
      (here : p.jobs part = .stands x) (does : x.deed objects = .note n next) :
      Step p { p.setJob part (.stands next) with journal := p.journal.notes n }
  /-- The call of the filter runs the routine of the transmit queue. -/
  | kicks (x : Spot) {β : Type} (call : KernelCall β) (next : β → Spot) (data : UInt64)
      (rest : Unit → Program Unit β) (ph : Phase) (up : p.IsUp .filter)
      (here : p.jobs .filter = .calls x call next (.ask (.put (.transmit objects) data) rest) ph)
      (off : p.jobs .transmission = .stands .off) :
      Step p (p.setJob .transmission (.stands .polls))
  /-- The routine is over, and the call of the filter goes on. -/
  | hangsUp (x : Spot) {β : Type} (call : KernelCall β) (next : β → Spot) (data : UInt64)
      (rest : Unit → Program Unit β) (ph : Phase) (up : p.IsUp .filter)
      (here : p.jobs .filter = .calls x call next (.ask (.put (.transmit objects) data) rest) ph)
      (ended : p.jobs .transmission = .stands .ended) :
      Step p ((p.setJob .transmission (.stands .off)).setJob .filter
        (.calls x call next (rest ()) ph))
  | ticks (u : Unit) (c : Core) (result : Section.tick p.core = .ok u c) :
      Step p { p with
        core := c
        log := ⟨p.core.kernel, .handler, some ⟨Unit, .tick⟩, ⟨.tick, u⟩⟩ :: p.log }
  | switches (sp resumed : StackPointer) (c : Core) (result : Section.switch sp p.core = .ok resumed c) :
      Step p { p with
        core := c
        log := ⟨p.core.kernel, .handler, none, ⟨.switch sp, resumed⟩⟩ :: p.log }
  | elapses (clock : Clock) : Step p { p with core := { p.core with clock } }

inductive Runs : Plant → Prop
  | starts (clock : Clock) : Runs (started clock)
  | step {p p' : Plant} (before : Runs p) (step : Step p p') : Runs p'

/-- A part is about to meet a fault, or a tick or a switch would. -/
inductive Faults (p : Plant) (f : Fault) : Prop
  | fails (part : Part) (x : Spot) (up : p.IsUp part) (here : p.jobs part = .stands x)
      (does : x.deed objects = .fault f)
  | raises (part : Part) (x : Spot) {β γ : Type} (call : KernelCall β) (next : β → Spot)
      (rest : γ → Program Unit β) (ph : Phase) (up : p.IsUp part)
      (here : p.jobs part = .calls x call next (.ask (.fault f) rest) ph)
  | meets (part : Part) (x : Spot) {β γ : Type} (call : KernelCall β) (next : β → Spot)
      (a : Action γ) (rest : Except Fault γ → Program Unit β) (ph : Phase) (c : Core)
      (up : p.IsUp part) (here : p.jobs part = .calls x call next (.ask (.act a) rest) ph)
      (result : a.toSection p.core = .error f c)
  | ticks (c : Core) (result : Section.tick p.core = .error f c)
  | switches (sp : StackPointer) (c : Core) (result : Section.switch sp p.core = .error f c)

end Plant

end Rtos
