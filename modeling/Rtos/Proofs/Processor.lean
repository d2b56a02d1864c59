import Rtos.Proofs.Script

/-!
# The kernel on a processor

A `System` does without the interrupt mask. On a processor there is one, and one context runs at a
time: the handler of the interrupt that came in last, or else the thread of the current task. A
context is left and gone back to with interrupts unmasked only, and no thread goes on unmasked while
a switch is due. The switch itself is a service that the port makes use of in an exception.

The application masks interrupts with guards. They nest with its calls: a routine drops the guards that
it took before it returns.
-/

namespace Rtos

inductive Strand
  /-- The thread of a task, or the code that boots, which has no task. -/
  | thread (t : Option TaskId)
  /-- The handler of an interrupt that came in while `level` others were being handled. -/
  | handler (level : Nat)
  deriving DecidableEq

def Strand.caller : Strand → Caller
  | thread t => .thread t
  | handler _ => .handler

inductive Service : Type → Type 1
  | call {α : Type} (call : KernelCall α) : Service α
  /-- Hands the processor on, away from the context that was saved at `sp`. -/
  | switch (sp : StackPointer) : Service StackPointer

namespace Service

def program : {α : Type} → Service α → Program Unit α
  | _, call c => c.program
  | _, switch sp => Call.switch sp

def kernelCall {α : Type} : Service α → Option (Sigma KernelCall)
  | call c => some ⟨α, c⟩
  | switch _ => none

def gives : {α : Type} → Service α → α → List Message
  | _, call c => c.gives
  | _, switch _ => fun _ => []

def isStart {α : Type} : Service α → Bool
  | call c => c.isStart
  | switch _ => false

end Service

def Request.masks {β : Type} : Request Unit β → Bool
  | mask | unmask _ | startFirst _ => true
  | _ => false

/-- Where a service is: outside of its masked sections, in one that has not looked at the kernel yet, or
in one that has done what it is for. -/
inductive Sector
  | outside
  | fresh
  | spent

def Sector.isMasked : Sector → Bool
  | outside => false
  | _ => true

structure Serving where
  {α : Type}
  service : Service α
  /-- What is left of the program of the service. -/
  rest : Program Unit α
  phase : Phase := {}
  /-- Whether interrupts were masked when it began. -/
  entry : Bool
  sector : Sector := .outside

inductive Work
  /-- Interrupts are masked, and dropping the guard goes back to the mask `saved`. -/
  | guard (saved : Bool)
  | serves (x : Serving)

/-- Whether the application runs on top of the work: a guard leaves that to it, and so does a service
that called a routine. -/
def Work.isOpen : Work → Bool
  | guard _ => true
  | serves x => x.rest.isAtRoutine

structure Frame where
  strand : Strand
  work : Work

/-- How far the start of the scheduler has come. -/
inductive Stage
  | booting
  /-- The code that boots has made `idle` the current task, and goes on in its place until it enters
  the first frame. -/
  | launching (idle : TaskId)
  | up (idle : TaskId)
  deriving DecidableEq

namespace Stage

def idle : Stage → Option TaskId
  | booting => none
  | launching t | up t => some t

def isUp : Stage → Bool
  | up _ => true
  | _ => false

/-- The thread that has the processor while `current` is the current task. -/
def thread (current : Option TaskId) : Stage → Option TaskId
  | launching idle => if current = some idle then none else current
  | _ => current

def after {β : Type} (a : Action β) (stage : Stage) : Stage :=
  match a with
  | .startWith idle => launching idle
  | _ => stage

end Stage

structure Processor where
  core : Core := {}
  /-- What all contexts have begun and not ended, the latest first. -/
  frames : List Frame := []
  held : List Message := []
  lost : List MessageId := []
  log : List Record := []
  masked : Bool := false
  level : Nat := 0
  /-- Requests for a switch that the exception has answered. -/
  served : Nat := 0
  stage : Stage := .booting
  /-- The context that met a fault. It leaves its masked section, and nothing else runs any more. -/
  failed : Option Strand := none

/-- What strand `c` has begun and not ended, the latest first. -/
def stackOf (c : Strand) (frames : List Frame) : List Work :=
  (frames.filter (·.strand = c)).map Frame.work

namespace Processor

variable (p : Processor)

def running : Strand :=
  match p.failed with
  | some c => c
  | none =>
    match p.level with
    | l + 1 => .handler l
    | 0 => .thread (p.stage.thread p.core.kernel.current)

def latest : Option Work := (stackOf p.running p.frames).head?

/-- A switch was requested since the exception came in last. -/
def Due : Prop := p.served < p.core.requests

/-- A thread does not go on unmasked while a switch is due. -/
def MayRun : Prop := p.failed.isSome ∨ 0 < p.level ∨ p.masked ∨ ¬ p.Due

/-- The running context is at `w`, and has made the frames `later` since: none. -/
structure At (later : List Frame) (w : Work) (earlier : List Frame) : Prop where
  frames : p.frames = later ++ ⟨p.running, w⟩ :: earlier
  latest : ∀ f ∈ later, f.strand ≠ p.running

end Processor

/-- What a request does to the mask, and to the sector of the service, along with its answer. -/
inductive Masking : {β : Type} → Request Unit β → Bool → Sector → β → Bool → Sector → Prop
  | mask (masked : Bool) (sector : Sector) : Masking .mask masked sector masked true .fresh
  | unmask (masked : Bool) (sector : Sector) (saved : Bool) :
      Masking (.unmask saved) masked sector () saved .outside
  | same {β : Type} (r : Request Unit β) (masked : Bool) (sector : Sector) (b : β)
      (plain : r.masks = false) : Masking r masked sector b masked sector

namespace Processor

/-- The strand that runs begins something, goes on with the latest that it has begun, or ends it. With
interrupts unmasked, a handler or the exception that takes a switch may come in. -/
inductive Step : Processor → Processor → Prop
  | begin {α : Type} (p : Processor) (call : KernelCall α) (held : List Message) (may : p.MayRun)
      (opens : ∀ w, p.latest = some w → w.isOpen)
      (boots : call.isStart → p.running = .thread none)
      (holds : p.held.Perm (call.takes ++ held)) :
      Step p { p with
        frames := ⟨p.running, .serves ⟨.call call, call.program, { cargo := call.takes }, p.masked,
          .outside⟩⟩ :: p.frames
        held }
  | answer {α β : Type} (p : Processor) (later earlier : List Frame) (s : Service α)
      (r : Request Unit β) (next : β → Program Unit α) (ph : Phase)
      (entry masked' : Bool) (sector sector' : Sector) (b : β) (c : Core)
      (here : p.At later (.serves ⟨s, .ask r next, ph, entry, sector⟩) earlier) (may : p.MayRun)
      (answer : Reply r p.core b c) (masking : Masking r p.masked sector b masked' sector') :
      Step p { p with
        core := c
        masked := masked'
        frames := later ++ ⟨p.running, .serves ⟨s, next b, ph, entry, sector'⟩⟩ :: earlier }
  | act {α β : Type} (p : Processor) (later earlier : List Frame) (s : Service α) (a : Action β)
      (next : Except Fault β → Program Unit α) (ph : Phase) (entry : Bool) (sector : Sector) (b : β) (c : Core)
      (here : p.At later (.serves ⟨s, .ask (.act a) next, ph, entry, sector⟩) earlier)
      (may : p.MayRun) (result : a.toSection p.core = .ok b c) :
      Step p { p with
        core := c
        stage := p.stage.after a
        frames := later ++
          ⟨p.running, .serves ⟨s, next (.ok b), ph.after ⟨a, b⟩, entry, .spent⟩⟩ :: earlier
        log := ⟨p.core.kernel, p.running.caller, s.kernelCall, ⟨a, b⟩⟩ :: p.log }
  | fail {α β : Type} (p : Processor) (later earlier : List Frame) (s : Service α) (a : Action β)
      (next : Except Fault β → Program Unit α) (ph : Phase) (entry : Bool) (sector : Sector) (f : Fault)
      (c : Core) (here : p.At later (.serves ⟨s, .ask (.act a) next, ph, entry, sector⟩) earlier)
      (may : p.MayRun) (result : a.toSection p.core = .error f c) :
      Step p { p with
        core := c
        frames := later ++ ⟨p.running, .serves ⟨s, next (.error f), ph, entry, .spent⟩⟩ :: earlier
        failed := some p.running }
  | unroll {α β τ : Type} (p : Processor) (later earlier : List Frame) (s : Service α)
      (body : τ → Program Unit (τ ⊕ β)) (t : τ) (next : β → Program Unit α) (ph : Phase)
      (entry : Bool) (sector : Sector)
      (here : p.At later (.serves ⟨s, .loop body t next, ph, entry, sector⟩) earlier)
      (may : p.MayRun) :
      Step p { p with
        frames := later ++
          ⟨p.running, .serves ⟨s, Program.unroll body t next, ph, entry, sector⟩⟩ :: earlier }
  | finish {α : Type} (p : Processor) (later earlier : List Frame) (s : Service α) (a : α)
      (ph : Phase) (entry : Bool) (sector : Sector)
      (here : p.At later (.serves ⟨s, .done a, ph, entry, sector⟩) earlier) (may : p.MayRun) :
      Step p { p with frames := later ++ earlier, held := s.gives a ++ p.held }
  /-- The code that boots enters the first frame, and does not come back. -/
  | launch {α : Type} (p : Processor) (later earlier : List Frame) (s : Service α)
      (sp : StackPointer) (next : Unit → Program Unit α) (ph : Phase) (entry : Bool) (sector : Sector)
      (idle : TaskId) (sane : p.failed = none) (stage : p.stage = .launching idle)
      (boots : p.running = .thread none)
      (here : p.At later (.serves ⟨s, .ask (.startFirst sp) next, ph, entry, sector⟩) earlier)
      (may : p.MayRun) :
      Step p { p with
        masked := false
        stage := .up idle
        frames := later ++ ⟨p.running, .serves ⟨s, next (), ph, entry, sector⟩⟩ :: earlier }
  | guard (p : Processor) (may : p.MayRun) (opens : ∀ w, p.latest = some w → w.isOpen) :
      Step p { p with frames := ⟨p.running, .guard p.masked⟩ :: p.frames, masked := true }
  | unguard (p : Processor) (later earlier : List Frame) (saved : Bool)
      (here : p.At later (.guard saved) earlier) (may : p.MayRun) :
      Step p { p with frames := later ++ earlier, masked := saved }
  | interrupt (p : Processor) (sane : p.failed = none) (unmasked : p.masked = false) :
      Step p { p with level := p.level + 1 }
  /-- The exception that takes a switch comes in, which no interrupt waits for. -/
  | exception (p : Processor) (sp : StackPointer) (sane : p.failed = none)
      (unmasked : p.masked = false) (threads : p.level = 0) (due : p.Due) :
      Step p { p with
        level := 1
        served := p.core.requests
        frames := ⟨.handler 0, .serves ⟨.switch sp, Call.switch sp, {}, p.masked, .outside⟩⟩ ::
          p.frames }
  | back (p : Processor) (level : Nat) (sane : p.failed = none) (handles : p.level = level + 1)
      (bare : stackOf (.handler level) p.frames = []) : Step p { p with level }
  | write (p : Processor) (before behind : List Message) (m : Message) (payload : Payload)
      (holds : p.held = before ++ m :: behind) (fits : payload.length = m.payload.length) :
      Step p { p with held := before ++ { m with payload } :: behind }
  | drop (p : Processor) (before behind : List Message) (m : Message)
      (holds : p.held = before ++ m :: behind) :
      Step p { p with held := before ++ behind, lost := m.id :: p.lost }
  | elapse (p : Processor) (clock : Clock) : Step p { p with core := { p.core with clock } }

inductive Runs : Processor → Prop
  | boot (clock : Clock) : Runs { core := { clock } }
  | step {p p' : Processor} : Runs p → Step p p' → Runs p'

end Processor

/-- The application keeps to the rules as it begins `f`: a handler makes no call that may give up the
processor, a call that may do so begins with interrupts unmasked, and the idle task calls nothing. -/
def Frame.Allowed (p : Processor) (f : Frame) : Prop :=
  match f.work with
  | .serves ⟨.call c, _, _, entry, _⟩ =>
    (f.strand.caller = .handler → ¬ c.maySuspend p.core.kernel) ∧
      (c.maySuspend p.core.kernel → c.isStart = false → entry = false) ∧
      ∀ idle, p.stage.idle = some idle → f.strand ≠ .thread (some idle)
  | _ => True

namespace Processor

/-- A step in which the application keeps to the rules, and no fault is met. -/
structure Goes (p p' : Processor) : Prop where
  step : Step p p'
  allowed : ∀ f, p'.frames = f :: p.frames → f.Allowed p
  sane : p'.failed = none

/-- What a run of such steps comes to, from a fresh kernel. -/
inductive Proper : Processor → Prop
  | boot (clock : Clock) : Proper { core := { clock } }
  | goes {p p' : Processor} (before : Proper p) (goes : p.Goes p') : Proper p'

theorem Proper.runs {p : Processor} (h : p.Proper) : p.Runs := by
  induction h with
  | boot clock => exact .boot clock
  | goes _ goes ih => exact ih.step goes.step

theorem Proper.sane {p : Processor} (h : p.Proper) : p.failed = none := by
  cases h with
  | boot clock => rfl
  | goes _ goes => exact goes.sane

end Processor

inductive Processor.Move
  | begins {α : Type} (call : KernelCall α)
  /-- The first of the messages that somebody holds is put on a queue. -/
  | puts (q : QueueId)
  /-- The strand that runs goes on by one request. If it asks for a frame, that is at `sp`. -/
  | goesOn (sp : StackPointer)
  | guards
  | unguards
  | interrupts
  /-- The switch exception comes in and finds the thread at `sp`. -/
  | excepts (sp : StackPointer)
  | returns

namespace Processor

variable (p : Processor)

def canBegin : Bool :=
  p.failed.isNone ∧ (0 < p.level ∨ p.masked ∨ p.core.requests ≤ p.served) ∧ p.latest.all Work.isOpen

def canCall {α : Type} (call : KernelCall α) : Bool :=
  p.canBegin ∧ (p.running.caller = .handler → System.isBrief call) ∧
    (System.isBrief call ∨ call.isStart ∨ ¬ p.masked) ∧ (call.isStart → p.running = .thread none) ∧
    p.stage.idle.all fun idle => p.running ≠ .thread (some idle)

def callOf {α : Type} (call : KernelCall α) (held : List Message) : Processor := { p with
  frames := ⟨p.running, .serves ⟨.call call, call.program, { cargo := call.takes }, p.masked,
    .outside⟩⟩ :: p.frames
  held }

def goOn (sp : StackPointer) (later earlier : List Frame) : Serving → Processor
  | ⟨s, rest, ph, entry, sector⟩ =>
    let next (rest : Program Unit _) (sector : Sector) : Processor :=
      { p with frames := later ++ ⟨p.running, .serves ⟨s, rest, ph, entry, sector⟩⟩ :: earlier }
    match rest with
    | .done a => { p with frames := later ++ earlier, held := s.gives a ++ p.held }
    | .loop body t rest => next (Program.unroll body t rest) sector
    | .ask r rest =>
      match r, rest with
      | .mask, rest => { next (rest p.masked) .fresh with masked := true }
      | .unmask saved, rest => { next (rest ()) .outside with masked := saved }
      | .barrier, rest | .idle, rest | .put _ _, rest | .note _, rest => next (rest ()) sector
      | .pend, rest => { next (rest ()) sector with core := p.core.requestSwitch }
      | .reserve bytes, rest => next (rest (bytes < Limits.blockBound)) sector
      | .frame _ _ _, rest => next (rest sp) sector
      | .control _ _ _ _, rest => next (rest 0) sector
      | .startFirst _, rest =>
        match p.stage with
        | .launching idle =>
          if p.running = .thread none then
            { next (rest ()) sector with masked := false, stage := .up idle }
          else p
        | _ => p
      | .act a, rest =>
        match a.toSection p.core with
        | .error _ _ => p
        | .ok b c => { p with
          core := c
          stage := p.stage.after a
          frames := later ++
            ⟨p.running, .serves ⟨s, rest (.ok b), ph.after ⟨a, b⟩, entry, .spent⟩⟩ :: earlier
          log := ⟨p.core.kernel, p.running.caller, s.kernelCall, ⟨a, b⟩⟩ :: p.log }
      | _, _ => p

def after : Move → Processor
  | .begins call => if p.canCall call ∧ call.takes = [] then p.callOf call p.held else p
  | .puts q =>
    match p.held with
    | [] => p
    | m :: held => if p.canCall (.put q m) then p.callOf (.put q m) held else p
  | .goesOn sp =>
    if p.failed.isNone ∧ (0 < p.level ∨ p.masked ∨ p.core.requests ≤ p.served) then
      match p.frames.dropWhile (·.strand ≠ p.running) with
      | ⟨_, .serves x⟩ :: earlier => p.goOn sp (p.frames.takeWhile (·.strand ≠ p.running)) earlier x
      | _ => p
    else p
  | .guards =>
    if p.canBegin then
      { p with frames := ⟨p.running, .guard p.masked⟩ :: p.frames, masked := true }
    else p
  | .unguards =>
    if p.failed.isNone ∧ (0 < p.level ∨ p.masked ∨ p.core.requests ≤ p.served) then
      match p.frames.dropWhile (·.strand ≠ p.running) with
      | ⟨_, .guard saved⟩ :: earlier => { p with
        frames := p.frames.takeWhile (·.strand ≠ p.running) ++ earlier
        masked := saved }
      | _ => p
    else p
  | .interrupts =>
    if p.failed.isNone ∧ ¬ p.masked then { p with level := p.level + 1 } else p
  | .excepts sp =>
    if p.failed.isNone ∧ ¬ p.masked ∧ p.level = 0 ∧ p.served < p.core.requests then { p with
      level := 1
      served := p.core.requests
      frames := ⟨.handler 0, .serves ⟨.switch sp, Call.switch sp, {}, p.masked, .outside⟩⟩ :: p.frames }
    else p
  | .returns =>
    match p.level with
    | 0 => p
    | level + 1 =>
      if p.failed.isNone ∧ (stackOf (.handler level) p.frames).isEmpty then { p with level } else p

def run (moves : List Move) : Processor := moves.foldl after {}

variable {p}

theorem mayRun {p : Processor} (h : 0 < p.level ∨ p.masked ∨ p.core.requests ≤ p.served) :
    p.MayRun :=
  .inr (h.imp_right (Or.imp_right Nat.not_lt.2))

theorem at_of_dropWhile {f : Frame} {earlier : List Frame}
    (h : p.frames.dropWhile (·.strand ≠ p.running) = f :: earlier) :
    p.At (p.frames.takeWhile (·.strand ≠ p.running)) f.work earlier := by
  have here : f.strand = p.running := by
    have stops := List.head?_dropWhile_not (fun f : Frame => decide (f.strand ≠ p.running)) p.frames
    rw [h] at stops
    simpa using stops
  refine ⟨?_, fun f hf => by simpa using List.all_eq_true.1 List.all_takeWhile f hf⟩
  have whole := List.takeWhile_append_dropWhile (p := fun f => decide (f.strand ≠ p.running))
    (l := p.frames)
  rw [h] at whole
  exact here ▸ whole.symm

theorem goOn_step {later earlier : List Frame} {x : Serving} (sp : StackPointer)
    (here : p.At later (.serves x) earlier) (sane : p.failed = none) (may : p.MayRun) :
    p.goOn sp later earlier x = p ∨ Step p (p.goOn sp later earlier x) := by
  obtain ⟨s, rest, ph, entry, sector⟩ := x
  cases rest with
  | done a => exact .inr (.finish p later earlier s a ph entry sector here may)
  | loop body t rest => exact .inr (.unroll p later earlier s body t rest ph entry sector here may)
  | ask r rest =>
    have reply {β : Type} {r : Request Unit β} {rest : β → Program Unit _} {b : β} {c : Core}
        {masked' : Bool} {sector' : Sector}
        (here : p.At later (.serves ⟨s, .ask r rest, ph, entry, sector⟩) earlier)
        (answer : Reply r p.core b c) (masking : Masking r p.masked sector b masked' sector') :=
      Step.answer p later earlier s r rest ph entry masked' sector sector' b c here may answer masking
    cases r
    case mask => exact .inr (reply here (.mask _ _) (.mask _ _))
    case unmask saved => exact .inr (reply here (.unmask _ _) (.unmask _ _ _))
    case barrier => exact .inr (reply here (.barrier _) (.same _ _ _ _ rfl))
    case idle => exact .inr (reply here (.idle _) (.same _ _ _ _ rfl))
    case pend => exact .inr (reply here (.pend _) (.same _ _ _ _ rfl))
    case reserve bytes =>
      exact .inr (reply here (.reserve _ .any _ _ of_decide_eq_true) (.same _ _ _ _ rfl))
    case frame entry arg bytes => exact .inr (reply here (.frame _ _ _ _ sp) (.same _ _ _ _ rfl))
    case put r data => exact .inr (reply here (.put _ _ _) (.same _ _ _ _ rfl))
    case control r data control arg =>
      exact .inr (reply here (.control _ _ _ _ _ 0) (.same _ _ _ _ rfl))
    case note n => exact .inr (reply here (.note _ _) (.same _ _ _ _ rfl))
    case startFirst first =>
      simp only [goOn]
      split
      · next idle stage =>
        split
        · next boots =>
          exact .inr (.launch p later earlier s first rest ph entry sector idle sane stage boots here may)
        · exact .inl rfl
      · exact .inl rfl
    case act a =>
      simp only [goOn]
      split
      · exact .inl rfl
      · next b c result =>
        exact .inr (.act p later earlier s a rest ph entry sector b c here may result)
    all_goals exact .inl rfl

theorem goOn_keeps {later earlier : List Frame} {x : Serving} (sp : StackPointer)
    (here : p.At later (.serves x) earlier) :
    (p.goOn sp later earlier x).frames.length ≤ p.frames.length ∧
      (p.goOn sp later earlier x).failed = p.failed := by
  obtain ⟨s, rest, ph, entry, sector⟩ := x
  have same (w : Work) : (later ++ ⟨p.running, w⟩ :: earlier).length ≤ p.frames.length := by
    rw [here.frames, List.length_append, List.length_append]
    exact Nat.le_refl _
  cases rest with
  | done a =>
    refine ⟨?_, rfl⟩
    rw [here.frames]
    exact ((List.sublist_cons_self _ earlier).append_left later).length_le
  | loop body t rest => exact ⟨same _, rfl⟩
  | ask r rest =>
    cases r
    case startFirst first =>
      simp only [goOn]
      split
      · split
        · exact ⟨same _, rfl⟩
        · exact ⟨Nat.le_refl _, rfl⟩
      · exact ⟨Nat.le_refl _, rfl⟩
    case act a =>
      simp only [goOn]
      split
      · exact ⟨Nat.le_refl _, rfl⟩
      · exact ⟨same _, rfl⟩
    case fault | perform | advance | arm | own => exact ⟨Nat.le_refl _, rfl⟩
    all_goals exact ⟨same _, rfl⟩

theorem callOf_goes {α : Type} {call : KernelCall α} {held : List Message} (may : p.canCall call)
    (holds : p.held.Perm (call.takes ++ held)) : p.Goes (p.callOf call held) := by
  simp only [canCall, canBegin, Bool.decide_and, Bool.and_eq_true, decide_eq_true_eq] at may
  obtain ⟨⟨sane, ready, opens⟩, handler, unmasked, boots, idle⟩ := may
  refine ⟨.begin p call held (mayRun ready) (fun w hw => ?_) boots holds, ?_,
    Option.isNone_iff_eq_none.1 sane⟩
  · rw [hw] at opens
    exact opens
  · rintro _ ⟨⟩
    have brief (h : System.isBrief call) : ¬ call.maySuspend p.core.kernel := by
      cases call <;> first | exact id | exact nomatch h
    refine ⟨fun who => brief (handler who), fun may other => ?_, fun t ht => ?_⟩
    · rcases unmasked with h | h | h
      · exact (brief h may).elim
      · exact nomatch other.symm.trans h
      · exact Bool.eq_false_iff.2 h
    · rw [ht] at idle
      simpa using idle

theorem after_goes (sane : p.failed = none) (move : Move) : p.after move = p ∨ p.Goes (p.after move) := by
  have goes {p' : Processor} (step : Step p p') (shrinks : p'.frames.length ≤ p.frames.length)
      (same : p'.failed = p.failed) : p.Goes p' := by
    refine ⟨step, fun f push => ?_, same.trans sane⟩
    rw [push] at shrinks
    exact (Nat.not_succ_le_self _ shrinks).elim
  have pushes {p' : Processor} {c : Strand} {w : Work} (step : Step p p')
      (push : p'.frames = ⟨c, w⟩ :: p.frames) (allowed : Frame.Allowed p ⟨c, w⟩)
      (same : p'.failed = p.failed) : p.Goes p' := by
    refine ⟨step, fun f push' => ?_, same.trans sane⟩
    obtain ⟨rfl, -⟩ := List.cons.inj (push.symm.trans push')
    exact allowed
  -- A move whose conditions do not hold does nothing; else they are those of its step.
  cases move with
  | begins call =>
    simp only [Processor.after]
    split
    · next may => exact .inr (callOf_goes may.1 (by rw [may.2]; rfl))
    · exact .inl rfl
  | puts q =>
    simp only [Processor.after]
    split
    · exact .inl rfl
    next m held hm =>
    split
    · next may => exact .inr (callOf_goes may (by rw [hm]; rfl))
    · exact .inl rfl
  | goesOn sp =>
    simp only [Processor.after]
    split
    · next ready =>
      split
      · next c x earlier found =>
        have here := at_of_dropWhile found
        obtain ⟨shrinks, same⟩ := goOn_keeps sp here
        exact (goOn_step sp here sane (mayRun ready.2)).imp_right fun step => goes step shrinks same
      · exact .inl rfl
    · exact .inl rfl
  | guards =>
    simp only [Processor.after]
    split
    · next may =>
      simp only [canBegin, Bool.decide_and, Bool.and_eq_true, decide_eq_true_eq] at may
      refine .inr (pushes (.guard p (mayRun may.2.1) fun w hw => ?_) rfl trivial rfl)
      have opens := may.2.2
      rw [hw] at opens
      exact opens
    · exact .inl rfl
  | unguards =>
    simp only [Processor.after]
    split
    · next ready =>
      split
      · next c saved earlier found =>
        have here := at_of_dropWhile found
        refine .inr (goes (.unguard p _ earlier saved here (mayRun ready.2)) ?_ rfl)
        have sub := (List.sublist_cons_self ⟨p.running, .guard saved⟩ earlier).append_left
          (p.frames.takeWhile (·.strand ≠ p.running))
        exact (congrArg List.length here.frames ▸ sub.length_le :)
      · exact .inl rfl
    · exact .inl rfl
  | interrupts =>
    simp only [Processor.after]
    split
    · next may => exact .inr (goes (.interrupt p sane (Bool.eq_false_iff.2 may.2)) (Nat.le_refl _) rfl)
    · exact .inl rfl
  | excepts sp =>
    simp only [Processor.after]
    split
    · next may =>
      exact .inr (pushes (.exception p sp sane (Bool.eq_false_iff.2 may.2.1) may.2.2.1 may.2.2.2) rfl
        trivial rfl)
    · exact .inl rfl
  | returns =>
    simp only [Processor.after]
    split
    · exact .inl rfl
    next level handles =>
    split
    · next may =>
      exact .inr (goes (.back p level sane handles (List.isEmpty_iff.1 may.2)) (Nat.le_refl _) rfl)
    · exact .inl rfl

theorem goes_foldl (sane : p.failed = none) (moves : List Move) :
    Relation.ReflTransGen Goes p (moves.foldl after p) := by
  induction moves generalizing p with
  | nil => exact .refl
  | cons move moves ih =>
    rcases after_goes sane move with same | goes
    · rw [List.foldl_cons, same]
      exact ih sane
    · exact .head goes (ih goes.sane)

theorem proper_run (moves : List Move) : (run moves).Proper := by
  have all {p : Processor} (run : Relation.ReflTransGen Goes {} p) : p.Proper := by
    induction run with
    | refl => exact .boot {}
    | tail _ goes ih => exact ih.goes goes
  exact all (goes_foldl rfl moves)

end Processor

namespace Processor.Move

def goes (n : Nat) : List Move := List.replicate n (.goesOn 0)

/-- A call that is one masked section, from beginning to end. -/
def calls {α : Type} (call : KernelCall α) : List Move := .begins call :: goes 4

def handles {α : Type} (call : KernelCall α) : List Move := .interrupts :: calls call ++ [.returns]

def switches (sp : StackPointer) : List Move := .excepts sp :: goes 4 ++ [.returns]

def creates (name : String) (priority : UInt8) (sp : StackPointer) : List Move :=
  .begins (.createTask .worker 0 name priority (.fixed 64)) :: List.replicate 9 (.goesOn sp)

def starts (sp : StackPointer) : List Move :=
  .begins .start :: List.replicate 15 (.goesOn sp) ++ switches sp

end Processor.Move

end Rtos
