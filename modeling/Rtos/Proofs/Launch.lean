import Rtos.Proofs.Discipline
import Rtos.Proofs.Handoff

/-!
# The start of the scheduler

The code that boots makes the idle task the current one in a masked section, and masks interrupts again
to request the first switch and to enter the first frame. If they were not masked when it began, there
is a gap between the two. A switch that comes in there leaves the code that boots for another task, and
stores its stack pointer for the idle task.
-/

namespace Rtos

def Program.isAtMask {α : Type} : Program Unit α → Bool
  | .ask .mask _ => true
  | _ => false

/-- The service is between two of its masked sections, and found interrupts unmasked. -/
def Serving.InGap (x : Serving) : Prop := x.rest.isAtMask ∧ x.entry = false

def Serving.Dutiful (x : Serving) : Prop := x.service.isSwitch = false → x.rest.Dutiful

namespace Processor

variable (p : Processor)

def Switching : Prop := ∃ f ∈ p.frames, ∃ x, f.work = .serves x ∧ x.service.isSwitch

/-- The sections carried out since the latest one that made an idle task current. -/
def sinceStart : List Record := p.log.takeWhile fun r => !r.outcome.action.starts

/-- The code that boots is at `x`, a call that made `idle` the current task and is to enter its first
frame, at `sp`. This is the context stored for the task as long as no switch has left it. A call that
found interrupts masked is left by no switch. -/
structure Launching (idle : TaskId) (x : Serving) (sp : StackPointer) : Prop where
  stands : (stackOf (.thread none) p.frames).head? = some (.serves x)
  starts : x.service.isStart
  errand : x.rest.errand = some (.enters sp)
  stored : p.core.kernel.stackPointer idle = (savedIn p.sinceStart idle).or (some sp)
  atomic : x.entry = true → ∀ r ∈ p.sinceStart, r.outcome.action.switches = false

end Processor

namespace Processor

variable {p p' : Processor} {idle : TaskId} {x : Serving} {sp : StackPointer}

theorem Step.dutiful (step : Step p p')
    (dutiful : ∀ f ∈ p.frames, ∀ x, f.work = .serves x → x.Dutiful) :
    ∀ f ∈ p'.frames, ∀ x, f.work = .serves x → x.Dutiful := by
  -- One service goes on, and the others are where they were.
  have goesOn {later earlier : List Frame} {w : Work} {α : Type} {s : Service α}
      {rest : Program Unit α} {ph : Phase} {entry : Bool} {sector : Sector} (here : p.At later w earlier)
      (next : s.isSwitch = false → rest.Dutiful) :
      ∀ f ∈ later ++ ⟨p.running, .serves ⟨s, rest, ph, entry, sector⟩⟩ :: earlier,
        ∀ x, f.work = .serves x → x.Dutiful := by
    intro f hf x work
    rcases List.mem_append.1 hf with hf | hf
    · exact dutiful f (here.frames_of_gone (List.mem_append_left _ hf)) x work
    rcases List.mem_cons.1 hf with rfl | hf
    · cases work
      exact next
    · exact dutiful f (here.frames_of_gone (List.mem_append_right _ hf)) x work
  cases step with
  | begin _ call held may opens boots holds =>
    refine List.forall_mem_cons.2 ⟨?_, dutiful⟩
    rintro _ ⟨⟩ -
    exact call.free.2
  | answer _ later earlier s r next ph entry masked' sector sector' b c here may answer masking =>
    exact goesOn here fun call => ((dutiful _ here.mem _ rfl call).reply answer).2
  | act _ later earlier s a next ph entry sector b c here may result =>
    exact goesOn here fun call => ((dutiful _ here.mem _ rfl call).2 (.ok b)).2
  | fail _ later earlier s a next ph entry sector f c here may result =>
    exact goesOn here fun call => ((dutiful _ here.mem _ rfl call).2 (.error f)).2
  | unroll _ later earlier s body t next ph entry sector here may =>
    exact goesOn here fun call => (dutiful _ here.mem _ rfl call).unroll.2
  | finish _ later earlier s a ph entry sector here may =>
    exact fun f hf => dutiful f (here.frames_of_gone hf)
  | launch _ later earlier s sp next ph entry sector idle sane stage boots here may =>
    exact goesOn here fun call => ((dutiful _ here.mem _ rfl call).2 ()).2
  | guard _ may opens =>
    refine List.forall_mem_cons.2 ⟨?_, dutiful⟩
    rintro _ ⟨⟩
  | unguard _ later earlier saved here may => exact fun f hf => dutiful f (here.frames_of_gone hf)
  | exception _ sp sane unmasked threads due =>
    refine List.forall_mem_cons.2 ⟨?_, dutiful⟩
    rintro _ ⟨⟩ call
    cases call
  | interrupt | back | write | drop | elapse => exact dutiful

theorem Runs.dutiful (h : p.Runs) : ∀ f ∈ p.frames, ∀ x, f.work = .serves x → x.Dutiful := by
  induction h with
  | boot clock => exact fun _ hf => nomatch hf
  | step _ step ih => exact step.dutiful ih

theorem Step.sane (step : Step p p') (sane : p'.failed = none) : p.failed = none := by
  cases step with
  | fail => cases sane
  | _ => exact sane

theorem Launching.closed (h : p.Launching idle x sp) : ¬ (Work.serves x).isOpen := fun opens =>
  nomatch h.errand.symm.trans (Program.errand_of_isAtRoutine opens)

theorem Launching.congr (h : p.Launching idle x sp)
    (stack : stackOf (.thread none) p'.frames = stackOf (.thread none) p.frames)
    (kernel : p'.core.kernel = p.core.kernel) (log : p'.log = p.log) : p'.Launching idle x sp where
  stands := stack ▸ h.stands
  starts := h.starts
  errand := h.errand
  stored := by
    rw [kernel, sinceStart, log]
    exact h.stored
  atomic masked := by
    rw [sinceStart, log]
    exact h.atomic masked

theorem Launching.here (h : p.Launching idle x sp) {later earlier : List Frame} {w : Work}
    (boots : p.running = .thread none) (here : p.At later w earlier) : w = .serves x := by
  have stands := h.stands
  rw [← boots, here.stack] at stands
  exact Option.some.inj stands

theorem Launching.act (h : p.Launching idle x sp) {β : Type} {a : Action β} {b : β} {c : Core}
    (result : a.toSection p.core = .ok b c) (frames : List Frame) (call : Option (Sigma KernelCall))
    (stack : stackOf (.thread none) frames = stackOf (.thread none) p.frames)
    (starts : a.starts = false) (switches : a.switches → x.entry = false) :
    Launching { p with
      core := c
      stage := p.stage.after a
      frames
      log := ⟨p.core.kernel, p.running.caller, call, ⟨a, b⟩⟩ :: p.log } idle x sp := by
  have since : sinceStart { p with
      core := c
      stage := p.stage.after a
      frames
      log := ⟨p.core.kernel, p.running.caller, call, ⟨a, b⟩⟩ :: p.log } =
      ⟨p.core.kernel, p.running.caller, call, ⟨a, b⟩⟩ :: p.sinceStart :=
    List.takeWhile_cons_of_pos (by simp [starts])
  refine ⟨(congrArg List.head? stack).trans h.stands, h.starts, h.errand, ?_, fun masked => ?_⟩
  · rw [since, savedIn_cons, Option.or_assoc, ← h.stored]
    exact Action.saves result _ _ idle
  · rw [since]
    refine List.forall_mem_cons.2 ⟨Bool.eq_false_iff.2 fun is => ?_, h.atomic masked⟩
    exact nomatch masked.symm.trans (switches is)

theorem Launching.answer (h : p.Launching idle x sp) {α β : Type} {later earlier : List Frame}
    {s : Service α} {r : Request Unit β} {next : β → Program Unit α} {ph : Phase}
    {entry masked' : Bool} {sector sector' : Sector} {b : β} {c : Core}
    (dutiful : ∀ f ∈ p.frames, ∀ x, f.work = .serves x → x.Dutiful)
    (here : p.At later (.serves ⟨s, .ask r next, ph, entry, sector⟩) earlier)
    (boots : p.running = .thread none) (answer : Reply r p.core b c)
    (masking : Masking r p.masked sector b masked' sector') :
    Launching { p with
      core := c
      masked := masked'
      frames := later ++ ⟨p.running, .serves ⟨s, next b, ph, entry, sector'⟩⟩ :: earlier } idle
      ⟨s, next b, ph, entry, sector'⟩ sp := by
  obtain rfl := Work.serves.inj (h.here boots here)
  have call : s.isSwitch = false := by
    cases s with
    | call => rfl
    | switch => exact nomatch h.starts
  have errand := ((dutiful _ here.mem _ rfl call).reply answer).1
  rw [h.errand] at errand
  refine ⟨?_, h.starts, errand.trans ?_, ?_, h.atomic⟩
  · rw [← boots, stackOf_latest here.latest]
    rfl
  · have was := h.errand
    cases masking with
    | mask | unmask => rfl
    | same r masked sector b plain =>
      cases answer with
      | pend => rfl
      | mask | unmask | startFirst => cases plain
      | _ => cases was
  · rw [answer.kernel_eq]
    exact h.stored

theorem Launching.inGap (h : p.Launching idle x sp) (sound : p.Sound) (stage : p.stage = .launching idle)
    (unseen : p.seen (.thread none) = false) : x.InGap := by
  obtain ⟨ws, stack⟩ := List.head?_eq_some_iff.1 h.stands
  have aligned := sound.aligned (.thread none) fun _ => by rw [stage]; rfl
  rw [stack, unseen] at aligned
  obtain ⟨s, rest, ph, entry, sector⟩ := x
  obtain ⟨masked, guards, -⟩ := aligned
  obtain ⟨outside, rfl⟩ := Bool.or_eq_false_iff.1 masked.symm
  obtain rfl : sector = .outside := by
    cases sector <;> first | rfl | cases outside
  refine ⟨?_, rfl⟩
  have errand := h.errand
  cases rest with
  | done | loop => cases errand
  | ask r next =>
    cases r
    case mask => rfl
    case unmask | pend => cases guards.1
    case startFirst => cases guards
    case act a =>
      obtain ⟨_, -, none⟩ := Option.map_eq_some_iff.1 errand
      cases none
    all_goals cases errand

theorem Launching.step (h : p.Launching idle x sp) (runs : p.Runs) (step : Step p p')
    (sane : p'.failed = none) (stage : p.stage = .launching idle) (stage' : p'.stage = .launching idle) :
    ∃ x, p'.Launching idle x sp := by
  have sound := runs.sound
  have dutiful := runs.dutiful
  have pushes (opens : ∀ w, p.latest = some w → w.isOpen) (w : Work) :
      stackOf (.thread none) (⟨p.running, w⟩ :: p.frames) = stackOf (.thread none) p.frames := by
    refine stackOf_cons.trans (if_neg fun boots => h.closed (opens _ ?_))
    have boots : p.running = .thread none := boots
    rw [latest, boots]
    exact h.stands
  -- A strand that is at anything else is not the one that boots.
  have other {later earlier : List Frame} {w : Work} (here : p.At later w earlier)
      (differs : w ≠ .serves x) : .thread none ≠ p.running := fun boots =>
    differs (h.here boots.symm here)
  cases step with
  | begin _ call held may opens boots holds => exact ⟨x, h.congr (pushes opens _) rfl rfl⟩
  | answer _ later earlier s r next ph entry masked' sector sector' b c here may answer masking =>
    by_cases boots : p.running = .thread none
    · exact ⟨_, h.answer dutiful here boots answer masking⟩
    · exact ⟨x, h.congr (here.others fun same => boots same.symm) answer.kernel_eq rfl⟩
  | act _ later earlier s a next ph entry sector b c here may result =>
    have boots : .thread none ≠ p.running := other here fun same => by
      cases same
      obtain ⟨_, -, none⟩ := Option.map_eq_some_iff.1 h.errand
      cases none
    obtain ⟨-, ⟨-, ⟨switches, starts⟩, -⟩, -⟩ := here.aligned sound
    refine ⟨x, h.act result _ _ (here.others boots) ?_ fun is => ?_⟩
    · exact Bool.eq_false_iff.2 fun is => boots ((sound.placed_at here).1 (starts is)).symm
    · refine (h.inGap sound stage ?_).2
      rw [seen, decide_eq_false boots, Bool.and_false]
  | fail => cases sane
  | unroll _ later earlier s body t next ph entry sector here may =>
    exact ⟨x, h.congr (here.others (other here (by rintro ⟨⟩; cases h.errand))) rfl rfl⟩
  | finish _ later earlier s a ph entry sector here may =>
    exact ⟨x, h.congr (here.others_of_gone (other here (by rintro ⟨⟩; cases h.errand))) rfl rfl⟩
  | launch => cases stage'
  | guard _ may opens => exact ⟨x, h.congr (pushes opens _) rfl rfl⟩
  | unguard _ later earlier saved here may =>
    exact ⟨x, h.congr (here.others_of_gone (other here (by rintro ⟨⟩))) rfl rfl⟩
  | exception => exact ⟨x, h.congr (stackOf_cons.trans (if_neg (by rintro ⟨⟩))) rfl rfl⟩
  | interrupt | back | write | drop | elapse => exact ⟨x, h.congr rfl rfl rfl⟩

/-- The section that makes an idle task current belongs to a start that is to enter the frame of that
task. -/
theorem Step.launching (runs : p.Runs) (step : Step p p') (sane : p'.failed = none)
    (other : p.stage ≠ .launching idle) (stage : p'.stage = .launching idle) :
    ∃ x sp, p'.Launching idle x sp := by
  cases step with
  | act _ later earlier s a next ph entry sector b c here may result =>
    cases a with
    | startWith t =>
      obtain rfl : t = idle := Stage.launching.inj stage
      obtain ⟨-, ⟨-, ⟨switches, starts⟩, -⟩, -⟩ := here.aligned runs.sound
      have boots := (runs.sound.placed_at here).1 (starts rfl)
      have errand := ((runs.dutiful _ here.mem _ rfl switches.symm).2 (.ok b)).1
      obtain ⟨t', found, same, kernel⟩ := Section.startWith_ok result
      refine ⟨⟨s, next (.ok b), ph.after ⟨.startWith t, b⟩, entry, .spent⟩, b, ?_, starts rfl, errand, ?_,
        fun _ _ hr => nomatch hr⟩
      · rw [← boots, stackOf_latest here.latest]
        rfl
      · have stored : c.kernel.stackPointer t = some b := by
          rw [kernel, same]
          exact congrArg (Option.map Task.stackPointer) found
        exact stored
    | _ => exact (other stage).elim
  | fail => cases sane
  | launch => cases stage
  | _ => exact (other stage).elim

theorem Runs.launching (h : p.Runs) (sane : p.failed = none) (stage : p.stage = .launching idle) :
    ∃ x sp, p.Launching idle x sp := by
  induction h with
  | boot clock => cases stage
  | @step p p' runs step ih =>
    by_cases was : p.stage = .launching idle
    · obtain ⟨x, sp, h⟩ := ih (step.sane sane) was
      obtain ⟨x, h⟩ := h.step runs step sane was stage
      exact ⟨x, sp, h⟩
    · exact step.launching runs sane was stage

theorem Sound.not_switching (sound : p.Sound) (sane : p.failed = none) {t : Option TaskId}
    (runs : p.running = .thread t) : ¬ p.Switching := by
  rintro ⟨⟨c, w⟩, hf, x, rfl, switches⟩
  have handles : c = .handler 0 := (sound.placed _ hf).2 switches
  have level := sound.levels _ hf 0 handles
  rw [level_of_thread sane runs] at level
  exact Nat.not_lt_zero 0 level

/-- From the moment when the idle task is made current until its first frame is entered, the code that
boots runs by itself with interrupts masked, and no switch is on its way, except in the gap. If a switch
comes in there, its stack pointer is stored for the idle task; else the frame that it enters is the one
that is stored. -/
theorem Runs.launches (h : p.Runs) (sane : p.failed = none) (stage : p.stage = .launching idle) :
    ∃ x sp, p.Launching idle x sp ∧
      (x.InGap ∨ p.running = .thread none ∧ p.masked = true ∧ ¬ p.Switching) := by
  obtain ⟨x, sp, launching⟩ := h.launching sane stage
  refine ⟨x, sp, launching, ?_⟩
  cases seen : p.seen (.thread none) with
  | false => exact .inl (launching.inGap h.sound stage seen)
  | true =>
    obtain ⟨masked, boots⟩ := Bool.and_eq_true_iff.1 seen
    have boots : p.running = .thread none := (of_decide_eq_true boots).symm
    exact .inr ⟨boots, masked, h.sound.not_switching sane boots⟩

def firstFrame : Work → Option StackPointer
  | .serves ⟨_, .ask (.startFirst sp) _, _, _, _⟩ => some sp
  | _ => none

open Rtos.Processor.Move in
/-- A tick comes in when the start is in its gap, and the switch after it leaves the code that boots at
8 for task 0. That task delays itself, and the code that boots goes on. -/
def switchInGap : List Move :=
  creates "a" 2 100 ++ .begins .start :: List.replicate 12 (.goesOn 200) ++ handles .tick ++
    switches 8 ++ calls (.delay 1) ++ switches 108 ++ goes 2

/-- The first frame is to be entered at 200, while the context that is stored for the idle task is the one
that boots. -/
theorem launches_switchInGap :
    (run switchInGap).failed = none ∧ (run switchInGap).stage = .launching ⟨1⟩ ∧
      (run switchInGap).latest.bind firstFrame = some 200 ∧
      (run switchInGap).core.kernel.stackPointer ⟨1⟩ = some 8 ∧
      ∃ x sp, (run switchInGap).Launching ⟨1⟩ x sp ∧
        (x.InGap ∨ (run switchInGap).running = .thread none ∧ (run switchInGap).masked = true ∧
          ¬ (run switchInGap).Switching) :=
  ⟨(proper_run _).sane, by decide +kernel, by decide +kernel, by decide +kernel,
    (proper_run _).runs.launches (proper_run _).sane (by decide +kernel)⟩

end Processor

end Rtos
