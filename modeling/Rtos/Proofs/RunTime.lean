import Mathlib.Data.UInt
import Rtos.Proofs.Script
import Rtos.Proofs.Spared

/-!
# Run times

A switch charges the task that it leaves with what the clock did since the switch to it, and nothing
else writes the run times but a reset. From one switch to a later one each task is charged with its
stints in between, and all tasks together with what the clock did, however often it wrapped around
or jumped.
-/

namespace Rtos

/-- A switch that was performed, at that reading of the clock. `source` is the task that was left,
if one was current. -/
structure Handover where
  source : Option TaskId
  target : TaskId
  reading : UInt32
  deriving DecidableEq

/-- The time that a task has the processor, from a switch to it until the next one. -/
structure Stint where
  task : TaskId
  start : UInt32
  stop : UInt32

def Stint.length (x : Stint) : UInt32 := x.stop - x.start

/-- The stints between the handovers, the latest first. -/
def stints : List Handover → List Stint
  | out :: into :: earlier => ⟨into.target, into.reading, out.reading⟩ :: stints (into :: earlier)
  | _ => []

def ranFor (t : TaskId) (handovers : List Handover) : UInt32 :=
  (((stints handovers).filter (·.task = t)).map Stint.length).sum

/-- The handover that the section performs at that reading. A switch that is taken while nothing is
elected performs none. -/
def Record.handover (p : Record) (reading : UInt32) : Option Handover :=
  if p.outcome.action.switches then
    p.kernel.next.map ({ source := p.kernel.current, target := ·, reading })
  else none

namespace Kernel

variable (k : Kernel)

def runTime (t : TaskId) : UInt32 := (k.tasks[t.index]?.map Task.time).getD 0

def totalTime : UInt32 := (k.tasks.map Task.time).sum

end Kernel

namespace System

structure Switches (s : System) (h : Handover) (s' : System) : Prop where
  step : System.Step s s'
  performs : ∃ p, s'.log = p :: s.log ∧ p.handover s.core.clock.now = some h

/-- A step that performs none. It does not start the run times anew, nor the scheduler. -/
structure Proceeds (s s' : System) : Prop where
  step : System.Step s s'
  calm : ∀ p, s'.log = p :: s.log → p.handover s.core.clock.now = none ∧
    p.outcome.action.resets = false ∧ p.outcome.action.starts = false

/-- A run from `s` in which the run times are not started anew, nor the scheduler, and the handovers
on the way, the latest first. -/
inductive Spans (s : System) : List Handover → System → Prop
  | refl : s.Spans [] s
  | proceeds {hs : List Handover} {s₁ s₂ : System} (before : s.Spans hs s₁)
      (on : s₁.Proceeds s₂) : s.Spans hs s₂
  | switches {hs : List Handover} {h : Handover} {s₁ s₂ : System} (before : s.Spans hs s₁)
      (took : s₁.Switches h s₂) : s.Spans (h :: hs) s₂

end System

def Task.clocks (x : Task) : UInt32 × UInt32 := (x.time, x.start)

theorem Task.spared_clocks : Task.Spared Task.clocks :=
  ⟨fun _ _ _ _ => rfl, fun _ _ => rfl, fun _ _ => rfl, fun _ _ => rfl⟩

/-- At most there are more tasks, which have not run. -/
def Kernel.SameClocks (k k' : Kernel) : Prop :=
  ∃ n, k'.tasks.map Task.clocks = k.tasks.map Task.clocks ++ List.replicate n (0, 0)

theorem TaskTable.sum_update {tasks : List Task} {t : TaskId} {x : Task} {f : Task → UInt32}
    {g : Task → Task} (known : tasks[t.index]? = some x) :
    ((update tasks t g).map f).sum = (tasks.map f).sum + (f (g x) - f x) := by
  obtain ⟨i⟩ := t
  simp only [update] at known ⊢
  induction tasks generalizing i with
  | nil => cases known
  | cons y tasks ih =>
    cases i with
    | zero =>
      obtain rfl : y = x := Option.some.inj known
      simp only [List.modify_zero_cons, List.map_cons, List.sum_cons]
      grind
    | succ i =>
      simp only [List.modify_succ_cons, List.map_cons, List.sum_cons, ih i known]
      grind

namespace Kernel

variable {k k' : Kernel} {t : TaskId} {x : Task}

theorem SameClocks.of_spares (h : Spares Task.clocks k k') : k.SameClocks k' :=
  ⟨0, Eq.trans h (List.append_nil _).symm⟩

theorem runTime_eq : k.runTime t = ((k.tasks.map Task.clocks)[t.index]?.map Prod.fst).getD 0 := by
  rw [runTime, List.getElem?_map, Option.map_map]
  rfl

theorem totalTime_eq : k.totalTime = ((k.tasks.map Task.clocks).map Prod.fst).sum := by
  rw [totalTime, List.map_map]
  rfl

theorem runTime_of_known (known : k.tasks[t.index]? = some x) : k.runTime t = x.time := by
  rw [runTime, known]
  rfl

namespace SameClocks

variable (h : k.SameClocks k')
include h

theorem runTime : k'.runTime t = k.runTime t := by
  obtain ⟨n, h⟩ := h
  rw [runTime_eq, runTime_eq, h, List.getElem?_append]
  split
  · rfl
  · next new =>
    rw [List.getElem?_eq_none (Nat.le_of_not_lt new), List.getElem?_replicate]
    split <;> rfl

theorem totalTime : k'.totalTime = k.totalTime := by
  obtain ⟨n, h⟩ := h
  rw [totalTime_eq, totalTime_eq, h, List.map_append, List.sum_append, List.map_replicate]
  have idle (n : Nat) : (List.replicate n (0 : UInt32)).sum = 0 := by
    induction n with
    | zero => rfl
    | succ n ih => rw [List.replicate_succ, List.sum_cons, ih, UInt32.zero_add]
  rw [idle, UInt32.add_zero]

theorem start (known : k.tasks[t.index]? = some x) :
    ∃ y, k'.tasks[t.index]? = some y ∧ y.start = x.start := by
  obtain ⟨n, h⟩ := h
  have here : (k.tasks.map Task.clocks)[t.index]? = some x.clocks := by
    rw [List.getElem?_map, known]
    rfl
  have same := congrArg (·[t.index]?) h
  simp only [List.getElem?_append_left (List.getElem?_eq_some_iff.1 here).1, here,
    List.getElem?_map, Option.map_eq_some_iff] at same
  obtain ⟨y, found, same⟩ := same
  exact ⟨y, found, (Prod.mk.inj same).2⟩

end SameClocks

end Kernel

theorem Action.sameClocks {β : Type} {a : Action β} {b : β} {c c' : Core}
    (result : a.toSection c = .ok b c') (stays : a.switches → c.kernel.next = none)
    (times : a.resets = false) : c.kernel.SameClocks c'.kernel := by
  cases a with
  | switch sp =>
    rcases Section.switch_ok result with ⟨-, -, rfl⟩ | ⟨target, took⟩
    · exact .of_spares rfl
    · exact nomatch (stays rfl).symm.trans took.elected
  | resetTimes => cases times
  | addTask name priority sp stackBytes =>
    rcases Section.adding_ok result with ⟨-, rfl⟩ | ⟨id, -, added⟩
    · exact .of_spares rfl
    · refine ⟨1, List.ext_getElem? fun i => ?_⟩
      have tasks := Kernel.map_addTask (t := ⟨i⟩) added Task.spared_clocks.next
      rw [List.getElem?_map, tasks, ← List.getElem?_map, List.map_append]
      rfl
  | _ => exact .of_spares (Action.spares Task.spared_clocks result rfl rfl fun h => nomatch h)

theorem Action.current_of_stays {β : Type} {a : Action β} {b : β} {c c' : Core}
    (result : a.toSection c = .ok b c') (stays : a.switches → c.kernel.next = none)
    (starts : a.starts = false) : c'.kernel.current = c.kernel.current := by
  cases a with
  | switch sp =>
    rcases Section.switch_ok result with ⟨-, -, rfl⟩ | ⟨target, took⟩
    · rfl
    · exact nomatch (stays rfl).symm.trans took.elected
  | _ => exact Action.current_eq result rfl starts

namespace Section

variable {c c' : Core} {sp resumed : StackPointer} {target : TaskId}

theorem switch_stamps (elected : c.kernel.next = some target) (h : switch sp c = .ok resumed c') :
    c'.kernel.current = some target ∧
      ∃ x, c'.kernel.tasks[target.index]? = some x ∧ x.start = c.clock.now := by
  obtain ⟨kernel, ⟨x, found, -⟩, -⟩ := switch_eq elected h
  refine ⟨congrArg Kernel.current kernel, x, found, ?_⟩
  rw [kernel, TaskTable.getElem?_update, if_pos rfl] at found
  obtain ⟨_, -, rfl⟩ := Option.map_eq_some_iff.1 found
  rfl

theorem switch_charges {source : TaskId} {x : Task} (elected : c.kernel.next = some target)
    (h : switch sp c = .ok resumed c') (current : c.kernel.current = some source)
    (known : c.kernel.tasks[source.index]? = some x) :
    (∀ t, c'.kernel.runTime t = c.kernel.runTime t +
      if t = source then c.clock.now - x.start else 0) ∧
    c'.kernel.totalTime = c.kernel.totalTime + (c.clock.now - x.start) := by
  have times : c'.kernel.tasks.map Task.time = (TaskTable.update c.kernel.tasks source
      (Task.switchOut sp c.clock.now)).map Task.time := by
    rw [(switch_eq elected h).1, Kernel.leaving, current]
    exact TaskTable.map_update_same fun _ => rfl
  constructor
  · intro t
    rw [Kernel.runTime, ← List.getElem?_map, times, List.getElem?_map, TaskTable.getElem?_update]
    split
    · next same =>
      subst same
      rw [known, Kernel.runTime_of_known known]
      rfl
    · exact (UInt32.add_zero _).symm
  · rw [Kernel.totalTime, times, TaskTable.sum_update known, Kernel.totalTime]
    simp only [Task.switchOut]
    grind

end Section

theorem ranFor_cons {t : TaskId} {out into : Handover} {earlier : List Handover} :
    ranFor t (out :: into :: earlier) = ranFor t (into :: earlier) +
      if t = into.target then out.reading - into.reading else 0 := by
  rw [ranFor, stints, List.filter_cons]
  by_cases same : into.target = t
  · rw [if_pos (decide_eq_true same), if_pos same.symm, List.map_cons, List.sum_cons,
      UInt32.add_comm]
    rfl
  · rw [if_neg (fun h => same (of_decide_eq_true h)), if_neg (Ne.symm same), UInt32.add_zero]
    rfl

namespace System

variable {s s₁ s₂ : System} {h first last : Handover} {earlier : List Handover}

theorem Switches.performed (took : s₁.Switches h s₂) : ∃ sp resumed c',
    Section.switch sp s₁.core = .ok resumed c' ∧ s₂.core.kernel = c'.kernel ∧
      s₁.core.kernel.next = some h.target ∧ s₁.core.kernel.current = h.source ∧
      s₁.core.clock.now = h.reading := by
  obtain ⟨p, log, performs⟩ := took.performs
  rcases took.step.acts with ⟨-, same⟩ | ⟨p', c', act, kernel, more⟩
  · exact (List.cons_ne_self p s₁.log (log.symm.trans same)).elim
  obtain rfl : p' = p := (List.cons.inj (more.symm.trans log)).1
  have result := act.result
  have before := act.kernel
  obtain ⟨k, who, call, ⟨a, b⟩⟩ := p'
  cases a with
  | switch sp =>
    obtain ⟨target, elected, rfl⟩ := Option.map_eq_some_iff.1 performs
    obtain rfl : k = s₁.core.kernel := before
    exact ⟨sp, b, c', result, kernel, elected, rfl, rfl⟩
  | _ => cases performs

theorem Proceeds.sameClocks (on : s₁.Proceeds s₂) :
    s₁.core.kernel.SameClocks s₂.core.kernel ∧ s₂.core.kernel.current = s₁.core.kernel.current := by
  rcases on.step.acts with ⟨kernel, -⟩ | ⟨p, c', act, kernel, more⟩
  · rw [kernel]
    exact ⟨.of_spares rfl, rfl⟩
  obtain ⟨performs, times, starts⟩ := on.calm p more
  rw [kernel]
  have stays (is : p.outcome.action.switches) : s₁.core.kernel.next = none := by
    rw [Record.handover, if_pos is, Option.map_eq_none_iff, act.kernel] at performs
    exact performs
  exact ⟨Action.sameClocks act.result stays times, Action.current_of_stays act.result stays starts⟩

/-- How the accounts stand after the handovers, of which `last` is the latest. The task that it went
to has the processor, and what it does is not charged yet. -/
structure Charges (s : System) (first last : Handover) (earlier : List Handover) (k : Kernel) :
    Prop where
  current : k.current = some last.target
  since : ∃ x, k.tasks[last.target.index]? = some x ∧ x.start = last.reading
  linked : (last :: earlier).IsChain fun out into => out.source = some into.target
  each : ∀ t, k.runTime t = s.core.kernel.runTime t + ranFor t (last :: earlier)
  all : k.totalTime = s.core.kernel.totalTime + (last.reading - first.reading)

namespace Charges

variable {k k' : Kernel}

theorem start {s₀ : System} (begins : s₀.Switches first s) :
    s.Charges first first [] s.core.kernel := by
  obtain ⟨sp, resumed, c', result, kernel, elected, -, reading⟩ := begins.performed
  obtain ⟨current, x, known, since⟩ := Section.switch_stamps elected result
  rw [← kernel] at current known
  refine ⟨current, ⟨x, known, since.trans reading⟩, .singleton _, fun t => ?_, ?_⟩
  · exact (UInt32.add_zero _).symm
  · rw [UInt32.sub_self, UInt32.add_zero]

theorem proceeds (h : s.Charges first last earlier k) (same : k.SameClocks k')
    (current : k'.current = k.current) : s.Charges first last earlier k' where
  current := current.trans h.current
  since := by
    obtain ⟨x, known, since⟩ := h.since
    obtain ⟨y, known, same⟩ := same.start known
    exact ⟨y, known, same.trans since⟩
  linked := h.linked
  each t := same.runTime.trans (h.each t)
  all := same.totalTime.trans h.all

theorem switches (charges : s.Charges first last earlier s₁.core.kernel)
    (took : s₁.Switches h s₂) : s.Charges first h (last :: earlier) s₂.core.kernel := by
  obtain ⟨sp, resumed, c', result, kernel, elected, source, reading⟩ := took.performed
  obtain ⟨current, y, found, since⟩ := Section.switch_stamps elected result
  obtain ⟨x, known, start⟩ := charges.since
  obtain ⟨each, all⟩ := Section.switch_charges elected result charges.current known
  rw [kernel]
  refine ⟨current, ⟨y, found, since.trans reading⟩, ?_, fun t => ?_, ?_⟩
  · exact .cons_cons (source.symm.trans charges.current) charges.linked
  · rw [each t, charges.each t, ranFor_cons, start, reading, UInt32.add_assoc]
  · rw [all, charges.all, start, reading]
    grind

end Charges

def handover (s s' : System) : Option Handover :=
  match s'.log with
  | p :: log => if log.length = s.log.length then p.handover s.core.clock.now else none
  | [] => none

theorem handover_eq_none (same : s₂.log = s₁.log) : s₁.handover s₂ = none := by
  rw [handover, same]
  split
  · next p log h =>
    rw [h, if_neg]
    exact Nat.ne_of_lt (Nat.lt_succ_self log.length)
  · rfl

theorem handover_of_log {p : Record} (more : s₂.log = p :: s₁.log) :
    s₁.handover s₂ = p.handover s₁.core.clock.now := by
  rw [handover, more]
  exact if_pos rfl

theorem Switches.of_handover (step : System.Step s₁ s₂) (performs : s₁.handover s₂ = some h) :
    s₁.Switches h s₂ := by
  rcases step.acts with ⟨-, same⟩ | ⟨p, c', -, -, more⟩
  · exact nomatch (handover_eq_none same).symm.trans performs
  · exact ⟨step, p, more, (handover_of_log more).symm.trans performs⟩

theorem Spans.step {hs : List Handover} (before : s.Spans hs s₁) (step : System.Step s₁ s₂)
    (calm : ∀ p, s₂.log = p :: s₁.log →
      p.outcome.action.resets = false ∧ p.outcome.action.starts = false) :
    s.Spans ((s₁.handover s₂).toList ++ hs) s₂ := by
  cases performs : s₁.handover s₂ with
  | none =>
    exact before.proceeds
      ⟨step, fun p more => ⟨(handover_of_log more).symm.trans performs, calm p more⟩⟩
  | some h => exact before.switches (.of_handover step performs)

def handovers (s : System) : List Move → List Handover
  | [] => []
  | move :: moves => (s.after move).handovers moves ++ (s.handover (s.after move)).toList

theorem Spans.script {hs : List Handover} (before : s.Spans hs s₁) (moves : List Move)
    (calm : ∀ p ∈ (moves.foldl after s₁).log,
      p.outcome.action.resets = false ∧ p.outcome.action.starts = false) :
    s.Spans (s₁.handovers moves ++ hs) (moves.foldl after s₁) := by
  have grows {s s' : System} (run : Relation.ReflTransGen System.Step s s') : s.log ⊆ s'.log := by
    induction run with
    | refl => exact List.Subset.refl _
    | tail _ step ih => exact List.Subset.trans ih step.log_subset
  induction moves generalizing s₁ hs with
  | nil => exact before
  | cons move moves ih =>
    rw [handovers, List.append_assoc]
    refine ih ?_ calm
    rcases s₁.after_step move with same | step
    · rw [handover_eq_none (congrArg System.log same), same]
      exact before
    · refine before.step step fun p more => calm p (grows (leads _ moves) ?_)
      rw [more]
      exact List.mem_cons_self

theorem Spans.charges {s₀ s' : System} {later : List Handover} (begins : s₀.Switches first s)
    (run : s.Spans later s') : ∃ last earlier, later ++ [first] = last :: earlier ∧
      s.Charges first last earlier s'.core.kernel := by
  induction run with
  | refl => exact ⟨first, [], rfl, .start begins⟩
  | proceeds _ on ih =>
    obtain ⟨last, earlier, all, charges⟩ := ih
    exact ⟨last, earlier, all, charges.proceeds on.sameClocks.1 on.sameClocks.2⟩
  | @switches _ h _ _ _ took ih =>
    obtain ⟨last, earlier, all, charges⟩ := ih
    exact ⟨h, last :: earlier, congrArg (h :: ·) all, charges.switches took⟩

/-- From one switch on, a run charges each task with the stints that it completes, and all together
with what the clock did until the latest switch. Each switch ends the stint that the one before
began, and steps that perform none charge nobody. -/
theorem Spans.chargesTime {s₀ s' : System} {later : List Handover} (begins : s₀.Switches first s)
    (run : s.Spans later s') :
    (later ++ [first]).IsChain (fun out into => out.source = some into.target) ∧
      (∀ t, s'.core.kernel.runTime t = s.core.kernel.runTime t + ranFor t (later ++ [first])) ∧
      (s'.core.kernel.totalTime = s.core.kernel.totalTime +
        ((later.head?.getD first).reading - first.reading)) ∧
      ∀ s₁ s₂ : System, s₁.Proceeds s₂ →
        ∀ t, s₂.core.kernel.runTime t = s₁.core.kernel.runTime t := by
  obtain ⟨last, earlier, all, charges⟩ := run.charges begins
  have latest : later.head?.getD first = last := by
    have head := congrArg List.head? all
    rw [List.head?_append, List.head?_cons, List.head?_cons] at head
    cases later with
    | nil => exact Option.some.inj head
    | cons h later => exact Option.some.inj head
  rw [all, latest]
  exact ⟨charges.linked, charges.each, charges.all, fun s₁ s₂ on t => on.sameClocks.1.runTime⟩

end System

namespace Script

def elects : List Move :=
  creates "a" 2 ++ creates "b" 1 ++ calls (.thread none) .schedule

/-- The first task sleeps until the next tick; meanwhile the other one creates a third. When it
sleeps again, the tick comes before the switch, which is dropped. -/
def alternates : List Move :=
  calls (.thread (some ⟨0⟩)) (.delay 1) ++ .switches ::
    .begins (.thread (some ⟨1⟩)) (.createTask .worker 0 "c" 1 (.fixed 64)) :: goesOn 9 ++
    calls .handler .tick ++ .switches :: calls (.thread (some ⟨0⟩)) (.delay 1) ++
    calls .handler .tick ++ [.switches]

end Script

open Script in
/-- The clock wraps around in the stint of the first task. -/
theorem System.Spans.chargesTime_alternates : ∃ s₀ s s' : System, ∃ first later,
    Reachable s₀ ∧ s₀.Switches first s ∧ s.Spans later s' ∧ first.reading = 0xFFFFFFF0 ∧
    later.map Handover.reading = [62, 23] ∧ s'.core.kernel.runTime ⟨0⟩ = 39 ∧
    s'.core.kernel.runTime ⟨1⟩ = 39 ∧ s'.core.kernel.totalTime = 78 := by
  let clock : Clock := { now := 0xFFFFFFF0, step := 13 }
  let s₀ : System := { run elects with core := { (run elects).core with clock } }
  have performs : s₀.handover (s₀.after .switches) = some ⟨none, ⟨0⟩, 0xFFFFFFF0⟩ := by
    decide +kernel
  have step := (s₀.after_step .switches).resolve_left fun same =>
    nomatch (handover_eq_none (congrArg System.log same)).symm.trans performs
  have begins := Switches.of_handover step performs
  have calm : (alternates.foldl after (s₀.after .switches)).log.all (fun p =>
      !p.outcome.action.resets && !p.outcome.action.starts) := by decide +kernel
  have run := Spans.refl.script alternates fun p hp => by
    simpa using List.all_eq_true.1 calm p hp
  have handovers : (s₀.after .switches).handovers alternates ++ [] =
      [⟨some ⟨1⟩, ⟨0⟩, 62⟩, ⟨some ⟨0⟩, ⟨1⟩, 23⟩] := by decide +kernel
  rw [handovers] at run
  obtain ⟨-, each, all, -⟩ := run.chargesTime begins
  have reachable : Reachable s₀ := (reachable_run elects).step (.elapse _ _)
  refine ⟨s₀, _, _, _, _, reachable, begins, run, rfl, rfl, ?_, ?_, ?_⟩
  · rw [each]
    decide +kernel
  · rw [each]
    decide +kernel
  · rw [all]
    decide +kernel

end Rtos
