import Rtos.Proofs.Proper
import Rtos.Proofs.Requests
import Rtos.Proofs.RoundRobin
import Rtos.Proofs.Timer

/-!
# The states of the tasks

The sections that put the current task to sleep or end it do not look at its state. On a processor it
is runnable there all the same: a thread whose task is not runnable any more leaves its masked section
with a switch due, and no thread goes on unmasked while one is. So the tasks go through their states as
they should once the scheduler is started, with an idle task that calls nothing.
-/

namespace Rtos

/-- How a section changes the state and the wake-up of task `t`. -/
inductive Record.Shifts (r : Record) (t : TaskId) :
    TaskState × TaskStatus → TaskState × TaskStatus → Prop
  /-- The current task delays itself, or waits for an object. -/
  | blocks (status : TaskStatus) (n : Int32) (own : r.caller = .thread (some t))
      (current : r.kernel.current = some t) (naps : r.outcome.action.naps = some n) (waits : n ≠ 0) :
      r.Shifts t (.run, status) (.sleep, .invalid)
  /-- The last tick of its sleep. -/
  | expires (status : TaskStatus) (is : r.outcome.action.isTick)
      (last : r.kernel.timer t = some (.sleep, status, 1)) :
      r.Shifts t (.sleep, status) (.run, .timeout)
  | forced (status : TaskStatus) (is : r.outcome.action.targets = some t) :
      r.Shifts t (.sleep, status) (.run, .timeout)
  /-- The task is the first to wait for an object that gets a unit. -/
  | served (status : TaskStatus) (w : Waitable) (is : r.outcome.action.releases r.kernel = some w)
      (first : (r.kernel.waiting w).head? = some t) : r.Shifts t (.sleep, status) (.run, .ok)
  | ends (status : TaskStatus) (own : r.caller = .thread (some t))
      (current : r.kernel.current = some t) (exits : r.outcome.action.exits) :
      r.Shifts t (.run, status) (.exit, status)

namespace Processor

def Wakes (p p' : Processor) (t : TaskId) : Prop :=
  ∃ status status', p.core.kernel.standing t = some (.sleep, status) ∧
    p'.core.kernel.standing t = some (.run, status')

/-- What a step does to the tasks: each stays as it is or moves as the section that is carried out
says. All but a tick wake one task at most. A new task is up, and so is one that becomes the current
one. -/
structure Conforms (p p' : Processor) : Prop where
  shifts : ∀ t before, p.core.kernel.standing t = some before →
    ∃ after, p'.core.kernel.standing t = some after ∧
      (after = before ∨ ∃ r, p'.log = r :: p.log ∧ r.Shifts t before after)
  wakes : ∀ r, p'.log = r :: p.log → r.outcome.action.isTick = false →
    ∀ t u, p.Wakes p' t → p.Wakes p' u → t = u
  joins : ∀ t after, p.core.kernel.standing t = none → p'.core.kernel.standing t = some after →
    after = (.run, .ok)
  enters : ∀ t, p'.core.kernel.current = some t → p.core.kernel.current ≠ some t →
    TaskTable.isRunnable p'.core.kernel.tasks t

structure Dormant (p : Processor) : Prop where
  up : ∀ t x, p.core.kernel.standing t = some x → x.1 = .run
  bare : ∀ f ∈ p.frames, ∀ t, f.strand ≠ .thread (some t)

end Processor

def Program.isAtSwitch {α : Type} : Program Unit α → Bool
  | .ask (.act a) _ => a.switches
  | _ => false

/-- The program takes a switch, as the first that it does with interrupts masked. -/
def Program.TakesSwitch {α : Type} : Program Unit α → Prop
  | .ask .mask next => ∀ saved, (next saved).isAtSwitch
  | p => p.isAtSwitch

/-- A switch that came in and has not looked at the kernel yet. -/
def Work.IsDecisive : Work → Prop
  | .serves x => x.service.isSwitch ∧ x.rest.TakesSwitch
  | .guard _ => False

namespace Processor

/-- A switch is due, or it has come in and has not looked at the kernel. -/
def Expected (p : Processor) : Prop := p.Due ∨ ∃ f ∈ p.frames, f.work.IsDecisive

/-- What holds while `idle` is the idle task of a kernel that is started. -/
structure InTurn (p : Processor) (idle : TaskId) : Prop where
  up : TaskTable.isRunnable p.core.kernel.tasks idle
  quiet : ∀ x, ⟨.thread (some idle), .serves x⟩ ∉ p.frames
  chosen : ∃ t, p.core.kernel.chosen = some t ∧ TaskTable.isRunnable p.core.kernel.tasks t
  /-- Who is elected is current, or gets the processor before any thread goes on unmasked. -/
  elected : ∀ t, p.core.kernel.next = some t →
    p.core.kernel.current = some t ∨ p.Expected
  /-- The thread of a task that is not runnable any more leaves its masked section. -/
  resting : ∀ c, p.core.kernel.current = some c → ¬ TaskTable.isRunnable p.core.kernel.tasks c →
    p.seen (.thread (some c)) → ∃ x, (stackOf (.thread (some c)) p.frames).head? = some (.serves x) ∧
      x.entry = false ∧ x.sector = .spent

inductive Acts (p : Processor) : Record → Processor → Prop
  | act {α β : Type} (later earlier : List Frame) (s : Service α) (a : Action β)
      (next : Except Fault β → Program Unit α) (ph : Phase) (entry : Bool) (sector : Sector) (b : β)
      (c : Core) (here : p.At later (.serves ⟨s, .ask (.act a) next, ph, entry, sector⟩) earlier)
      (result : a.toSection p.core = .ok b c) :
      p.Acts ⟨p.core.kernel, p.running.caller, s.kernelCall, ⟨a, b⟩⟩ { p with
        core := c
        stage := p.stage.after a
        frames := later ++
          ⟨p.running, .serves ⟨s, next (.ok b), ph.after ⟨a, b⟩, entry, .spent⟩⟩ :: earlier
        log := ⟨p.core.kernel, p.running.caller, s.kernelCall, ⟨a, b⟩⟩ :: p.log }

end Processor

theorem Program.takesSwitch {α : Type} {p : Program Unit α} (h : p.isAtSwitch) : p.TakesSwitch := by
  cases p with
  | ask r next =>
    cases r
    case act => exact h
    all_goals cases h
  | _ => cases h

section

variable {k k' : Kernel} {t : TaskId}

theorem Kernel.isRunnable_iff : TaskTable.isRunnable k.tasks t ↔
    ∃ status, k.standing t = some (.run, status) := by
  rw [TaskTable.isRunnable, standing, TaskTable.standing]
  cases k.tasks[t.index]? with
  | none =>
    constructor
    · rintro ⟨⟩
    · rintro ⟨_, ⟨⟩⟩
  | some x =>
    constructor
    · intro up
      refine ⟨x.status, ?_⟩
      rw [Option.map_some, of_decide_eq_true (p := x.state = .run) up]
    · rintro ⟨status, up⟩
      exact decide_eq_true (congrArg Prod.fst (Option.some.inj up))

theorem Kernel.standing_eq_none : k.standing t = none ↔ k.tasks.length ≤ t.index := by
  rw [standing, TaskTable.standing, Option.map_eq_none_iff, List.getElem?_eq_none_iff]

theorem Kernel.lt_of_standing {x : TaskState × TaskStatus} (h : k.standing t = some x) :
    t.index < k.tasks.length :=
  Nat.lt_of_not_le fun none => nomatch (standing_eq_none.2 none).symm.trans h

theorem Action.standing_new {β : Type} {a : Action β} {b : β} {c c' : Core}
    {x : TaskState × TaskStatus} (result : a.toSection c = .ok b c')
    (new : c.kernel.standing t = none) (added : c'.kernel.standing t = some x) : x = (.run, .ok) := by
  have grows (same : c'.kernel.tasks.length = c.kernel.tasks.length) : x = (.run, .ok) := by
    rw [Kernel.standing_eq_none, ← same, ← Kernel.standing_eq_none] at new
    exact nomatch new.symm.trans added
  cases Action.taskStep result with
  | turns came =>
    cases came with
    | rests same => exact grows (Kernel.length_of_roster same.roster)
    | decides ch may fits after => exact grows (Kernel.length_of_roster after.roster)
  | switches target _ took =>
    have roster : c'.kernel.roster = Change.rest.apply c.kernel.roster := took.roster
    exact grows (Kernel.length_of_roster roster)
  | recruits is =>
    cases a with
    | addTask name priority sp stackBytes =>
      rcases Section.adding_ok result with ⟨-, rfl⟩ | ⟨id, -, joins⟩
      · exact grows rfl
      · have stands := Kernel.map_addTask (f := fun x => (x.state, x.status)) (t := t) joins fun _ _ => rfl
        rw [List.getElem?_append_right (Kernel.standing_eq_none.1 new)] at stands
        have stands := stands.symm.trans added
        rw [List.getElem?_singleton] at stands
        split at stands
        · exact (Option.some.inj stands).symm
        · cases stands
    | startWith idle =>
      obtain ⟨_, -, -, kernel⟩ := Section.startWith_ok result
      exact grows (kernel ▸ rfl)
    | _ => cases is

theorem Record.shifts {r : Record} {c c' : Core} {before : TaskState × TaskStatus}
    (kernel : r.kernel = c.kernel) (result : r.outcome.action.toSection c = .ok r.outcome.result c')
    (order : c.kernel.WaitsInOrder) (stands : c.kernel.standing t = some before)
    (own : r.outcome.action.suspends → c.kernel.current = some t →
      r.caller = .thread (some t) ∧ before.1 = .run) :
    ∃ after, c'.kernel.standing t = some after ∧ (after = before ∨ r.Shifts t before after) := by
  have old := Kernel.lt_of_standing stands
  obtain ⟨k, caller, call, a, b⟩ := r
  obtain rfl : k = c.kernel := kernel
  obtain ⟨x, found, rfl⟩ := Option.map_eq_some_iff.1 stands
  -- The state of the task after a change is that of `x` after it.
  have changed {ch : Change} (after : c'.kernel.roster = ch.apply c.kernel.roster) :
      c'.kernel.standing t = some ((ch.on t x).state, (ch.on t x).status) := by
    rw [Kernel.standing_of_timer, Kernel.timer_of_roster after, found]
    rfl
  cases Action.timed result old with
  | keeps _ same =>
    refine ⟨_, ?_, .inl rfl⟩
    rw [Kernel.standing_of_timer, same, ← Kernel.standing_of_timer, stands]
  | ticks is after =>
    refine ⟨_, changed after, ?_⟩
    by_cases last : x.state = .sleep ∧ x.countdown = 1
    · obtain ⟨asleep, last⟩ := last
      have woken : Change.tick.on t x = { x with countdown := 0 }.wake .timeout := by
        rw [Change.on, Task.tick, if_pos ⟨asleep, last ▸ by decide⟩, last]
        rfl
      rw [woken, asleep]
      refine .inr (.expires x.status is ?_)
      rw [Kernel.timer, found, Option.map_some, Task.timer, asleep, last]
    · refine .inl ?_
      rw [Change.on, Task.tick]
      split
      · next counts =>
        have more : x.countdown - 1 ≠ 0 := fun zero => last ⟨counts.1, by
          rw [← Int32.sub_add_cancel x.countdown 1, zero]
          rfl⟩
        rw [if_neg more]
      · rfl
  | blocks n makes waits current after =>
    obtain ⟨own, up⟩ := own (Action.suspends_of_makes makes waits) current
    refine ⟨_, changed after, .inr ?_⟩
    rw [show x.state = .run from up, Change.on, if_pos rfl]
    exact .blocks x.status n own current (Action.naps_eq_some.2 makes) waits
  | wakes status makes fits after =>
    obtain ⟨y, found', asleep, -⟩ := id fits
    obtain rfl := Option.some.inj (found.symm.trans found')
    refine ⟨_, changed after, .inr ?_⟩
    rw [asleep, Change.on, if_pos rfl]
    by_cases is : a.targets = some t
    · obtain rfl : status = .timeout := by
        cases a with
        | wake u => exact makes.2
        | _ => cases is
      exact .forced x.status is
    · obtain ⟨w, releases, first⟩ := Action.first_of_wakes result order makes is fits after
      obtain rfl : status = .ok := by
        cases a with
        | post | unlock | enqueue => exact makes
        | _ => cases releases
      exact .served x.status w releases first
  | ends exits current =>
    obtain ⟨own, up⟩ := own (Action.suspends_of_exits exits) current
    refine ⟨(.exit, x.status), ?_, .inr ?_⟩
    · cases a with
      | exit =>
        obtain ⟨me, current', after⟩ := Section.exit_ok result
        obtain rfl : t = me := Option.some.inj (current.symm.trans current')
        rw [Kernel.standing_of_timer, after.timer, ← Kernel.standing_of_timer,
          Kernel.standing_updateTask, if_pos rfl, found]
        rfl
      | _ => cases exits
    · rw [show x.state = .run from up]
      exact .ends x.status own current exits

theorem Record.Shifts.unique {r : Record} {u : TaskId} {status status' status₁ status₁' : TaskStatus}
    (h : r.Shifts t (.sleep, status) (.run, status'))
    (h₁ : r.Shifts u (.sleep, status₁) (.run, status₁')) (idle : r.outcome.action.isTick = false) :
    t = u := by
  obtain ⟨k, caller, call, a, b⟩ := r
  cases h with
  | expires _ is => exact nomatch is.symm.trans idle
  | forced _ is =>
    cases h₁ with
    | expires _ is => exact nomatch is.symm.trans idle
    | forced _ is' => exact Option.some.inj (is.symm.trans is')
    | served _ w is' =>
      cases a with
      | wake => cases is'
      | _ => cases is
  | served _ w is first =>
    cases h₁ with
    | expires _ is => exact nomatch is.symm.trans idle
    | forced _ is' =>
      cases a with
      | wake => cases is
      | _ => cases is'
    | served _ w' is' first' =>
      obtain rfl := Option.some.inj (is.symm.trans is')
      exact Option.some.inj (first.symm.trans first')

end

namespace Processor

variable {p p' : Processor} {r : Record} {idle t : TaskId}

theorem Goes.cases (h : p.Goes p') : (∃ r, p.Acts r p' ∧ p'.log = r :: p.log) ∨
    p'.core.kernel = p.core.kernel ∧ p'.log = p.log ∧ p'.stage.idle = p.stage.idle := by
  obtain ⟨step, -, sane⟩ := h
  cases step with
  | act _ later earlier s a next ph entry sector b c here may result =>
    exact .inl ⟨_, .act later earlier s a next ph entry sector b c here result, rfl⟩
  | answer _ later earlier s r next ph entry masked' sector sector' b c here may answer masking =>
    exact .inr ⟨answer.kernel_eq, rfl, rfl⟩
  | fail => cases sane
  | launch _ later earlier s sp next ph entry sector idle sane stage boots here may =>
    exact .inr ⟨rfl, rfl, by rw [stage]; rfl⟩
  | _ => exact .inr ⟨rfl, rfl, rfl⟩

namespace Acts

theorem result (h : p.Acts r p') :
    r.outcome.action.toSection p.core = .ok r.outcome.result p'.core := by
  cases h with
  | act _ _ _ _ _ _ _ _ _ _ _ result => exact result

theorem kernel (h : p.Acts r p') : r.kernel = p.core.kernel := by
  cases h
  rfl

theorem caller (h : p.Acts r p') : r.caller = p.running.caller := by
  cases h
  rfl

theorem stage (h : p.Acts r p') : p'.stage = p.stage.after r.outcome.action := by
  cases h
  rfl

theorem placed (h : p.Acts r p') (sound : p.Sound) :
    (r.outcome.action.starts → p.running = .thread none) ∧
      (r.outcome.action.switches → p.running = .handler 0) := by
  cases h with
  | act later earlier s a next ph entry sector b c here result =>
    obtain ⟨-, ⟨-, ⟨switches, starts⟩, -⟩, -⟩ := here.aligned sound
    obtain ⟨boots, handles⟩ := sound.placed_at here
    exact ⟨fun is => boots (starts is), fun is => handles (switches ▸ is)⟩

theorem system (h : p.Acts r p') (proper : p.Proper) : ∃ s who, Reachable s ∧ s.core = p.core ∧
    s.Acts { r with caller := who } p'.core ∧ ∀ t, who = .thread (some t) →
      p.running = .thread (some t) ∧ ∃ x, (stackOf p.running p'.frames).head? = some (.serves x) ∧
        x.entry = false ∧ x.sector = .spent := by
  obtain ⟨sys, reachable, shows⟩ := proper.shown
  have sound := proper.runs.sound
  cases h with
  | act later earlier s a next ph entry sector b c here result =>
    obtain ⟨-, ⟨-, ⟨switches, -⟩, -⟩, -⟩ := here.aligned sound
    have placed := (sound.placed_at here).1
    cases s with
    | call call =>
      refine ⟨sys, p.running.callerOf call entry, reachable, shows.core, ?_, fun t thread => ?_⟩
      · have calls := shows.calls
        rw [here.frames, openCalls_call] at calls
        rw [← shows.core] at result ⊢
        exact .call c _ _ _ call a next ph b calls (shows.mayGoOn proper here) result
      · unfold Strand.callerOf at thread
        split at thread
        · cases thread
        next unmasked =>
        have runs := Strand.caller_thread thread
        have other : call.isStart = false :=
          Bool.eq_false_iff.2 fun is => nomatch (placed is).symm.trans runs
        rw [other, Bool.not_false, Bool.and_true] at unmasked
        refine ⟨runs, ⟨.call call, next (.ok b), ph.after ⟨a, b⟩, entry, .spent⟩, ?_,
          Bool.eq_false_iff.2 unmasked, rfl⟩
        rw [stackOf_latest here.latest]
        rfl
    | switch sp =>
      cases a with
      | switch sp =>
        refine ⟨sys, .handler, reachable, shows.core, ?_, fun t thread => nomatch thread⟩
        rw [← shows.core] at result ⊢
        exact .switch c sp b result
      | _ => cases switches

theorem own (h : p.Acts r p') (proper : p.Proper) (suspends : r.outcome.action.suspends)
    (current : p.core.kernel.current = some t) : p.running = .thread (some t) ∧
      ∃ x, (stackOf p.running p'.frames).head? = some (.serves x) ∧ x.entry = false ∧
        x.sector = .spent := by
  obtain ⟨s, who, reachable, core, acts, own⟩ := h.system proper
  exact own t (acts.own_of_suspends reachable suspends (core ▸ current))

theorem fresh (h : p.Acts r p') (sound : p.Sound) : p.masked = true ∧
    ∃ x, p.latest = some (.serves x) ∧ x.sector = .fresh := by
  cases h with
  | act later earlier s a next ph entry sector b c here result =>
    obtain ⟨masked, ⟨rfl, -⟩, -⟩ := here.aligned sound
    exact ⟨masked, _, here.latest_eq, rfl⟩

end Acts

theorem Acts.next_of_switches (h : p.Acts r p') (is : r.outcome.action.switches) :
    p'.core.kernel.next = none := by
  have result := h.result
  obtain ⟨_, _, _, a, b⟩ := r
  cases a with
  | switch sp =>
    rcases Section.switch_ok result with ⟨none, -, same⟩ | ⟨target, took⟩
    · exact same ▸ none
    · exact took.next
  | _ => cases is

theorem Acts.not_starts (h : p.Acts r p') (proper : p.Proper) (started : p.stage.idle.isSome) :
    r.outcome.action.starts = false := by
  refine Bool.eq_false_iff.2 fun starts => ?_
  have boots := (h.placed proper.runs.sound).1 starts
  rcases proper.runs.current proper.sane boots with none | ⟨idle, x, sp, -, -, launching⟩
  · exact proper.runs.sound.current proper.sane started none
  · cases h with
    | act later earlier s a next ph entry sector b c here result =>
      have same := launching.here boots here
      cases same
      obtain ⟨_, -, none⟩ := Option.map_eq_some_iff.1 launching.errand
      cases none

theorem Goes.stage (h : p.Goes p') (proper : p.Proper) (stage : p.stage.idle = some idle) :
    p'.stage.idle = some idle := by
  rcases h.cases with ⟨r, acts, -⟩ | ⟨-, -, same⟩
  · have other := acts.not_starts proper (by rw [stage]; rfl)
    rw [acts.stage, ← stage]
    obtain ⟨_, _, _, a, b⟩ := r
    cases a with
    | startWith => cases other
    | _ => rfl
  · rw [same, stage]

theorem Step.mem_frames (step : Step p p') {f : Frame} (hf : f ∈ p'.frames) :
    (∃ g ∈ p.frames, g.strand = f.strand ∧
      ∀ x, f.work = .serves x → ∃ y, g.work = .serves y) ∨
    p'.frames = f :: p.frames ∧ (f.strand = p.running ∨ f.strand = .handler 0) := by
  have old {f : Frame} (hf : f ∈ p.frames) : ∃ g ∈ p.frames, g.strand = f.strand ∧
      ∀ x, f.work = .serves x → ∃ y, g.work = .serves y := ⟨f, hf, rfl, fun x work => ⟨x, work⟩⟩
  have next {later earlier : List Frame} {x : Serving} {w : Work}
      (here : p.At later (.serves x) earlier) (hf : f ∈ later ++ ⟨p.running, w⟩ :: earlier) :
      ∃ g ∈ p.frames, g.strand = f.strand ∧ ∀ x, f.work = .serves x → ∃ y, g.work = .serves y := by
    rcases List.mem_append.1 hf with hf | hf
    · exact old (here.frames_of_gone (List.mem_append_left _ hf))
    rcases List.mem_cons.1 hf with rfl | hf
    · exact ⟨_, here.mem, rfl, fun _ _ => ⟨x, rfl⟩⟩
    · exact old (here.frames_of_gone (List.mem_append_right _ hf))
  cases step with
  | begin | guard =>
    rcases List.mem_cons.1 hf with rfl | hf
    · exact .inr ⟨rfl, .inl rfl⟩
    · exact .inl (old hf)
  | answer _ later earlier s r n ph entry masked' sector sector' b c here => exact .inl (next here hf)
  | act _ later earlier s a n ph entry sector b c here => exact .inl (next here hf)
  | fail _ later earlier s a n ph entry sector f c here => exact .inl (next here hf)
  | unroll _ later earlier s body t n ph entry sector here => exact .inl (next here hf)
  | launch _ later earlier s sp n ph entry sector idle sane stage boots here => exact .inl (next here hf)
  | finish _ later earlier s a ph entry sector here => exact .inl (old (here.frames_of_gone hf))
  | unguard _ later earlier saved here => exact .inl (old (here.frames_of_gone hf))
  | exception =>
    rcases List.mem_cons.1 hf with rfl | hf
    · exact .inr ⟨rfl, .inr rfl⟩
    · exact .inl (old hf)
  | interrupt | back | write | drop | elapse => exact .inl (old hf)

theorem Goes.current_eq_none (h : p.Goes p') (asleep : p'.core.kernel.current = none) :
    p.core.kernel.current = none := by
  rcases h.cases with ⟨r, acts, -⟩ | ⟨kernel, -⟩
  · rcases Action.current_cases acts.result p.stage with
      ⟨idle, -, current, -⟩ | ⟨-, ⟨target, -, current⟩ | same⟩
    · exact nomatch current.symm.trans asleep
    · exact nomatch current.symm.trans asleep
    · exact same ▸ asleep
  · exact kernel ▸ asleep

theorem Dormant.goes (h : p.Dormant) (proper : p.Proper) (goes : p.Goes p')
    (asleep : p.core.kernel.current = none) : p'.Dormant where
  up t after stands' := by
    rcases goes.cases with ⟨r, acts, -⟩ | ⟨kernel, -⟩
    · cases stands : p.core.kernel.standing t with
      | none => exact congrArg Prod.fst (Action.standing_new acts.result stands stands')
      | some before =>
        have up := h.up t before stands
        obtain ⟨s, who, reachable, core, -⟩ := acts.system proper
        obtain ⟨after', same, shifts⟩ := Record.shifts acts.kernel acts.result
          (core ▸ reachable.coheres.order) stands fun _ current => nomatch asleep.symm.trans current
        obtain rfl := Option.some.inj (same.symm.trans stands')
        rcases shifts with rfl | shifts
        · exact up
        · cases shifts with
          | blocks _ _ _ current | ends _ _ current =>
            rw [acts.kernel, asleep] at current
            cases current
          | _ => rfl
    · exact h.up t after (kernel ▸ stands')
  bare f hf t strand := by
    rcases goes.step.mem_frames hf with ⟨g, hg, same, -⟩ | ⟨-, runs | handles⟩
    · exact h.bare g hg t (same.trans strand)
    · rcases proper.runs.current proper.sane (runs.symm.trans strand) with current | ⟨_, _, _, none, -⟩
      · exact nomatch asleep.symm.trans current
      · cases none
    · exact nomatch handles.symm.trans strand

theorem Proper.dormant (h : p.Proper) (asleep : p.core.kernel.current = none) : p.Dormant := by
  induction h with
  | boot clock => exact ⟨fun t x stands => (nomatch stands), fun _ hf => nomatch hf⟩
  | @goes p p' before goes ih =>
    have asleep := goes.current_eq_none asleep
    exact (ih asleep).goes before goes asleep

theorem InTurn.not_mayRun (h : p.InTurn idle) (sound : p.Sound) (sane : p.failed = none)
    (runs : p.running = .thread (some t)) (current : p.core.kernel.current = some t)
    (down : ¬ TaskTable.isRunnable p.core.kernel.tasks t) (unmasked : p.masked = false) :
    ¬ p.MayRun := by
  have level := level_of_thread sane runs
  rintro (failed | handles | masked | idle)
  · rw [sane] at failed
    cases failed
  · exact Nat.lt_irrefl 0 (level ▸ handles)
  · exact nomatch masked.symm.trans unmasked
  -- Somebody else is elected, so a switch is due, or it has come in and has a handler.
  obtain ⟨u, chosen, up⟩ := h.chosen
  cases next : p.core.kernel.next with
  | none =>
    rw [Kernel.chosen, next, current] at chosen
    exact down (Option.some.inj chosen ▸ up)
  | some u' =>
    rw [Kernel.chosen, next] at chosen
    obtain rfl : u' = u := Option.some.inj chosen
    rcases h.elected u' next with same | due | ⟨⟨c, saved | x⟩, hf, decisive⟩
    · exact down (Option.some.inj (current.symm.trans same) ▸ up)
    · exact idle due
    · exact decisive
    · exact sound.not_switching sane runs ⟨_, hf, x, rfl, decisive.1⟩

theorem Goes.spent (h : p.Goes p') (sound : p.Sound) {c : Strand} {x : Serving}
    (runs : p.running = c) (runs' : p'.running = c) (masked : p.masked = true)
    (masked' : p'.masked = true) (stands : (stackOf c p.frames).head? = some (.serves x))
    (entry : x.entry = false) (spent : x.sector = .spent) :
    ∃ x, (stackOf c p'.frames).head? = some (.serves x) ∧ x.entry = false ∧ x.sector = .spent := by
  subst runs
  obtain ⟨s, rest, ph, e, sector⟩ := x
  obtain rfl : e = false := entry
  obtain rfl : sector = .spent := spent
  have guards : Guards s false rest Ends .spent := by
    obtain ⟨ws, stack⟩ := List.head?_eq_some_iff.1 stands
    exact (stack ▸ sound.here).2.1
  have closed (opens : ∀ w, p.latest = some w → w.isOpen) : False :=
    nomatch guards.outside_of_isAtRoutine (opens _ stands)
  have is {later earlier : List Frame} {w : Work} (here : p.At later w earlier) :
      w = .serves ⟨s, rest, ph, false, .spent⟩ := Option.some.inj (here.latest_eq.symm.trans stands)
  have next {later earlier : List Frame} {w : Work} (here : p.At later w earlier)
      (rest : Program Unit _) (ph : Phase) : ∃ x, (stackOf p.running (later ++
        ⟨p.running, .serves ⟨s, rest, ph, false, .spent⟩⟩ :: earlier)).head? = some (.serves x) ∧
          x.entry = false ∧ x.sector = .spent := by
    refine ⟨⟨s, rest, ph, false, .spent⟩, ?_, rfl, rfl⟩
    rw [stackOf_latest here.latest]
    rfl
  have same (stack : stackOf p.running p'.frames = stackOf p.running p.frames) :
      ∃ x, (stackOf p.running p'.frames).head? = some (.serves x) ∧ x.entry = false ∧
        x.sector = .spent := ⟨_, (congrArg List.head? stack).trans stands, rfl, rfl⟩
  obtain ⟨step, -, sane⟩ := h
  cases step with
  | begin _ call held may opens => exact (closed opens).elim
  | guard _ may opens => exact (closed opens).elim
  | answer _ later earlier s r n ph entry masked' sector sector' b c here may answer masking =>
    cases is here
    cases masking with
    | mask => cases guards.1
    | unmask saved => exact nomatch guards.2.1.symm.trans masked'
    | same => exact next here _ _
  | act _ later earlier s a n ph entry sector b c here may result =>
    cases is here
    cases guards.1
  | fail => cases sane
  | unroll _ later earlier s body t n ph entry sector here may =>
    cases is here
    exact next here _ _
  | finish _ later earlier s a ph entry sector here may =>
    cases is here
    cases guards
  | launch _ later earlier s sp n ph entry sector idle sane stage boots here may =>
    cases is here
    cases guards
  | unguard _ later earlier saved here may => cases is here
  | interrupt _ sane unmasked => exact nomatch unmasked.symm.trans masked
  | exception _ sp sane unmasked => exact nomatch unmasked.symm.trans masked
  | back | write | drop | elapse => exact same rfl

theorem Step.mayRun (step : Step p p') (unmasked : p.masked = false) (masked : p'.masked = true) :
    p.MayRun := by
  have still (same : p'.masked = p.masked) : p.MayRun :=
    nomatch unmasked.symm.trans (same.symm.trans masked)
  cases step with
  | begin _ _ _ may | answer _ _ _ _ _ _ _ _ _ _ _ _ _ _ may | unguard _ _ _ _ _ may => exact may
  | launch => cases masked
  | guard _ may => exact may
  | _ => exact still rfl

/-- A section of the thread of the current task finds the task runnable: were it not, the thread would be
about to leave its masked section. -/
theorem Acts.up (acts : p.Acts r p') (h : p.InTurn idle) (sound : p.Sound)
    (runs : p.running = .thread (some t)) (current : p.core.kernel.current = some t) :
    TaskTable.isRunnable p.core.kernel.tasks t := by
  by_contra down
  obtain ⟨masked, x, latest, fresh⟩ := acts.fresh sound
  have seen : p.seen (.thread (some t)) := Bool.and_eq_true_iff.2 ⟨masked, decide_eq_true runs.symm⟩
  obtain ⟨y, stands, -, spent⟩ := h.resting t current down seen
  rw [Processor.latest, runs] at latest
  cases latest.symm.trans stands
  cases fresh.symm.trans spent

theorem Acts.shifts (acts : p.Acts r p') (h : p.InTurn idle) (proper : p.Proper)
    {before : TaskState × TaskStatus} (stands : p.core.kernel.standing t = some before) :
    ∃ after, p'.core.kernel.standing t = some after ∧ (after = before ∨ r.Shifts t before after) := by
  obtain ⟨s, who, reachable, core, -⟩ := acts.system proper
  refine Record.shifts acts.kernel acts.result (core ▸ reachable.coheres.order) stands
    fun suspends current => ?_
  have runs := (acts.own proper suspends current).1
  refine ⟨acts.caller.trans (congrArg Strand.caller runs), ?_⟩
  obtain ⟨status, up⟩ := Kernel.isRunnable_iff.1 (acts.up h proper.runs.sound runs current)
  cases stands.symm.trans up
  rfl

theorem Proper.inLine (h : p.Proper) : p.core.kernel.InLine := by
  obtain ⟨s, reachable, shows⟩ := h.shown
  exact shows.core ▸ reachable.inLine

namespace InTurn

/-- A task that can run stays so, unless a section of its own takes the processor from it. -/
theorem stays_up (h : p.InTurn idle) (proper : p.Proper) (acts : p.Acts r p')
    (up : TaskTable.isRunnable p.core.kernel.tasks t)
    (stays : r.outcome.action.suspends → p.core.kernel.current ≠ some t) :
    TaskTable.isRunnable p'.core.kernel.tasks t := by
  obtain ⟨status, stands⟩ := Kernel.isRunnable_iff.1 up
  obtain ⟨after, stands', rfl | shifts⟩ := acts.shifts h proper stands
  · exact Kernel.isRunnable_iff.2 ⟨_, stands'⟩
  cases shifts with
  | blocks _ n _ current naps waits =>
    have makes := Action.naps_eq_some (t := t) |>.1 naps
    exact (stays (Action.suspends_of_makes makes waits) (acts.kernel ▸ current)).elim
  | ends _ _ current exits => exact (stays (Action.suspends_of_exits exits) (acts.kernel ▸ current)).elim

theorem resting_goes (h : p.InTurn idle) (proper : p.Proper) (goes : p.Goes p')
    (current' : p'.core.kernel.current = some t)
    (down' : ¬ TaskTable.isRunnable p'.core.kernel.tasks t) (seen : p'.seen (.thread (some t))) :
    ∃ x, (stackOf (.thread (some t)) p'.frames).head? = some (.serves x) ∧ x.entry = false ∧
      x.sector = .spent := by
  have sound := proper.runs.sound
  obtain ⟨masked', runs'⟩ := Bool.and_eq_true_iff.1 seen
  have runs' : p'.running = .thread (some t) := (of_decide_eq_true runs').symm
  have runs : p.running = .thread (some t) := by
    by_contra other
    exact nomatch masked'.symm.trans (goes.step.leaves sound fun same => other (same ▸ runs'))
  -- Its own section took the task off, or its thread only went on in the masked section.
  rcases goes.cases with ⟨r, acts, -⟩ | ⟨kernel, -⟩
  · have current : p.core.kernel.current = some t := by
      obtain ⟨starts, switches⟩ := acts.placed sound
      rcases Action.current_cases acts.result p.stage with
        ⟨_, is, -⟩ | ⟨-, ⟨_, is, -⟩ | same⟩
      · exact nomatch runs.symm.trans (starts is)
      · exact nomatch runs.symm.trans (switches is)
      · exact same ▸ current'
    by_cases suspends : r.outcome.action.suspends
    · exact runs ▸ (acts.own proper suspends current).2
    · have up := acts.up h sound runs current
      exact (down' (h.stays_up proper acts up fun is => (suspends is).elim)).elim
  · rw [kernel] at current' down'
    have masked : p.masked = true := by
      by_contra unmasked
      have unmasked := Bool.eq_false_iff.2 unmasked
      exact h.not_mayRun sound proper.sane runs current' down' unmasked
        (goes.step.mayRun unmasked masked')
    have seen : p.seen (.thread (some t)) :=
      Bool.and_eq_true_iff.2 ⟨masked, decide_eq_true runs.symm⟩
    obtain ⟨x, stands, entry, spent⟩ := h.resting t current' down' seen
    exact goes.spent sound runs runs' masked masked' stands entry spent

theorem idle_goes (h : p.InTurn idle) (proper : p.Proper) (stage : p.stage.idle = some idle)
    (goes : p.Goes p') : TaskTable.isRunnable p'.core.kernel.tasks idle ∧
      ∀ x, ⟨.thread (some idle), .serves x⟩ ∉ p'.frames := by
  constructor
  · rcases goes.cases with ⟨r, acts, -⟩ | ⟨kernel, -⟩
    · refine h.stays_up proper acts h.up fun suspends current => ?_
      have runs := (acts.own proper suspends current).1
      cases acts with
      | act later earlier s a next ph entry sector b c here result =>
        exact h.quiet _ (runs ▸ here.mem)
    · exact kernel ▸ h.up
  · intro x hx
    rcases goes.step.mem_frames hx with ⟨⟨c, w⟩, hg, rfl, serves⟩ | ⟨push, -⟩
    · obtain ⟨y, rfl⟩ := serves x rfl
      exact h.quiet y hg
    · have allowed := goes.allowed _ push
      obtain ⟨s | sp, rest, ph, entry, sector⟩ := x
      · exact allowed.2.2 idle stage rfl
      · have placed := (proper.goes goes).runs.sound.placed _ hx
        exact nomatch placed.2 rfl

theorem chosen_goes (h : p.InTurn idle) (proper : p.Proper) (stage : p.stage.idle = some idle)
    (goes : p.Goes p') :
    ∃ t, p'.core.kernel.chosen = some t ∧ TaskTable.isRunnable p'.core.kernel.tasks t := by
  obtain ⟨t, chosen, up⟩ := h.chosen
  have same {k : Kernel} (ext : p.core.kernel.Extends k) :
      ∃ t, k.chosen = some t ∧ TaskTable.isRunnable k.tasks t := by
    refine ⟨t, ?_, ?_⟩
    · rw [Kernel.chosen, ext.next, ext.current]
      exact chosen
    · rw [ext.runnable t (TaskTable.index_lt_of_isRunnable up)]
      exact up
  rcases goes.cases with ⟨r, acts, -⟩ | ⟨kernel, -⟩
  · have result := acts.result
    have idles := (h.idle_goes proper stage goes).1
    have inLine := (proper.goes goes).inLine
    have starts := acts.not_starts proper (by rw [stage]; rfl)
    cases Action.taskStep result with
    | turns came =>
      cases came with
      | rests unmoved => exact same unmoved.extends
      | decides ch may fits after =>
        obtain ⟨u, choice⟩ := inLine.exists_choice idles
        refine ⟨u, ?_, ReadyList.isRunnable_of_choose choice⟩
        rw [Kernel.chosen, after.next, choice, after.current]
        dsimp only
        split
        · next current => rw [Option.none_or, current]
        · rfl
    | switches target _ took =>
      -- The switch goes to the task that was chosen before, which can run as it could then.
      rw [Kernel.chosen, took.elected] at chosen
      obtain rfl : target = t := Option.some.inj chosen
      refine ⟨target, ?_, ?_⟩
      · rw [Kernel.chosen, took.next, took.current]
        rfl
      · rw [← Kernel.isRunnable_roster, took.roster, Kernel.isRunnable_roster]
        exact up
    | recruits is =>
      obtain ⟨_, _, _, a, b⟩ := r
      cases a with
      | addTask =>
        rcases Section.adding_ok result with ⟨-, kernel⟩ | ⟨id, -, added⟩
        · exact ⟨t, kernel ▸ chosen, kernel ▸ up⟩
        · exact same (Kernel.extends_addTask added)
      | startWith => cases starts
      | _ => cases is
  · rw [kernel]
    exact h.chosen

end InTurn

theorem Goes.requests_le (h : p.Goes p') : p.core.requests ≤ p'.core.requests := by
  obtain ⟨step, -, sane⟩ := h
  cases step with
  | answer _ later earlier s r next ph entry masked' sector sector' b c here may answer masking =>
    cases answer with
    | pend => exact Nat.le_succ _
    | _ => exact Nat.le_refl _
  | act _ later earlier s a next ph entry sector b c here may result => exact Action.requests_le result
  | fail => cases sane
  | _ => exact Nat.le_refl _

theorem Proper.served_le (h : p.Proper) : p.served ≤ p.core.requests := by
  induction h with
  | boot clock => exact Nat.le_refl _
  | goes before goes ih =>
    have le := Nat.le_trans ih goes.requests_le
    obtain ⟨step, -, sane⟩ := goes
    cases step with
    | exception => exact Nat.le_refl _
    | fail => cases sane
    | _ => exact le

theorem At.mem_cases {later earlier : List Frame} {w : Work} (here : p.At later w earlier) {f : Frame}
    (hf : f ∈ p.frames) : f = ⟨p.running, w⟩ ∨ f ∈ later ∨ f ∈ earlier := by
  rw [here.frames] at hf
  rcases List.mem_append.1 hf with hf | hf
  · exact .inr (.inl hf)
  · exact (List.mem_cons.1 hf).imp_right .inr

/-- A switch that is due comes in, and one that came in looks at the kernel. -/
theorem Goes.expected (h : p.Goes p') (expected : p.Expected)
    (stays : ∀ r, p'.log = r :: p.log → r.outcome.action.switches = false) : p'.Expected := by
  have grows := h.requests_le
  obtain ⟨step, -, sane⟩ := h
  have due (served : p'.served = p.served) (due : p.Due) : p'.Expected :=
    .inl (served.trans_lt (Nat.lt_of_lt_of_le due grows))
  rcases expected with is | ⟨f, hf, decisive⟩
  · cases step with
    | exception =>
      exact .inr ⟨_, List.mem_cons_self, rfl, fun _ => rfl⟩
    | _ => exact due rfl is
  -- The other frames stay, and the one that goes on does not look at the kernel.
  have next {later earlier : List Frame} {w w' : Work} (here : p.At later w earlier)
      (goesOn : w.IsDecisive → w'.IsDecisive) :
      ∃ f ∈ later ++ ⟨p.running, w'⟩ :: earlier, f.work.IsDecisive := by
    rcases here.mem_cases hf with rfl | hf | hf
    · exact ⟨_, List.mem_append_right _ List.mem_cons_self, goesOn decisive⟩
    · exact ⟨f, List.mem_append_left _ hf, decisive⟩
    · exact ⟨f, List.mem_append_right _ (List.mem_cons_of_mem _ hf), decisive⟩
  have gone {later earlier : List Frame} {w : Work} (here : p.At later w earlier)
      (other : ¬ w.IsDecisive) : ∃ f ∈ later ++ earlier, f.work.IsDecisive := by
    rcases here.mem_cases hf with rfl | hf | hf
    · exact (other decisive).elim
    · exact ⟨f, List.mem_append_left _ hf, decisive⟩
    · exact ⟨f, List.mem_append_right _ hf, decisive⟩
  refine .inr ?_
  cases step with
  | begin | guard | exception => exact ⟨f, List.mem_cons_of_mem _ hf, decisive⟩
  | answer _ later earlier s r n ph entry masked' sector sector' b c here may answer masking =>
    refine next here fun ⟨switches, takes⟩ => ⟨switches, ?_⟩
    cases answer with
    | mask => exact Program.takesSwitch (takes _)
    | _ => cases takes
  | act _ later earlier s a n ph entry sector b c here may result =>
    refine next here fun ⟨_, takes⟩ => ?_
    exact nomatch (stays _ rfl).symm.trans takes
  | fail => cases sane
  | unroll _ later earlier s body t n ph entry sector here may =>
    exact next here fun ⟨_, takes⟩ => nomatch takes
  | finish _ later earlier s a ph entry sector here may =>
    exact gone here fun ⟨_, takes⟩ => nomatch takes
  | launch _ later earlier s sp n ph entry sector idle sane stage boots here may =>
    exact next here fun ⟨_, takes⟩ => nomatch takes
  | unguard _ later earlier saved here may => exact gone here id
  | interrupt | back | write | drop | elapse => exact ⟨f, hf, decisive⟩

namespace InTurn

theorem elected_goes (h : p.InTurn idle) (proper : p.Proper) (stage : p.stage.idle = some idle)
    (goes : p.Goes p') (next' : p'.core.kernel.next = some t) :
    p'.core.kernel.current = some t ∨ p'.Expected := by
  rcases goes.cases with ⟨r, acts, log⟩ | ⟨kernel, log, -⟩
  · have result := acts.result
    have starts := acts.not_starts proper (by rw [stage]; rfl)
    by_cases switches : r.outcome.action.switches
    · exact nomatch (acts.next_of_switches switches).symm.trans next'
    have stays : r.outcome.action.switches = false := Bool.eq_false_iff.2 switches
    have current : p'.core.kernel.current = p.core.kernel.current :=
      Action.current_eq result stays starts
    have asks := Action.asks result starts
    have served : p'.served = p.served := by cases acts; rfl
    rcases asks.elects with more | same
    · refine .inr (.inl ?_)
      exact served.trans_lt (Nat.lt_of_le_of_lt proper.served_le more)
    · rcases h.elected t (same t next') with is | expected
      · exact .inl (current.trans is)
      · refine .inr (goes.expected expected fun r' log' => ?_)
        cases log.symm.trans log'
        exact stays
  · rw [kernel] at next' ⊢
    refine (h.elected t next').imp_right fun expected => goes.expected expected fun r log' => ?_
    exact absurd (log'.symm.trans log) (List.cons_ne_self r p.log)

theorem goes (h : p.InTurn idle) (proper : p.Proper) (stage : p.stage.idle = some idle)
    (goes : p.Goes p') : p'.InTurn idle where
  up := (h.idle_goes proper stage goes).1
  quiet := (h.idle_goes proper stage goes).2
  chosen := h.chosen_goes proper stage goes
  elected _ := h.elected_goes proper stage goes
  resting _ := h.resting_goes proper goes

end InTurn

theorem Goes.inTurn (h : p.Goes p') (proper : p.Proper) (before : p.stage.idle = none)
    (stage : p'.stage.idle = some idle) : p'.InTurn idle := by
  rcases h.cases with ⟨r, acts, -⟩ | ⟨-, -, same⟩
  · obtain ⟨boots, -⟩ := acts.placed proper.runs.sound
    have result := acts.result
    have after := acts.stage
    have mem := fun f => h.step.mem_frames (f := f)
    obtain ⟨_, _, _, a, b⟩ := r
    cases a with
    | startWith t =>
      obtain rfl : t = idle := by
        rw [after] at stage
        exact Option.some.inj stage
      have boots := boots rfl
      have dormant : p.Dormant := by
        rcases proper.runs.current proper.sane boots with none | ⟨_, _, _, -, stage, -⟩
        · exact proper.dormant none
        · rw [stage] at before
          cases before
      obtain ⟨x, found, -, kernel⟩ := Section.startWith_ok result
      have up : TaskTable.isRunnable p'.core.kernel.tasks t := by
        have stands : p.core.kernel.standing t = some (x.state, x.status) :=
          congrArg (Option.map fun x : Task => (x.state, x.status)) found
        have run : x.state = .run := dormant.up t _ stands
        rw [kernel]
        exact Kernel.isRunnable_iff.2 ⟨x.status, run ▸ stands⟩
      have current : p'.core.kernel.current = some t := by rw [kernel]
      refine ⟨up, fun x hx => ?_, ⟨t, by rw [kernel]; rfl, up⟩, fun u next => .inl ?_,
        fun u current' down => ?_⟩
      · rcases mem _ hx with ⟨g, hg, same, -⟩ | ⟨-, runs | handles⟩
        · exact dormant.bare g hg t same
        · exact nomatch boots.symm.trans runs.symm
        · cases handles
      · rw [kernel] at next ⊢
        exact next
      · obtain rfl := Option.some.inj (current.symm.trans current')
        exact (down up).elim
    | _ =>
      rw [after] at stage
      exact nomatch before.symm.trans stage
  · exact nomatch before.symm.trans (same.symm.trans stage)

theorem Proper.inTurn (h : p.Proper) (stage : p.stage.idle = some idle) : p.InTurn idle := by
  induction h with
  | boot clock => cases stage
  | @goes p p' before goes ih =>
    cases was : p.stage.idle with
    | none => exact goes.inTurn before was stage
    | some first =>
      obtain rfl := Option.some.inj ((goes.stage before was).symm.trans stage)
      exact (ih was).goes before was goes

theorem InTurn.conforms_goes (h : p.InTurn idle) (proper : p.Proper) (stage : p.stage.idle = some idle)
    (goes : p.Goes p') : p.Conforms p' where
  shifts t before stands := by
    rcases goes.cases with ⟨r, acts, log⟩ | ⟨kernel, -⟩
    · obtain ⟨after, stands', shifts⟩ := acts.shifts h proper stands
      exact ⟨after, stands', shifts.imp_right fun shifts => ⟨r, log, shifts⟩⟩
    · exact ⟨before, kernel ▸ stands, .inl rfl⟩
  wakes r log idles := by
    rcases goes.cases with ⟨r', acts, log'⟩ | ⟨-, same, -⟩
    · cases log.symm.trans log'
      have woken {t : TaskId} (wakes : p.Wakes p' t) :
          ∃ status status', r.Shifts t (.sleep, status) (.run, status') := by
        obtain ⟨status, status', asleep, up⟩ := wakes
        obtain ⟨after, stands, shifts⟩ := acts.shifts h proper asleep
        obtain rfl := Option.some.inj (stands.symm.trans up)
        rcases shifts with same | shifts
        · cases same
        · exact ⟨status, status', shifts⟩
      intro t u ht hu
      obtain ⟨_, _, shifts⟩ := woken ht
      obtain ⟨_, _, shifts'⟩ := woken hu
      exact shifts.unique shifts' idles
    · exact absurd (log.symm.trans same) (List.cons_ne_self r p.log)
  joins t after new added := by
    rcases goes.cases with ⟨r, acts, -⟩ | ⟨kernel, -⟩
    · exact Action.standing_new acts.result new added
    · rw [kernel, new] at added
      cases added
  enters t current' other := by
    rcases goes.cases with ⟨r, acts, -⟩ | ⟨kernel, -⟩
    · obtain ⟨u, chosen, up⟩ := h.chosen_goes proper stage goes
      rcases Action.current_cases acts.result p.stage with
        ⟨_, starts, -⟩ | ⟨-, ⟨_, switches, -⟩ | same⟩
      · exact nomatch (acts.not_starts proper (by rw [stage]; rfl)).symm.trans starts
      · rw [Kernel.chosen, acts.next_of_switches switches, current'] at chosen
        exact Option.some.inj chosen ▸ up
      · exact (other (same ▸ current')).elim
    · exact (other (kernel ▸ current')).elim

theorem Conforms.ended (h : p.Conforms p') {status : TaskStatus}
    (ended : p.core.kernel.standing t = some (.exit, status)) :
    p'.core.kernel.standing t = some (.exit, status) ∧
      (p.core.kernel.current ≠ some t → p'.core.kernel.current ≠ some t) := by
  obtain ⟨after, stands, rfl | ⟨r, -, shifts⟩⟩ := h.shifts t _ ended
  · refine ⟨stands, fun other current => ?_⟩
    obtain ⟨_, up⟩ := Kernel.isRunnable_iff.1 (h.enters t current other)
    cases stands.symm.trans up
  · cases shifts

/-- In every run that goes on from a started kernel, each step moves tasks from state to state only as it
should, and a task that has ended stays so and does not get the processor again. -/
theorem Proper.conforms (h : p.Proper) (started : p.stage.idle.isSome)
    (run : Relation.ReflTransGen Goes p p') : (∀ p'', p'.Goes p'' → p'.Conforms p'') ∧
      ∀ t status, p.core.kernel.standing t = some (.exit, status) →
        p'.core.kernel.standing t = some (.exit, status) ∧
          (p.core.kernel.current ≠ some t → p'.core.kernel.current ≠ some t) := by
  obtain ⟨idle, stage⟩ := Option.isSome_iff_exists.1 started
  have conforms {p p' : Processor} (h : p.Proper) (stage : p.stage.idle = some idle) (goes : p.Goes p') :
      p.Conforms p' := (h.inTurn stage).conforms_goes h stage goes
  suffices all : p'.Proper ∧ p'.stage.idle = some idle ∧
      ∀ t status, p.core.kernel.standing t = some (.exit, status) →
        p'.core.kernel.standing t = some (.exit, status) ∧
          (p.core.kernel.current ≠ some t → p'.core.kernel.current ≠ some t) from
    ⟨fun _ => conforms all.1 all.2.1, all.2.2⟩
  induction run with
  | refl => exact ⟨h, stage, fun t status ended => ⟨ended, id⟩⟩
  | tail _ goes ih =>
    obtain ⟨proper, stage, ih⟩ := ih
    refine ⟨proper.goes goes, goes.stage proper stage, fun t status ended => ?_⟩
    obtain ⟨ended, absent⟩ := ih t status ended
    obtain ⟨ended', absent'⟩ := (conforms proper stage goes).ended ended
    exact ⟨ended', absent' ∘ absent⟩

open Rtos.Processor.Move in
/-- Task `a` delays itself by one tick, and the less urgent task `b` ends itself. -/
def delaysAndEnds : List Move :=
  creates "a" 2 100 ++ creates "b" 1 150 ++ starts 200 ++ handles .tick ++ switches 208 ++
    calls (.delay 1) ++ switches 108 ++ calls .exit ++ switches 158

open Rtos.Processor.Move in
def wakesUp : List Move := handles .tick ++ switches 216

/-- Task `a` is woken by the tick, and task `b` stays where it is. -/
theorem conforms_wakesUp :
    ((run delaysAndEnds).core.kernel.standing ⟨0⟩ = some (.sleep, .invalid) ∧
      (run delaysAndEnds).core.kernel.standing ⟨1⟩ = some (.exit, .ok) ∧
      (wakesUp.foldl after (run delaysAndEnds)).core.kernel.current = some ⟨0⟩ ∧
      (wakesUp.foldl after (run delaysAndEnds)).core.kernel.standing ⟨0⟩ = some (.run, .timeout)) ∧
    (∀ p'', (wakesUp.foldl after (run delaysAndEnds)).Goes p'' →
      (wakesUp.foldl after (run delaysAndEnds)).Conforms p'') ∧
      ∀ t status, (run delaysAndEnds).core.kernel.standing t = some (.exit, status) →
        (wakesUp.foldl after (run delaysAndEnds)).core.kernel.standing t = some (.exit, status) ∧
          ((run delaysAndEnds).core.kernel.current ≠ some t →
            (wakesUp.foldl after (run delaysAndEnds)).core.kernel.current ≠ some t) :=
  ⟨by decide +kernel, (proper_run delaysAndEnds).conforms (by decide +kernel)
    (goes_foldl (proper_run delaysAndEnds).sane wakesUp)⟩

end Processor

end Rtos
