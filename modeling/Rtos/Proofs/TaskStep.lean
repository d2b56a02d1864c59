import Rtos.Proofs.Moving
import Rtos.Proofs.Waiting

/-!
# What an action does to the tasks

Scheduling looks at the priority, state, countdown and ready-list link of each task, which make up
the `roster`, and at the ready list, the current task and the task elected next. A section makes at
most one `Change` to the roster, and a decision comes right after it. `Action.taskStep` says so of
all actions but those that take a switch, add a task or start the scheduler.
-/

namespace Rtos

/-- The task without all that scheduling does not look at. -/
def Task.bare (x : Task) : Task :=
  { x with
    name := "", stackPointer := 0, stackBytes := 0, nextWaiter := none, locals := [], start := 0
    time := 0 }

/-- What a section does to the states of the tasks before it decides. -/
inductive Change
  | rest
  | tick
  | block (t : TaskId) (ticks : Int32)
  | wake (t : TaskId) (status : TaskStatus)
  | exit (t : TaskId)

def Change.apply : Change → List Task → List Task
  | rest, tasks => tasks
  | tick, tasks => tasks.map Task.tick
  | block t ticks, tasks => TaskTable.update tasks t (Task.block ticks)
  | wake t status, tasks => TaskTable.update tasks t (Task.wake status)
  | exit t, tasks => TaskTable.update tasks t ({ · with state := .exit })

def Change.on (t : TaskId) : Change → Task → Task
  | rest => id
  | tick => Task.tick
  | block t' ticks => if t = t' then Task.block ticks else id
  | wake t' status => if t = t' then Task.wake status else id
  | exit t' => if t = t' then ({ · with state := .exit }) else id

/-- Which changes come about: the current task blocks or ends itself, a sleeping one is woken. -/
def Change.Fits (k : Kernel) : Change → Prop
  | rest | tick => True
  | block t ticks => k.current = some t ∧ ticks ≠ 0
  | wake t status => ∃ x, k.tasks[t.index]? = some x ∧ x.state = .sleep ∧ status ≠ .invalid
  | exit t => k.current = some t

def Action.Makes {β : Type} : Action β → Change → Prop
  | schedule, .rest | tick, .tick | exit, .exit _ => True
  | delay n, .block _ n' | beginWait _ n, .block _ n' | resumeWait _ n _, .block _ n'
  | beginLock _ n, .block _ n' | resumeLock _ _ n _, .block _ n' => n' = n
  | wake t, .wake t' status => t' = t ∧ status = .timeout
  | post _, .wake _ status | unlock _, .wake _ status | enqueue _ _, .wake _ status => status = .ok
  | _, _ => False

/-- Whether the action adds a task or starts the scheduler. -/
def Action.recruits {β : Type} : Action β → Bool
  | addTask .. | startWith _ => true
  | _ => false

def Action.starts {β : Type} : Action β → Bool
  | startWith _ => true
  | _ => false

def Action.switches {β : Type} : Action β → Bool
  | switch _ => true
  | _ => false

namespace Kernel

variable (k : Kernel)

def roster : List Task := k.tasks.map Task.bare

def leaving (sp : StackPointer) (now : UInt32) : List Task :=
  match k.current with
  | none => k.tasks
  | some source => TaskTable.update k.tasks source (Task.switchOut sp now)

/-- The change was made and nothing decided yet. -/
structure Changes (ch : Change) (k' : Kernel) : Prop where
  roster : k'.roster = ch.apply k.roster
  ready : k'.ready = k.ready
  current : k'.current = k.current
  next : k'.next = k.next

/-- Scheduling sees no difference. -/
def Unmoved (k' : Kernel) : Prop := k.Changes .rest k'

/-- The change was made and then a decision, which nobody can win if no task is runnable. -/
structure Decides (ch : Change) (k' : Kernel) : Prop where
  roster : k'.roster = ch.apply k.roster
  ready : k'.ready = k.ready
  current : k'.current = k.current
  next : k'.next = match k'.choice with
    | none => k.next
    | some t => if k.current = some t then none else some t

/-- The task elected last became the current one. -/
structure SwitchesTo (target : TaskId) (k' : Kernel) : Prop where
  elected : k.next = some target
  roster : k'.roster = k.roster
  ready : k'.ready = k.ready
  current : k'.current = some target
  next : k'.next = none
  semaphores : k'.semaphores = k.semaphores
  mutexes : k'.mutexes = k.mutexes

/-- What a section that takes no switch and adds no task does: nothing that scheduling sees, or one
of the changes `P` and a decision. -/
inductive Turns (P : Change → Prop) (k' : Kernel) : Prop
  | rests (same : k.Unmoved k')
  | decides (ch : Change) (may : P ch) (fits : ch.Fits k) (after : k.Decides ch k')

end Kernel

/-- What an action did to the tasks. -/
inductive TaskStep {β : Type} (a : Action β) (k k' : Kernel) : Prop
  | turns (came : k.Turns a.Makes k')
  | switches (target : TaskId) (is : a.switches) (took : k.SwitchesTo target k')
  | recruits (is : a.recruits)

namespace TaskTable

variable {tasks : List Task} {t : TaskId}

@[simp] theorem next_bare : next (tasks.map Task.bare) = next tasks := by
  funext t
  simp only [next, List.getElem?_map]
  cases tasks[t.index]? <;> rfl

@[simp] theorem priority_bare : priority (tasks.map Task.bare) = priority tasks := by
  funext t
  simp only [priority, List.getElem?_map]
  cases tasks[t.index]? <;> rfl

@[simp] theorem isRunnable_bare : isRunnable (tasks.map Task.bare) = isRunnable tasks := by
  funext t
  simp only [isRunnable, List.getElem?_map]
  cases tasks[t.index]? <;> rfl

theorem update_bare {f g : Task → Task} (h : ∀ x, (f x).bare = g x.bare) :
    (update tasks t f).map Task.bare = update (tasks.map Task.bare) t g := map_update h

end TaskTable

namespace ReadyList

@[simp] theorem order_bare {tasks : List Task} {ready : Option TaskId} :
    order (tasks.map Task.bare) ready = order tasks ready := by simp [order]

@[simp] theorem choose_bare {tasks : List Task} {ready current : Option TaskId} :
    choose (tasks.map Task.bare) ready current = choose tasks ready current := by
  simp [choose, peerAfter]

theorem map_insert {γ : Type} {f : Task → γ} {tasks : List Task} {ready : Option TaskId}
    {id t : TaskId} (keeps : ∀ (x : Task) next, f { x with next } = f x) :
    (insert tasks ready id).1[t.index]?.map f = tasks[t.index]?.map f := by
  have link {tasks : List Task} {u : TaskId} {next : Option TaskId} :
      (TaskTable.update tasks u ({ · with next }))[t.index]?.map f = tasks[t.index]?.map f := by
    rw [TaskTable.getElem?_update]
    split
    · rw [Option.map_map]
      exact congrArg (Option.map · _) (funext fun x => keeps x next)
    · rfl
  rw [insert]
  dsimp only
  split
  · exact link.trans link
  · exact link

theorem length_insert {tasks : List Task} {ready : Option TaskId} {id : TaskId} :
    (insert tasks ready id).1.length = tasks.length := by
  rw [insert]
  dsimp only
  split <;> simp [TaskTable.length_update]

end ReadyList

theorem Kernel.length_addTask {k k' : Kernel} {id : TaskId} {name : String} {priority : UInt8}
    {sp : StackPointer} {stackBytes : Nat}
    (h : k.addTask name priority sp stackBytes = some (id, k')) :
    k'.tasks.length = k.tasks.length + 1 := by
  rw [(addTask_eq_some h).2.2, ReadyList.length_insert, List.length_append]
  rfl

theorem Kernel.map_addTask {γ : Type} {f : Task → γ} {k k' : Kernel} {id t : TaskId} {name : String}
    {priority : UInt8} {sp : StackPointer} {stackBytes : Nat}
    (h : k.addTask name priority sp stackBytes = some (id, k'))
    (keeps : ∀ (x : Task) next, f { x with next } = f x) : k'.tasks[t.index]?.map f =
      (k.tasks ++ [.fresh name priority sp stackBytes])[t.index]?.map f := by
  obtain ⟨-, rfl, rfl⟩ := addTask_eq_some h
  exact ReadyList.map_insert keeps

theorem Task.bare_tick (x : Task) : x.tick.bare = x.bare.tick := by
  by_cases h : x.state = .sleep ∧ 0 < x.countdown
  · by_cases h0 : x.countdown - 1 = 0 <;> simp [tick, bare, wake, h, h0]
  · simp [tick, bare, h]

namespace Change

variable {ch : Change} {tasks : List Task} {t : TaskId}

theorem getElem?_apply : (ch.apply tasks)[t.index]? = tasks[t.index]?.map (ch.on t) := by
  cases ch with
  | rest => exact Option.map_id_fun'.symm ▸ rfl
  | tick => simp [apply, on]
  | _ =>
    simp only [apply, on, TaskTable.getElem?_update]
    split <;> simp

theorem length_apply : (ch.apply tasks).length = tasks.length := by
  cases ch <;> simp [apply, TaskTable.length_update]

theorem on_keeps (x : Task) : (ch.on t x).next = x.next ∧ (ch.on t x).priority = x.priority := by
  cases ch with
  | rest => exact ⟨rfl, rfl⟩
  | tick =>
    simp only [on, Task.tick]
    split
    · split <;> exact ⟨rfl, rfl⟩
    · exact ⟨rfl, rfl⟩
  | _ =>
    simp only [on]
    split <;> exact ⟨rfl, rfl⟩

theorem next_apply : TaskTable.next (ch.apply tasks) = TaskTable.next tasks := by
  funext t
  simp only [TaskTable.next, getElem?_apply]
  cases tasks[t.index]? with
  | none => rfl
  | some x => exact (on_keeps x).1

theorem priority_apply : TaskTable.priority (ch.apply tasks) = TaskTable.priority tasks := by
  funext t
  simp only [TaskTable.priority, getElem?_apply]
  cases tasks[t.index]? with
  | none => rfl
  | some x => exact (on_keeps x).2

end Change

namespace Kernel

variable {k k₁ k' : Kernel} {ch : Change} {w : Waitable}

theorem choice_eq : k.choice = ReadyList.choose k.roster k.ready k.current := by
  simp [choice, roster]

theorem length_of_roster (h : k'.roster = ch.apply k.roster) : k'.tasks.length = k.tasks.length := by
  have size := congrArg List.length h
  rwa [Change.length_apply, roster, roster, List.length_map, List.length_map] at size

theorem Changes.of_tasks {tasks : List Task} (h : tasks.map Task.bare = ch.apply k.roster) :
    k.Changes ch { k with tasks } := ⟨h, rfl, rfl, rfl⟩

theorem Unmoved.of_same (tasks : k'.tasks = k.tasks) (ready : k'.ready = k.ready)
    (current : k'.current = k.current) (next : k'.next = k.next) : k.Unmoved k' :=
  ⟨by rw [roster, tasks]; rfl, ready, current, next⟩

theorem Unmoved.rfl : k.Unmoved k := .of_same (Eq.refl _) (Eq.refl _) (Eq.refl _) (Eq.refl _)

theorem Unmoved.trans (h₁ : k.Unmoved k₁) (h₂ : k₁.Unmoved k') : k.Unmoved k' where
  roster := h₂.roster.trans h₁.roster
  ready := h₂.ready.trans h₁.ready
  current := h₂.current.trans h₁.current
  next := h₂.next.trans h₁.next

theorem Unmoved.sleeps (h : k.Unmoved k₁) {t : TaskId} {x : Task}
    (found : k₁.tasks[t.index]? = some x) (asleep : x.state = .sleep) :
    ∃ y, k.tasks[t.index]? = some y ∧ y.state = .sleep := by
  have same : (k₁.roster)[t.index]? = (k.roster)[t.index]? := congrArg (·[t.index]?) h.roster
  simp only [roster, List.getElem?_map, found, Option.map_some] at same
  obtain ⟨y, hy, he⟩ := Option.map_eq_some_iff.1 same.symm
  exact ⟨y, hy, (congrArg Task.state he).trans asleep⟩

theorem Unmoved.fits (h : k.Unmoved k₁) (fits : ch.Fits k₁) : ch.Fits k := by
  cases ch with
  | rest => trivial
  | tick => trivial
  | block t ticks => exact ⟨h.current.symm.trans fits.1, fits.2⟩
  | wake t status =>
    obtain ⟨x, found, asleep, valid⟩ := fits
    obtain ⟨y, found, asleep⟩ := h.sleeps found asleep
    exact ⟨y, found, asleep, valid⟩
  | exit t => exact h.current.symm.trans fits

theorem Unmoved.decides (h₁ : k.Unmoved k₁) (h₂ : k₁.Decides ch k') : k.Decides ch k' where
  roster := by rw [h₂.roster, h₁.roster]; rfl
  ready := h₂.ready.trans h₁.ready
  current := h₂.current.trans h₁.current
  next := by rw [h₂.next, h₁.next, h₁.current]

theorem Decides.unmoved (h₁ : k.Decides ch k₁) (h₂ : k₁.Unmoved k') : k.Decides ch k' where
  roster := h₂.roster.trans h₁.roster
  ready := h₂.ready.trans h₁.ready
  current := h₂.current.trans h₁.current
  next := by
    rw [h₂.next, h₁.next, choice_eq, choice_eq, h₂.roster, h₂.ready, h₂.current]
    rfl

theorem Changes.decides (h₁ : k.Changes ch k₁) (h₂ : k₁.Decides .rest k') : k.Decides ch k' where
  roster := h₂.roster.trans h₁.roster
  ready := h₂.ready.trans h₁.ready
  current := h₂.current.trans h₁.current
  next := by rw [h₂.next, h₁.next, h₁.current]

theorem changes_updateTask (t : TaskId) (f : Task → Task) (h : ∀ x, (f x).bare = f x.bare)
    (hf : ch.apply k.roster = TaskTable.update k.roster t f) : k.Changes ch (k.updateTask t f) :=
  .of_tasks ((TaskTable.update_bare h).trans hf.symm)

theorem unmoved_updateTask {t : TaskId} {f : Task → Task} (h : ∀ x, (f x).bare = x.bare) :
    k.Unmoved (k.updateTask t f) := .of_tasks (TaskTable.map_update_same h)

theorem bare_leaving {sp : StackPointer} {now : UInt32} :
    (k.leaving sp now).map Task.bare = k.roster := by
  rw [leaving]
  split
  · rfl
  · exact TaskTable.map_update_same fun _ => Eq.refl _

theorem changes_countTick : k.Changes .tick k.countTick := by
  refine ⟨?_, rfl, rfl, rfl⟩
  simp [roster, countTick, Change.apply, Task.bare_tick]

theorem Changes.withWaiters {l : WaitList} {tasks : List Task}
    (h : tasks.map Task.bare = ch.apply k.roster) : k.Changes ch (k.withWaiters w l tasks) := by
  refine ⟨?_, ?_, ?_, ?_⟩ <;> cases w <;> first | exact h | rfl

theorem changes_enlisted {me : TaskId} {ticks : Int32} (waits : ticks ≠ 0) :
    k.Changes (.block me ticks) (k.enlisted w me ticks) := by
  refine Changes.withWaiters (WaitList.map_add (fun _ _ => rfl) fun x => ?_)
  rw [if_neg waits]
  rfl

theorem unmoved_unlisted {me : TaskId} : k.Unmoved (k.unlisted w me) := by
  exact Changes.withWaiters (WaitList.map_remove fun _ _ => rfl)

theorem unmoved_claimed {r : Resource} : k.Unmoved (k.claimed r) := by
  cases r <;> exact .of_same rfl rfl rfl rfl

end Kernel

namespace Section

variable {α β : Type} {c c' : Core}

/-- Scheduling sees no difference wherever the section ends in a result. -/
def Unmoves (x : Section α) : Prop := ∀ c a c', x c = .ok a c' → c.kernel.Unmoved c'.kernel

namespace Unmoves

theorem bind {x : Section α} {f : α → Section β} (hx : Unmoves x) (hf : ∀ a, Unmoves (f a)) :
    Unmoves (x >>= f) := by
  intro c b c' h
  obtain ⟨a, c₁, h₁, h₂⟩ := bind_eq_ok.1 h
  exact (hx c a c₁ h₁).trans (hf a c₁ b c' h₂)

theorem pure (a : α) : Unmoves (pure a : Section α) := by
  intro c b c' h
  obtain ⟨-, rfl⟩ := pure_eq_ok.1 h
  exact .rfl

theorem throw (e : Fault) : Unmoves (throw e : Section α) :=
  fun _ _ _ h => (throw_eq_ok.1 h).elim

theorem reading (f : Kernel → Except Fault α) : Unmoves (reading f) := by
  intro c a c' h
  obtain ⟨-, rfl⟩ := reading_eq_ok.1 h
  exact .rfl

theorem kernel : Unmoves kernel := by
  intro c k c' h
  obtain ⟨-, rfl⟩ := kernel_eq_ok.1 h
  exact .rfl

theorem note (n : Note) : Unmoves (note n) := by
  intro c u c' h
  obtain rfl := note_eq_ok.1 h
  exact .rfl

theorem increment (n : UInt32) : Unmoves (increment n) := by
  intro c m c' h
  obtain ⟨-, -, rfl⟩ := increment_eq_ok.1 h
  exact .rfl

theorem modifyKernel {f : Kernel → Kernel} (hf : ∀ k : Kernel, k.Unmoved (f k)) :
    Unmoves (modifyKernel f) := by
  intro c u c' h
  obtain rfl := modifyKernel_eq_ok.1 h
  exact hf c.kernel

theorem setSemaphore (s : SemId) (x : Semaphore) : Unmoves (setSemaphore s x) :=
  modifyKernel fun _ => .of_same rfl rfl rfl rfl

theorem setMutex (m : MutexId) (x : Mutex) : Unmoves (setMutex m x) :=
  modifyKernel fun _ => .of_same rfl rfl rfl rfl

theorem setQueue (q : QueueId) (x : Queue) : Unmoves (setQueue q x) :=
  modifyKernel fun _ => .of_same rfl rfl rfl rfl

theorem setSlot (id : MessageId) (x : Slot) : Unmoves (setSlot id x) :=
  modifyKernel fun _ => .of_same rfl rfl rfl rfl

theorem setSlots (slots : List Slot) : Unmoves (Section.modifyKernel ({ · with slots })) :=
  modifyKernel fun _ => .of_same rfl rfl rfl rfl

theorem setLocalWord (n : Nat) (value : UInt64) : Unmoves (setLocalWord n value) := by
  refine .bind (.reading _) fun me => ?_
  split
  · exact .modifyKernel fun k => Kernel.unmoved_updateTask fun _ => rfl
  · exact .throw _

theorem resetTimes : Unmoves resetTimes := by
  refine .modifyKernel fun k => ⟨?_, rfl, rfl, rfl⟩
  simp [Kernel.roster, Change.apply, Task.bare]

theorem adding {f : Kernel → Option (α × Kernel)}
    (hf : ∀ (k : Kernel) a k', f k = some (a, k') → k.Unmoved k') : Unmoves (adding f) := by
  intro c a c' h
  rcases adding_ok h with ⟨-, rfl⟩ | ⟨a, -, hk⟩
  · exact .rfl
  · exact hf _ _ _ hk

theorem noteWaitEnd (s : SemId) (v : Verdict) : Unmoves (noteWaitEnd s v) := by
  cases v with
  | claimed => exact .bind (.reading _) fun _ => .note _
  | timedOut => exact .bind (.reading _) fun _ => .note _
  | asleep t => exact .pure _

theorem dequeue (q : QueueId) : Unmoves (dequeue q) := by
  refine .bind (.reading _) fun queue => .bind .kernel fun k => ?_
  split
  · exact .pure _
  · refine .bind (.setSlots _) fun _ => .bind (.setQueue _ _) fun _ => .bind (.reading _) fun _ =>
      .bind (.setSlot _ _) fun _ => ?_
    split
    · exact .throw _
    · exact .pure _

theorem pollDriver (q : QueueId) : Unmoves (pollDriver q) := by
  refine .bind (.reading _) fun queue => ?_
  split
  · exact .pure _
  split
  · exact .bind (.note _) fun _ => .pure _
  refine .bind (.setQueue _ _) fun _ => .bind (.dequeue q) fun m => ?_
  split
  · exact .throw _
  · exact .bind (.note _) fun _ => .pure _

theorem setRoutines (q : QueueId) (put : Option PutRoutine) (control : Option ControlRoutine)
    (data : UInt64) : Unmoves (setRoutines q put control data) := by
  refine .bind (.reading _) fun queue => ?_
  split
  · exact .pure _
  · exact .bind (.setQueue _ _) fun _ => .pure _

end Unmoves

theorem schedule_decides {u : Unit} (h : schedule c = .ok u c') :
    c.kernel.Decides .rest c'.kernel := by
  have same (next : Option TaskId) (stats : SchedulerStats) :
      ({ c.kernel with next, stats } : Kernel).choice = c.kernel.choice := rfl
  cases schedule_decision h with
  | nobody stats choice kernel =>
    rw [kernel]
    exact ⟨rfl, rfl, rfl, by rw [same, choice]⟩
  | stays t stats choice runs kernel =>
    rw [kernel]
    exact ⟨rfl, rfl, rfl, by rw [same, choice]; exact (if_pos runs).symm⟩
  | elects t stats choice waits kernel =>
    rw [kernel]
    exact ⟨rfl, rfl, rfl, by rw [same, choice]; exact (if_neg waits).symm⟩

theorem tick_decides {u : Unit} (h : tick c = .ok u c') : c.kernel.Decides .tick c'.kernel := by
  exact Kernel.changes_countTick.decides (schedule_decides (tick_ok h))

theorem wake_decides {t : TaskId} {x : Task} {u : Unit} (found : c.kernel.tasks[t.index]? = some x)
    (asleep : x.state = .sleep) (h : wake t c = .ok u c') :
    c.kernel.Decides (.wake t .timeout) c'.kernel := by
  obtain ⟨y, found', woke⟩ := wake_ok h
  obtain rfl : x = y := Option.some.inj (found.symm.trans found')
  have h := (woke.resolve_right fun still => still.1 asleep).2
  have changes : c.kernel.Changes (.wake t .timeout) _ :=
    Kernel.changes_updateTask t (Task.wake .timeout) (fun _ => rfl) rfl
  exact changes.decides (schedule_decides h)

/-- The section makes at most one of the changes `P`, and decides right after it. -/
def Turns (P : Change → Prop) (x : Section α) : Prop :=
  ∀ c a c', x c = .ok a c' → c.kernel.Turns P c'.kernel

namespace Turns

variable {P Q : Change → Prop}

theorem rests {x : Section α} (hx : Unmoves x) : Turns P x :=
  fun c a c' h => .rests (hx c a c' h)

theorem imp {x : Section α} (hx : Turns P x) (hPQ : ∀ ch, P ch → Q ch) : Turns Q x := by
  intro c a c' h
  cases hx c a c' h with
  | rests same => exact .rests same
  | decides ch may fits after => exact .decides ch (hPQ ch may) fits after

theorem after {x : Section α} {f : α → Section β} (hx : Unmoves x) (hf : ∀ a, Turns P (f a)) :
    Turns P (x >>= f) := by
  intro c b c' h
  obtain ⟨a, c₁, h₁, h₂⟩ := bind_eq_ok.1 h
  have same := hx c a c₁ h₁
  cases hf a c₁ b c' h₂ with
  | rests same' => exact .rests (same.trans same')
  | decides ch may fits after => exact .decides ch may (same.fits fits) (same.decides after)

theorem before {x : Section α} {f : α → Section β} (hx : Turns P x) (hf : ∀ a, Unmoves (f a)) :
    Turns P (x >>= f) := by
  intro c b c' h
  obtain ⟨a, c₁, h₁, h₂⟩ := bind_eq_ok.1 h
  have same := hf a c₁ b c' h₂
  cases hx c a c₁ h₁ with
  | rests same' => exact .rests (same'.trans same)
  | decides ch may fits after => exact .decides ch may fits (after.unmoved same)

theorem schedule : Turns (· = .rest) schedule :=
  fun _ _ _ h => .decides .rest rfl trivial (schedule_decides h)

theorem tick : Turns (· = .tick) tick :=
  fun _ _ _ h => .decides .tick rfl trivial (tick_decides h)

theorem delay (ticks : Int32) : Turns (∃ t, · = .block t ticks) (delay ticks) := by
  intro c u c' h
  unfold Section.delay at h
  split at h
  · next waits =>
    simp only [bind_eq_ok, currentTask_eq_ok, modifyKernel_eq_ok] at h
    obtain ⟨me, c₁, ⟨current, rfl⟩, _, c₂, rfl, h⟩ := h
    have changes : c.kernel.Changes (.block me ticks) _ :=
      Kernel.changes_updateTask me (Task.block ticks) (fun _ => rfl) rfl
    exact .decides _ ⟨me, rfl⟩ ⟨current, waits⟩ (changes.decides (schedule_decides h))
  · exact .rests (Unmoves.pure () c u c' h)

theorem wake (t : TaskId) : Turns (· = .wake t .timeout) (wake t) := by
  intro c u c' h
  obtain ⟨x, c₁, known, rest⟩ := bind_eq_ok.1 h
  obtain ⟨found, rfl⟩ := task_eq_ok.1 known
  by_cases asleep : x.state = .sleep
  · exact .decides _ rfl ⟨x, found, asleep, by decide⟩ (wake_decides found asleep h)
  · rw [if_neg asleep] at rest
    exact .rests (Unmoves.pure () c u c' rest)

theorem exit : Turns (∃ t, · = .exit t) exit := by
  intro c u c' h
  simp only [Section.exit, bind_eq_ok, currentTask_eq_ok, modifyKernel_eq_ok, task_eq_ok,
    note_eq_ok] at h
  obtain ⟨me, c₁, ⟨current, rfl⟩, _, c₂, rfl, x, c₃, ⟨-, rfl⟩, _, c₄, rfl, h⟩ := h
  have changes : c.kernel.Changes (.exit me) _ :=
    Kernel.changes_updateTask me ({ · with state := .exit }) (fun _ => rfl) rfl
  exact .decides _ ⟨me, rfl⟩ current (changes.decides (schedule_decides h))

theorem wakeFirst (r : Resource) : Turns (∃ t, · = .wake t .ok) (wakeFirst r) := by
  intro c u c' h
  simp only [Section.wakeFirst, bind_eq_ok, kernel_eq_ok] at h
  obtain ⟨l, c₁, hl, k, c₂, ⟨rfl, rfl⟩, h⟩ := h
  obtain ⟨rfl, -, rfl⟩ := waiters_ok hl
  cases hw : (c.kernel.waitersOf r.waitable).wakeFirst c.kernel.tasks with
  | none =>
    rw [hw] at h
    exact .rests (Unmoves.pure () c u c' h)
  | some x =>
  obtain ⟨t, l, tasks⟩ := x
  simp only [hw, bind_eq_ok] at h
  obtain ⟨_, c₁, hs, h⟩ := h
  obtain ⟨x, found, asleep, rfl⟩ := WaitList.wakeFirst_eq_some hw
  have changes : c.kernel.Changes (.wake t .ok) c₁.kernel := by
    rw [setWaiters_ok hs]
    exact .withWaiters (TaskTable.update_bare fun _ => rfl)
  exact .decides _ ⟨t, rfl⟩ ⟨x, found, asleep, by decide⟩ (changes.decides (schedule_decides h))

theorem attempt (r : Resource) (ticks : Int32) (status : TaskStatus) :
    Turns (∃ t, · = .block t ticks) (attempt r ticks status) := by
  intro c v c' h
  simp only [Section.attempt, bind_eq_ok] at h
  obtain ⟨free, c₁, ha, h⟩ := h
  obtain ⟨rfl, -⟩ := isAvailable_ok ha
  split at h
  · simp only [bind_eq_ok, currentTask_eq_ok, pure_eq_ok] at h
    obtain ⟨me, c₁, ⟨-, rfl⟩, _, c₂, hr, -, rfl⟩ := h
    exact .rests (removeWaiter_ok hr ▸ Kernel.unmoved_unlisted)
  split at h
  · simp only [bind_eq_ok, pure_eq_ok] at h
    obtain ⟨_, c₁, hc, -, rfl⟩ := h
    exact .rests (claim_ok hc ▸ Kernel.unmoved_claimed)
  split at h
  · obtain ⟨-, rfl⟩ := pure_eq_ok.1 h
    exact .rests .rfl
  next waits =>
  simp only [bind_eq_ok, currentTask_eq_ok, pure_eq_ok] at h
  obtain ⟨me, c₁, ⟨current, rfl⟩, _, c₂, hadd, _, c₃, hs, -, rfl⟩ := h
  obtain ⟨-, -, hadd⟩ := addWaiter_ok hadd
  have changes : c.kernel.Changes (.block me ticks) c₂.kernel :=
    hadd ▸ Kernel.changes_enlisted waits
  exact .decides _ ⟨me, rfl⟩ ⟨current, waits⟩ (changes.decides (schedule_decides hs))

theorem reattempt (r : Resource) (ticks : Int32) (t : TaskId) :
    Turns (∃ t, · = .block t ticks) (reattempt r ticks t) := by
  refine .after (.reading _) fun x => ?_
  split
  · exact .rests (.pure _)
  · exact attempt r ticks _

theorem post (s : SemId) : Turns (∃ t, · = .wake t .ok) (post s) :=
  .after (.reading _) fun _ => .after (.increment _) fun _ => .after (.setSemaphore _ _) fun _ =>
    .after (.note _) fun _ => wakeFirst _

theorem beginWait (s : SemId) (ticks : Int32) :
    Turns (∃ t, · = .block t ticks) (beginWait s ticks) :=
  .after (.reading _) fun _ => .after (.note _) fun _ => .before (attempt _ _ _) fun v =>
    .bind (.noteWaitEnd s v) fun _ => .pure v

theorem resumeWait (s : SemId) (ticks : Int32) (t : TaskId) :
    Turns (∃ t, · = .block t ticks) (resumeWait s ticks t) :=
  .before (reattempt _ _ _) fun v => .bind (.noteWaitEnd s v) fun _ => .pure v

theorem beginLock (m : MutexId) (ticks : Int32) :
    Turns (∃ t, · = .block t ticks) (beginLock m ticks) := by
  refine .after (.reading _) fun me => .after (.reading _) fun x => ?_
  split
  · exact .rests (.bind (.increment _) fun _ => .bind (.setMutex _ _) fun _ => .pure _)
  · exact .before (attempt _ _ _) fun v => .pure _

theorem unlock (m : MutexId) : Turns (∃ t, · = .wake t .ok) (unlock m) := by
  refine .after (.reading _) fun me => .after (.reading _) fun x => ?_
  split
  · exact .rests (.throw _)
  split
  · exact .rests (.throw _)
  split
  · exact .after (.setMutex _ _) fun _ => wakeFirst _
  · exact .rests (.setMutex _ _)

theorem enqueue (q : QueueId) (m : Message) : Turns (∃ t, · = .wake t .ok) (enqueue q m) := by
  refine .after (.reading _) fun slot => ?_
  split
  · exact .rests (.throw _)
  split
  · exact .rests (.throw _)
  refine .after (.setSlot _ _) fun _ => .after (.reading _) fun queue => .after .kernel fun k => ?_
  refine .after (.setSlots _) fun _ => .after (.setQueue _ _) fun _ => ?_
  split
  · exact .before (post _) fun _ => .pure _
  · exact .rests (.bind (.increment _) fun _ => .bind (.setQueue _ _) fun _ =>
      .bind (.note _) fun _ => .pure _)

end Turns

/-- What a switch makes of the kernel once a task is elected. The task that is left has to exist, as
does the one to go on with, whose stack pointer is the result. -/
theorem switch_eq {sp resumed : StackPointer} {target : TaskId}
    (elected : c.kernel.next = some target) (h : switch sp c = .ok resumed c') :
    c'.kernel = { c.kernel with
      tasks := TaskTable.update (c.kernel.leaving sp c.clock.now) target
        ({ · with start := c.clock.now })
      next := none
      current := some target
      stats := c.kernel.stats.addSwitch } ∧
    (∃ x, c'.kernel.tasks[target.index]? = some x ∧ x.stackPointer = resumed) ∧
    ∀ source, c.kernel.current = some source → ∃ x, c.kernel.tasks[source.index]? = some x := by
  unfold switch at h
  obtain ⟨k, c₁, hk, h⟩ := bind_eq_ok.1 h
  obtain ⟨rfl, rfl⟩ := kernel_eq_ok.1 hk
  simp only [elected, bind_eq_ok, setKernel_eq_ok, now_eq_ok, task_eq_ok] at h
  obtain ⟨_, c₁, rfl, t, c₂, ⟨rfl, rfl⟩, x, c₃, ⟨-, rfl⟩, h⟩ := h
  cases hc : c.kernel.current with
  | none =>
    simp only [hc, bind_eq_ok, modifyKernel_eq_ok, task_eq_ok, pure_eq_ok] at h
    obtain ⟨_, c₁, rfl, y, c₂, ⟨found, rfl⟩, _, c₃, rfl, rfl, rfl⟩ := h
    rw [Kernel.leaving, hc]
    exact ⟨rfl, ⟨y, found, rfl⟩, fun source h => nomatch h⟩
  | some source =>
    simp only [hc, bind_eq_ok, modifyKernel_eq_ok, task_eq_ok, note_eq_ok, pure_eq_ok] at h
    obtain ⟨_, c₁, rfl, z, c₂, ⟨left, rfl⟩, _, c₃, rfl, _, c₄, rfl, y, c₅, ⟨found, rfl⟩, _, c₆, rfl,
      rfl, rfl⟩ := h
    rw [Kernel.leaving, hc]
    refine ⟨rfl, ⟨y, found, rfl⟩, fun _ same => ?_⟩
    obtain rfl := Option.some.inj same
    have left : (TaskTable.update c.kernel.tasks source
      (Task.switchOut sp c.clock.now))[source.index]? = some z := left
    rw [TaskTable.getElem?_update, if_pos rfl] at left
    obtain ⟨w, was, -⟩ := Option.map_eq_some_iff.1 left
    exact ⟨w, was⟩

/-- A switch takes up the task elected last. Without an election nothing happens. -/
theorem switch_ok {sp resumed : StackPointer} (h : switch sp c = .ok resumed c') :
    (c.kernel.next = none ∧ resumed = sp ∧ c' = c) ∨
      ∃ target, c.kernel.SwitchesTo target c'.kernel := by
  cases hn : c.kernel.next with
  | none =>
    unfold switch at h
    obtain ⟨k, c₁, hk, h⟩ := bind_eq_ok.1 h
    obtain ⟨rfl, rfl⟩ := kernel_eq_ok.1 hk
    simp only [hn, pure_eq_ok] at h
    exact .inl ⟨rfl, h.1.symm, h.2.symm⟩
  | some target =>
    obtain ⟨kernel, -, -⟩ := switch_eq hn h
    rw [kernel]
    have stamped : (TaskTable.update (c.kernel.leaving sp c.clock.now) target
        ({ · with start := c.clock.now })).map Task.bare =
          (c.kernel.leaving sp c.clock.now).map Task.bare :=
      TaskTable.map_update_same fun _ => rfl
    exact .inr ⟨target, hn, stamped.trans Kernel.bare_leaving, rfl, rfl, rfl, rfl, rfl⟩

end Section

open Section in
/-- What actions do to the tasks. -/
theorem Action.taskStep {β : Type} {a : Action β} {b : β} {c c' : Core}
    (h : a.toSection c = .ok b c') : TaskStep a c.kernel c'.kernel := by
  have turns {P : Change → Prop} {x : Section β} (hx : Turns P x) (eq : a.toSection = x)
      (makes : ∀ ch, P ch → a.Makes ch) : TaskStep a c.kernel c'.kernel :=
    .turns (hx.imp makes c b c' (eq ▸ h))
  have rests (hx : Unmoves a.toSection) : TaskStep a c.kernel c'.kernel :=
    .turns (.rests (hx c b c' h))
  cases a with
  | read f => exact rests (.reading f)
  | schedule => exact turns .schedule rfl (by rintro _ rfl; trivial)
  | tick => exact turns .tick rfl (by rintro _ rfl; trivial)
  | switch sp =>
    rcases switch_ok h with ⟨-, -, rfl⟩ | ⟨target, took⟩
    · exact .turns (.rests .rfl)
    · exact .switches target rfl took
  | startWith idle => exact .recruits rfl
  | delay ticks => exact turns (.delay ticks) rfl (by rintro _ ⟨t, rfl⟩; rfl)
  | wake t => exact turns (.wake t) rfl (by rintro _ rfl; exact ⟨rfl, rfl⟩)
  | exit => exact turns .exit rfl (by rintro _ ⟨t, rfl⟩; trivial)
  | setLocalWord n value => exact rests (.setLocalWord n value)
  | resetTimes => exact rests .resetTimes
  | addTask name priority sp stackBytes => exact .recruits rfl
  | addSemaphore name count =>
    refine rests (.adding fun k s k' h => ?_)
    obtain ⟨-, -, rfl⟩ := Kernel.addSemaphore_eq_some h
    exact .of_same rfl rfl rfl rfl
  | addMutex name =>
    refine rests (.adding fun k m k' h => ?_)
    obtain ⟨-, -, rfl⟩ := Kernel.addMutex_eq_some h
    exact .of_same rfl rfl rfl rfl
  | addQueue name d =>
    refine rests (.adding fun k q k' h => ?_)
    obtain ⟨-, -, rfl⟩ := Kernel.addQueue_eq_some h
    exact .of_same rfl rfl rfl rfl
  | addPool q shape =>
    refine rests (.adding fun k first k' h => ?_)
    obtain ⟨-, -, rfl⟩ := Kernel.addPool_eq_some h
    exact .of_same rfl rfl rfl rfl
  | post s => exact turns (.post s) rfl (by rintro _ ⟨t, rfl⟩; rfl)
  | beginWait s ticks => exact turns (.beginWait s ticks) rfl (by rintro _ ⟨t, rfl⟩; rfl)
  | resumeWait s ticks t => exact turns (.resumeWait s ticks t) rfl (by rintro _ ⟨t, rfl⟩; rfl)
  | beginLock m ticks => exact turns (.beginLock m ticks) rfl (by rintro _ ⟨t, rfl⟩; rfl)
  | resumeLock m l ticks t =>
    exact turns (.reattempt (.mutex m l) ticks t) rfl (by rintro _ ⟨t, rfl⟩; rfl)
  | unlock m => exact turns (.unlock m) rfl (by rintro _ ⟨t, rfl⟩; rfl)
  | enqueue q m => exact turns (.enqueue q m) rfl (by rintro _ ⟨t, rfl⟩; rfl)
  | dequeue q => exact rests (.dequeue q)
  | pollDriver q => exact rests (.pollDriver q)
  | setRoutines q put control data => exact rests (.setRoutines q put control data)

end Rtos
