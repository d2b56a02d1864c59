import Rtos.Proofs.TaskStep

/-!
# What sections leave of a task

Sections move a task through its states and along its lists. What does not depend on that, such as
its stack pointer or the readings of the clock that it keeps, is written by a switch alone.
-/

namespace Rtos

variable {γ : Type}

/-- `f` does not depend on how a task stands, on its links or on its words. -/
structure Task.Spared (f : Task → γ) : Prop where
  standing : ∀ (x : Task) state status countdown, f { x with state, status, countdown } = f x
  next : ∀ (x : Task) next, f { x with next } = f x
  nextWaiter : ∀ (x : Task) nextWaiter, f { x with nextWaiter } = f x
  locals : ∀ (x : Task) locals, f { x with locals } = f x

def Action.resets {β : Type} : Action β → Bool
  | resetTimes => true
  | _ => false

def Action.frame {β : Type} : Action β → Option StackPointer
  | addTask _ _ sp _ => some sp
  | _ => none

namespace Task.Spared

variable {f : Task → γ} (h : Spared f)
include h

theorem block (x : Task) (ticks : Int32) : f (x.block ticks) = f x := h.standing x _ _ _

theorem wake (x : Task) (status : TaskStatus) : f (x.wake status) = f x :=
  h.standing x .run status x.countdown

theorem exit (x : Task) : f { x with state := .exit } = f x := h.standing x .exit x.status x.countdown

theorem tick (x : Task) : f x.tick = f x := by
  rw [Task.tick]
  split
  · dsimp only
    split
    · exact (h.wake _ _).trans (h.standing x x.state x.status _)
    · exact h.standing x x.state x.status _
  · rfl

end Task.Spared

namespace Kernel

variable {f : Task → γ} {k k₁ k' : Kernel} {w : Waitable} {t : TaskId}

def Spares (f : Task → γ) (k k' : Kernel) : Prop := k'.tasks.map f = k.tasks.map f

theorem Spares.of_same (tasks : k'.tasks = k.tasks) : Spares f k k' := congrArg (List.map f) tasks

theorem Spares.trans (h₁ : Spares f k k₁) (h₂ : Spares f k₁ k') : Spares f k k' := Eq.trans h₂ h₁

theorem Rescheduled.spares (h : k.Rescheduled k') : Spares f k k' := by
  obtain ⟨next, stats, rfl⟩ := h
  exact .of_same (Eq.refl _)

theorem spares_updateTask {g : Task → Task} (same : ∀ x, f (g x) = f x) :
    Spares f k (k.updateTask t g) := TaskTable.map_update_same same

theorem Spares.withWaiters {l : WaitList} {tasks : List Task} (h : tasks.map f = k.tasks.map f) :
    Spares f k (k.withWaiters w l tasks) := by
  rw [Spares, tasks_withWaiters]
  exact h

section

variable (spared : Task.Spared f)
include spared

theorem spares_enlisted {ticks : Int32} (waits : ticks ≠ 0) : Spares f k (k.enlisted w t ticks) := by
  refine Spares.withWaiters ((WaitList.map_add (g := id) spared.nextWaiter fun x => ?_).trans ?_)
  · rw [if_neg waits]
    exact (spared.block _ ticks).trans (spared.nextWaiter x none)
  · exact List.modify_id ..

theorem spares_unlisted : Spares f k (k.unlisted w t) := by
  exact Spares.withWaiters (WaitList.map_remove spared.nextWaiter)

theorem spares_woken : Spares f k (k.woken w) := by
  rw [woken]
  cases hw : (k.waitersOf w).wakeFirst k.tasks with
  | none => exact .of_same rfl
  | some x =>
    obtain ⟨x, -, -, tasks⟩ := WaitList.wakeFirst_eq_some hw
    apply Spares.withWaiters
    rw [tasks]
    exact TaskTable.map_update_same fun x => (spared.wake _ .ok).trans (spared.nextWaiter x none)

theorem spares_release (after : (k₁.woken w).Rescheduled k') (same : k₁.tasks = k.tasks) :
    Spares f k k' := (Spares.of_same same).trans ((spares_woken spared).trans after.spares)

end

theorem spares_claimed {r : Resource} : Spares f k (k.claimed r) := by
  cases r <;> exact .of_same rfl

end Kernel

theorem Tries.spares {f : Task → γ} (spared : Task.Spared f) {k k' : Kernel} {r : Resource}
    {ticks : Int32} {resumed : Option TaskId} {v : Verdict} (h : Tries r ticks resumed k v k') :
    Kernel.Spares f k k' := by
  cases h with
  | sleepsOn => exact .of_same rfl
  | timedOut => exact Kernel.spares_unlisted spared
  | deeper => exact .of_same rfl
  | claimed => exact Kernel.spares_claimed
  | polled => exact .of_same rfl
  | asleep me _ _ _ waits _ _ _ after => exact (Kernel.spares_enlisted spared waits).trans after.spares

open Kernel in
/-- Only a switch writes what `f` sees of a task, apart from a reset of the run times. -/
theorem Action.spares {f : Task → γ} (spared : Task.Spared f) {β : Type} {a : Action β} {b : β}
    {c c' : Core} (result : a.toSection c = .ok b c') (stays : a.switches = false)
    (adds : a.frame = none) (times : a.resets → ∀ (x : Task) time, f { x with time } = f x) :
    Spares f c.kernel c'.kernel := by
  have added {α : Type} {add : Kernel → Option (α × Kernel)} {b : Option α}
      (h : Section.adding add c = .ok b c')
      (same : ∀ x k', add c.kernel = some (x, k') → k'.tasks = c.kernel.tasks) :
      Spares f c.kernel c'.kernel := by
    rcases Section.adding_ok h with ⟨-, rfl⟩ | ⟨x, -, hx⟩
    · exact .of_same rfl
    · exact .of_same (same x _ hx)
  cases a with
  | read g =>
    obtain ⟨-, rfl⟩ := Section.reading_eq_ok.1 result
    exact .of_same rfl
  | schedule => exact (Section.schedule_ok result).spares
  | tick =>
    have counted : Spares f c.kernel c.kernel.countTick := by
      rw [Spares, countTick, List.map_map]
      exact congrArg (List.map · c.kernel.tasks) (funext spared.tick)
    exact counted.trans (Section.schedule_ok (Section.tick_ok result)).spares
  | switch sp => cases stays
  | startWith idle =>
    obtain ⟨x, -, -, kernel⟩ := Section.startWith_ok result
    exact .of_same (by rw [kernel])
  | delay ticks =>
    rcases Section.delay_ok result with ⟨-, rfl⟩ | ⟨-, me, -, after⟩
    · exact .of_same rfl
    · exact (spares_updateTask fun x => spared.block x ticks).trans after.spares
  | wake t =>
    obtain ⟨x, -, ⟨-, after⟩ | ⟨-, rfl⟩⟩ := Section.wake_ok result
    · have woken : Spares f c.kernel (c.kernel.updateTask t (Task.wake .timeout)) :=
        spares_updateTask fun x => spared.wake x .timeout
      exact woken.trans (Section.schedule_ok after).spares
    · exact .of_same rfl
  | exit =>
    obtain ⟨me, -, after⟩ := Section.exit_ok result
    exact (spares_updateTask spared.exit).trans after.spares
  | setLocalWord n value =>
    obtain ⟨me, -, kernel⟩ := Section.setLocalWord_ok result
    rw [kernel]
    exact spares_updateTask fun x => spared.locals x _
  | resetTimes =>
    obtain rfl := Section.modifyKernel_eq_ok.1 (show Section.resetTimes c = .ok b c' from result)
    rw [Spares, List.map_map]
    exact congrArg (List.map · c.kernel.tasks) (funext fun x => times rfl x 0)
  | addTask => cases adds
  | addSemaphore name count =>
    refine added result fun s k' h => ?_
    rw [(Kernel.addSemaphore_eq_some h).2.2]
  | addMutex name =>
    refine added result fun m k' h => ?_
    rw [(Kernel.addMutex_eq_some h).2.2]
  | addQueue name d =>
    refine added result fun q k' h => ?_
    rw [(Kernel.addQueue_eq_some h).2.2]
  | addPool q shape =>
    refine added result fun first k' h => ?_
    rw [(Kernel.addPool_eq_some h).2.2]
  | post s =>
    obtain ⟨x, -, -, after⟩ := Section.post_ok result
    exact spares_release spared after rfl
  | beginWait s ticks => exact (Section.beginWait_ok result).spares spared
  | resumeWait s ticks t => exact (Section.resumeWait_ok result).spares spared
  | beginLock m ticks =>
    obtain ⟨me, v⟩ := b
    exact (Section.beginLock_ok result).2.spares spared
  | resumeLock m l ticks t => exact (Section.resumeLock_ok result).spares spared
  | unlock m =>
    obtain ⟨me, x, -, -, -, -, ⟨-, after⟩ | ⟨-, same⟩⟩ := Section.unlock_ok result
    · exact spares_release spared after rfl
    · exact .of_same (by rw [same]; rfl)
  | enqueue q m =>
    obtain ⟨slot, queue, -, -, -, -, ⟨s, x, -, -, -, -, after⟩ | ⟨d, -, -, same⟩⟩ :=
      Section.enqueue_ok result
    · exact spares_release spared after rfl
    · exact .of_same (by rw [same]; rfl)
  | dequeue q =>
    obtain ⟨queue, -, ⟨-, -, rfl⟩ | ⟨id, queue', slots, slot, payload, -, -, -, -, same⟩⟩ :=
      Section.dequeue_ok result
    · exact .of_same rfl
    · exact .of_same (by rw [same]; rfl)
  | pollDriver q =>
    obtain ⟨queue, -, ⟨-, same, -⟩ | ⟨d, m, c₁, -, -, -, took, same⟩⟩ := Section.pollDriver_ok result
    · exact .of_same (by rw [same])
    obtain ⟨_, -, ⟨-, none, -⟩ | ⟨id, queue', slots, slot, payload, -, -, -, -, after⟩⟩ :=
      Section.dequeue_ok took
    · cases none
    · exact .of_same (by rw [same, after]; rfl)
  | setRoutines q put control data =>
    rcases Section.setRoutines_ok result with same | ⟨queue, d, -, -, same⟩
    · exact .of_same (by rw [same])
    · exact .of_same (by rw [same]; rfl)

/-- Only a switch and the start of the scheduler make another task current. -/
theorem Action.current_eq {β : Type} {a : Action β} {b : β} {c c' : Core}
    (result : a.toSection c = .ok b c') (stays : a.switches = false) (starts : a.starts = false) :
    c'.kernel.current = c.kernel.current := by
  cases Action.taskStep result with
  | turns came =>
    cases came with
    | rests same => exact same.current
    | decides _ _ _ after => exact after.current
  | switches _ is => exact nomatch is.symm.trans stays
  | recruits is =>
    cases a with
    | startWith => cases starts
    | addTask =>
      rcases Section.adding_ok result with ⟨-, rfl⟩ | ⟨id, -, added⟩
      · rfl
      · rw [(Kernel.addTask_eq_some added).2.2]
    | _ => cases is

end Rtos
