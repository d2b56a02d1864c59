import Rtos.Proofs.Breach
import Rtos.Proofs.Foremost

/-!
# Sections that find what they look for

A section that looks for a task, an object or a message fails if there is none. Only a few sections
change how many there are. A section is sure, in a kernel of a given extent, if it finds all that it
looks for there: then the only faults left are those that tell of a broken kernel.
-/

namespace Rtos

/-- How many entries the tables have, and who runs. -/
structure Extent where
  tasks : Nat
  semaphores : Nat
  mutexes : Nat
  queues : Nat
  slots : Nat
  current : Option TaskId

namespace Kernel

variable {k k' : Kernel}

def extent (k : Kernel) : Extent where
  tasks := k.tasks.length
  semaphores := k.semaphores.length
  mutexes := k.mutexes.length
  queues := k.queues.length
  slots := k.slots.length
  current := k.current

theorem extent_eq (tasks : k'.tasks.length = k.tasks.length)
    (semaphores : k'.semaphores.length = k.semaphores.length)
    (mutexes : k'.mutexes.length = k.mutexes.length) (queues : k'.queues.length = k.queues.length)
    (slots : k'.slots.length = k.slots.length) (current : k'.current = k.current) :
    k'.extent = k.extent := by
  simp only [extent, tasks, semaphores, mutexes, queues, slots, current]

theorem Rescheduled.extent (h : k.Rescheduled k') : k'.extent = k.extent := by
  obtain ⟨next, stats, rfl⟩ := h
  rfl

theorem extent_updateTask {t : TaskId} {f : Task → Task} : (k.updateTask t f).extent = k.extent :=
  extent_eq (List.length_modify ..) rfl rfl rfl rfl rfl

end Kernel

def Extent.Has (e : Extent) : Waitable → Prop
  | .semaphore s => s.index < e.semaphores
  | .mutex m => m.index < e.mutexes

namespace Section

variable {α β : Type} {e : Extent} {c c' : Core} {r : Resource} {t : TaskId} {ticks : Int32}

/-- From here the section meets no fault, unless the kernel is broken. -/
def SureAt (x : Section α) (c : Core) : Prop := ∀ f c', x c = .error f c' → f.IsBreach

/-- In every kernel of that extent, which the section leaves as it is, it meets no fault, unless the
kernel is broken. -/
def Sure (e : Extent) (x : Section α) : Prop :=
  ∀ c, c.kernel.extent = e → SureAt x c ∧ ∀ a c', x c = .ok a c' → c'.kernel.extent = e

namespace SureAt

theorem bind {x : Section α} {f : α → Section β} {a : α} {c₁ : Core} (hx : x c = .ok a c₁)
    (hf : SureAt (f a) c₁) : SureAt (x >>= f) c := by
  intro fault c' h
  rcases bind_eq_error.1 h with h | ⟨a', c₂, hx', h⟩
  · cases hx.symm.trans h
  · cases hx.symm.trans hx'
    exact hf fault c' h

theorem throw {f : Fault} (breach : f.IsBreach) : SureAt (throw f : Section α) c := by
  intro f' c' h
  obtain ⟨rfl, -⟩ := throw_eq_error.1 h
  exact breach

theorem pure (a : α) : SureAt (pure a : Section α) c := fun _ _ h => (pure_eq_error.1 h).elim

theorem of_ok {x : Section α} {a : α} (h : x c = .ok a c') : SureAt x c :=
  fun _ _ h' => nomatch h.symm.trans h'

end SureAt

namespace Sure

theorem bind {x : Section α} {f : α → Section β} (hx : Sure e x) (hf : ∀ a, Sure e (f a)) :
    Sure e (x >>= f) := by
  intro c hc
  refine ⟨fun fault c' h => ?_, fun b c' h => ?_⟩
  · rcases bind_eq_error.1 h with h | ⟨a, c₁, ha, h⟩
    · exact (hx c hc).1 fault c' h
    · exact (hf a c₁ ((hx c hc).2 a c₁ ha)).1 fault c' h
  · obtain ⟨a, c₁, ha, h⟩ := bind_eq_ok.1 h
    exact (hf a c₁ ((hx c hc).2 a c₁ ha)).2 b c' h

theorem pure (a : α) : Sure e (pure a : Section α) := by
  intro c hc
  refine ⟨.pure a, fun b c' h => ?_⟩
  obtain ⟨-, rfl⟩ := pure_eq_ok.1 h
  exact hc

theorem throw {f : Fault} (breach : f.IsBreach) : Sure e (throw f : Section α) :=
  fun _ _ => ⟨.throw breach, fun _ _ h => (throw_eq_ok.1 h).elim⟩

theorem reading {f : Kernel → Except Fault α} (hf : ∀ k : Kernel, k.extent = e → ∃ a, f k = .ok a) :
    Sure e (reading f) := by
  intro c hc
  obtain ⟨a, ha⟩ := hf c.kernel hc
  refine ⟨.of_ok (reading_eq_ok.2 ⟨ha, rfl⟩), fun b c' h => ?_⟩
  obtain ⟨-, rfl⟩ := reading_eq_ok.1 h
  exact hc

theorem modifyKernel {f : Kernel → Kernel} (hf : ∀ k : Kernel, (f k).extent = k.extent) :
    Sure e (modifyKernel f) := by
  intro c hc
  refine ⟨.of_ok (modify_apply _), fun u c' h => ?_⟩
  obtain rfl := modifyKernel_eq_ok.1 h
  exact (hf c.kernel).trans hc

theorem note (n : Note) : Sure e (note n) := by
  intro c hc
  refine ⟨.of_ok (modify_apply _), fun u c' h => ?_⟩
  obtain rfl := note_eq_ok.1 h
  exact hc

theorem ite {p : Prop} [Decidable p] {x y : Section α} (hx : Sure e x) (hy : Sure e y) :
    Sure e (if p then x else y) := by
  split
  · exact hx
  · exact hy

theorem schedule : Sure e schedule := by
  intro c hc
  obtain ⟨u, c', h⟩ := schedule_total c
  exact ⟨.of_ok h, fun u c' h => (schedule_ok h).extent.trans hc⟩

theorem of_entry {γ : Type} {table : Kernel → List γ} {i n : Nat} (h : i < n)
    (size : ∀ k : Kernel, k.extent = e → (table k).length = n) :
    Sure e (Section.reading fun k => entry (table k) i) :=
  reading fun k hk => ⟨_, entry_eq_ok.2 (List.getElem?_eq_getElem (size k hk ▸ h))⟩

theorem task (h : t.index < e.tasks) : Sure e (task t) :=
  of_entry h fun _ hk => congrArg Extent.tasks hk

theorem semaphore {s : SemId} (h : s.index < e.semaphores) : Sure e (semaphore s) :=
  of_entry h fun _ hk => congrArg Extent.semaphores hk

theorem mutex {m : MutexId} (h : m.index < e.mutexes) : Sure e (mutex m) :=
  of_entry h fun _ hk => congrArg Extent.mutexes hk

theorem currentTask (h : e.current = some t) : Sure e currentTask := by
  refine reading fun k hk => ⟨t, ?_⟩
  have current : k.current = some t := (congrArg Extent.current hk).trans h
  rw [Kernel.currentTask, current]

theorem setSemaphore (s : SemId) (x : Semaphore) : Sure e (setSemaphore s x) :=
  modifyKernel fun _ => Kernel.extent_eq rfl (List.length_set ..) rfl rfl rfl rfl

theorem setMutex (m : MutexId) (x : Mutex) : Sure e (setMutex m x) :=
  modifyKernel fun _ => Kernel.extent_eq rfl rfl (List.length_set ..) rfl rfl rfl

theorem updateTask (t : TaskId) (f : Task → Task) : Sure e (Section.modifyKernel (·.updateTask t f)) :=
  modifyKernel fun _ => Kernel.extent_updateTask

theorem resetTimes : Sure e resetTimes :=
  modifyKernel fun _ => Kernel.extent_eq (List.length_map ..) rfl rfl rfl rfl rfl

theorem tick : Sure e tick :=
  .bind (modifyKernel fun _ => Kernel.extent_eq (List.length_map ..) rfl rfl rfl rfl rfl) fun _ =>
    schedule

theorem delay (current : e.current = some t) : Sure e (delay ticks) :=
  .ite (.bind (currentTask current) fun _ => .bind (updateTask _ _) fun _ => schedule) (.pure _)

theorem waiters (has : e.Has r.waitable) : Sure e (waiters r) := by
  cases r with
  | semaphore s => exact .bind (semaphore has) fun _ => .pure _
  | mutex m l => exact .bind (mutex has) fun _ => .pure _

theorem setWaiters (has : e.Has r.waitable) {l : WaitList} {tasks : List Task}
    (size : tasks.length = e.tasks) : Sure e (setWaiters r l tasks) := by
  have stores : Sure e (Section.modifyKernel ({ · with tasks })) := by
    intro c hc
    refine ⟨.of_ok (modify_apply _), fun u c' h => ?_⟩
    obtain rfl := modifyKernel_eq_ok.1 h
    have same : ({ c.kernel with tasks } : Kernel).extent = c.kernel.extent :=
      Kernel.extent_eq (size.trans (congrArg Extent.tasks hc.symm)) rfl rfl rfl rfl rfl
    exact same.trans hc
  refine .bind stores fun _ => ?_
  cases r with
  | semaphore s => exact .bind (semaphore has) fun _ => setSemaphore _ _
  | mutex m l => exact .bind (mutex has) fun _ => setMutex _ _

theorem onKernel {f : Kernel → Section α} (hf : ∀ k : Kernel, k.extent = e → Sure e (f k)) :
    Sure e (Section.kernel >>= f) := by
  intro c hc
  have apply : (Section.kernel >>= f) c = f c.kernel c := rfl
  rw [SureAt, apply]
  exact hf c.kernel hc c hc

theorem addWaiter (has : e.Has r.waitable) : Sure e (addWaiter r t ticks) :=
  .bind (waiters has) fun _ => onKernel fun _ hk =>
    .ite (throw (f := .alreadyWaiting) trivial)
      (setWaiters has (WaitList.length_add.trans (congrArg Extent.tasks hk)))

theorem removeWaiter (has : e.Has r.waitable) : Sure e (removeWaiter r t) :=
  .bind (waiters has) fun _ => onKernel fun _ hk =>
    setWaiters has (WaitList.length_remove.trans (congrArg Extent.tasks hk))

theorem wakeFirst (has : e.Has r.waitable) : Sure e (wakeFirst r) := by
  refine .bind (waiters has) fun w => onKernel fun k hk => ?_
  split
  · exact .pure _
  · next woken =>
    have size := (WaitList.length_wakeFirst woken).trans (congrArg Extent.tasks hk)
    exact .bind (setWaiters has size) fun _ => schedule

theorem isAvailable (has : e.Has r.waitable) : Sure e (isAvailable r) := by
  cases r with
  | semaphore s => exact .bind (semaphore has) fun _ => .pure _
  | mutex m l => exact .bind (mutex has) fun _ => .pure _

theorem decrement (n : UInt32) : Sure e (decrement n) := .ite (.throw trivial) (.pure _)

theorem claim (has : e.Has r.waitable) : Sure e (claim r) := by
  cases r with
  | semaphore s => exact .bind (semaphore has) fun _ => .bind (decrement _) fun _ => setSemaphore _ _
  | mutex m l => exact .bind (mutex has) fun _ => .ite (setMutex _ _) (.throw trivial)

theorem attempt (has : e.Has r.waitable) (current : e.current = some t) (status : TaskStatus) :
    Sure e (attempt r ticks status) := by
  refine .bind (isAvailable has) fun free => .ite ?_ (.ite ?_ (.ite (.pure _) ?_))
  · exact .bind (currentTask current) fun me => .bind (removeWaiter has) fun _ => .pure _
  · exact .bind (claim has) fun _ => .pure _
  · exact .bind (currentTask current) fun me => .bind (addWaiter has) fun _ =>
      .bind schedule fun _ => .pure _

theorem reattempt (has : e.Has r.waitable) (current : e.current = some t) {sleeper : TaskId}
    (known : sleeper.index < e.tasks) : Sure e (reattempt r ticks sleeper) :=
  .bind (task known) fun _ => .ite (.pure _) (attempt has current _)

theorem noteWaitEnd {s : SemId} (has : s.index < e.semaphores) (v : Verdict) :
    Sure e (noteWaitEnd s v) := by
  cases v with
  | asleep => exact .pure _
  | _ => exact .bind (semaphore has) fun _ => note _

theorem beginWait {s : SemId} (has : s.index < e.semaphores) (current : e.current = some t) :
    Sure e (beginWait s ticks) :=
  .bind (semaphore has) fun _ => .bind (note _) fun _ =>
    .bind (attempt (r := .semaphore s) has current _) fun v =>
      .bind (noteWaitEnd has v) fun _ => .pure _

theorem resumeWait {s : SemId} (has : s.index < e.semaphores) (current : e.current = some t)
    {sleeper : TaskId} (known : sleeper.index < e.tasks) : Sure e (resumeWait s ticks sleeper) :=
  .bind (reattempt (r := .semaphore s) has current known) fun v =>
    .bind (noteWaitEnd has v) fun _ => .pure _

end Sure

theorem Sure.at {x : Section α} (h : Sure c.kernel.extent x) : SureAt x c := (h c rfl).1

theorem sureAt_beginLock {m : MutexId} {x : Mutex} (found : c.kernel.mutexes[m.index]? = some x)
    (current : c.kernel.current = some t) (other : x.owner ≠ some t) :
    SureAt (beginLock m ticks) c := by
  refine .bind (currentTask_eq_ok.2 ⟨current, rfl⟩) (.bind (mutex_eq_ok.2 ⟨found, rfl⟩) ?_)
  rw [if_neg other]
  have has : c.kernel.extent.Has (Resource.mutex m t).waitable := (List.getElem?_eq_some_iff.1 found).1
  have sure : Sure c.kernel.extent (Section.attempt (.mutex m t) ticks .ok >>= fun v =>
      Pure.pure (t, v)) := .bind (.attempt has current _) fun v => .pure _
  exact sure.at

def HasRoom (k : Kernel) : Discipline → Prop
  | .task s => ∃ x, k.semaphores[s.index]? = some x ∧ x.count + 1 ≠ 0
  | .driver d => d.count + 1 ≠ 0

end Section

end Rtos
