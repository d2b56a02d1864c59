import Rtos.Proofs.Section

/-!
# What sections do to the kernel

The effect of the sections that decide, wait, post and unlock, as functions and relations of the
kernel alone. A decision changes nothing but the task elected next and the statistics, so
`Rescheduled` leaves all else in place; what a try for an object does is told by `Tries`.
-/

namespace Rtos

/-- What a task can wait for, whoever it is. -/
inductive Waitable
  | semaphore (s : SemId)
  | mutex (m : MutexId)
  deriving DecidableEq

def Resource.waitable : Resource → Waitable
  | .semaphore s => .semaphore s
  | .mutex m _ => .mutex m

def TaskTable.standing (tasks : List Task) (t : TaskId) : Option (TaskState × TaskStatus) :=
  tasks[t.index]?.map fun x => (x.state, x.status)

namespace Kernel

variable (k : Kernel)

/-- A decision was made in `k`, and `k'` is what it led to. -/
def Rescheduled (k k' : Kernel) : Prop := ∃ next stats, k' = { k with next, stats }

theorem Rescheduled.rfl {k : Kernel} : Rescheduled k k := ⟨k.next, k.stats, by cases k; rfl⟩

def waitersOf : Waitable → WaitList
  | .semaphore s => (k.semaphores[s.index]?.map Semaphore.waiters).getD {}
  | .mutex m => (k.mutexes[m.index]?.map Mutex.waiters).getD {}

def waiting (w : Waitable) : List TaskId := (k.waitersOf w).toList k.tasks

def Has : Waitable → Prop
  | .semaphore s => s.index < k.semaphores.length
  | .mutex m => m.index < k.mutexes.length

/-- How many tasks can claim the object: a free mutex is one unit. -/
def units : Waitable → Nat
  | .semaphore s => (k.semaphores[s.index]?.map (·.count.toNat)).getD 0
  | .mutex m => (k.mutexes[m.index]?.map fun x => if x.depth = 0 then 1 else 0).getD 0

def standing (t : TaskId) : Option (TaskState × TaskStatus) := TaskTable.standing k.tasks t

def status (t : TaskId) : Option TaskStatus := (k.standing t).map Prod.snd

/-- Whether a task that slept goes on because of a post or an unlock. A call that has not slept yet
is in time, too. -/
def InTime (resumed : Option TaskId) : Prop := ∀ t, resumed = some t → k.status t = some .ok

def withWaiters (w : Waitable) (l : WaitList) (tasks : List Task) : Kernel :=
  match w with
  | .semaphore s =>
    { k with tasks, semaphores := k.semaphores.modify s.index ({ · with waiters := l }) }
  | .mutex m => { k with tasks, mutexes := k.mutexes.modify m.index ({ · with waiters := l }) }

def enlisted (w : Waitable) (id : TaskId) (ticks : Int32) : Kernel :=
  k.withWaiters w ((k.waitersOf w).add k.tasks id ticks).1
    ((k.waitersOf w).add k.tasks id ticks).2

def unlisted (w : Waitable) (id : TaskId) : Kernel :=
  k.withWaiters w ((k.waitersOf w).remove k.tasks id).1 ((k.waitersOf w).remove k.tasks id).2

def woken (w : Waitable) : Kernel :=
  match (k.waitersOf w).wakeFirst k.tasks with
  | none => k
  | some (_, l, tasks) => k.withWaiters w l tasks

def claimed : Resource → Kernel
  | .semaphore s => { k with
      semaphores := k.semaphores.modify s.index fun x => { x with count := x.count - 1 } }
  | .mutex m locker => { k with
      mutexes := k.mutexes.modify m.index ({ · with owner := some locker, depth := 1 }) }

def posted (s : SemId) : Kernel := { k with
  semaphores := k.semaphores.modify s.index fun x => { x with count := x.count + 1 } }

def freed (m : MutexId) : Kernel := { k with
  mutexes := k.mutexes.modify m.index ({ · with owner := none, depth := 0 }) }

def withDepth (m : MutexId) (depth : UInt32) : Kernel := { k with
  mutexes := k.mutexes.modify m.index ({ · with depth }) }

end Kernel

namespace Kernel

variable {k k' : Kernel} {name : String}

theorem addTask_eq_some {priority : UInt8} {sp : StackPointer} {stackBytes : Nat} {t : TaskId}
    (h : k.addTask name priority sp stackBytes = some (t, k')) :
    ¬ k.taskTableIsFull ∧ t = ⟨k.tasks.length⟩ ∧ k' = { k with
      tasks := (ReadyList.insert (k.tasks ++ [.fresh name priority sp stackBytes]) k.ready t).1
      ready := (ReadyList.insert (k.tasks ++ [.fresh name priority sp stackBytes]) k.ready t).2 } := by
  rw [addTask] at h
  split at h <;> cases h
  exact ⟨‹_›, Eq.refl _, Eq.refl _⟩

theorem addTask_eq_none {priority : UInt8} {sp : StackPointer} {stackBytes : Nat}
    (h : k.addTask name priority sp stackBytes = none) : k.taskTableIsFull := by
  rw [addTask] at h
  split at h <;> first | assumption | cases h

theorem addSemaphore_eq_some {n : UInt32} {s : SemId} (h : k.addSemaphore name n = some (s, k')) :
    k.semaphores.length < Limits.semaphores ∧ s = ⟨k.semaphores.length⟩ ∧
      k' = { k with semaphores := k.semaphores ++ [{ name, count := n }] } := by
  rw [addSemaphore] at h
  split at h <;> cases h
  exact ⟨‹_›, Eq.refl _, Eq.refl _⟩

theorem addSemaphore_eq_none {n : UInt32} (h : k.addSemaphore name n = none) :
    Limits.semaphores ≤ k.semaphores.length := by
  rw [addSemaphore] at h
  split at h
  · cases h
  · exact Nat.le_of_not_lt ‹_›

theorem addMutex_eq_some {m : MutexId} (h : k.addMutex name = some (m, k')) :
    k.mutexes.length < Limits.mutexes ∧ m = ⟨k.mutexes.length⟩ ∧
      k' = { k with mutexes := k.mutexes ++ [{ name }] } := by
  rw [addMutex] at h
  split at h <;> cases h
  exact ⟨‹_›, Eq.refl _, Eq.refl _⟩

theorem addQueue_eq_some {d : Discipline} {q : QueueId} (h : k.addQueue name d = some (q, k')) :
    ¬ k.queueTableIsFull ∧ q = ⟨k.queues.length⟩ ∧
      k' = { k with queues := k.queues ++ [{ name, discipline := d }] } := by
  rw [addQueue] at h
  split at h <;> cases h
  exact ⟨‹_›, Eq.refl _, Eq.refl _⟩

theorem addQueue_eq_none {d : Discipline} (h : k.addQueue name d = none) : k.queueTableIsFull := by
  rw [addQueue] at h
  split at h <;> first | assumption | cases h

theorem addPool_eq_some {q : QueueId} {shape : PoolShape} {first : MessageId}
    (h : k.addPool q shape = some (first, k')) :
    k.slotsFit shape.count ∧ first = ⟨k.slots.length⟩ ∧ k' = { k with
      queues := k.queues.modify q.index ({ · with pool := some shape })
      slots := k.slots ++ List.replicate shape.count { home := q } } := by
  rw [addPool] at h
  split at h <;> cases h
  exact ⟨‹_›, Eq.refl _, Eq.refl _⟩

theorem addPool_eq_none {q : QueueId} {shape : PoolShape} (h : k.addPool q shape = none) :
    k.slotsFit shape.count = false := by
  rw [addPool] at h
  split at h
  · cases h
  · exact Bool.eq_false_iff.2 ‹_›

end Kernel

open Kernel

/-- What came of a try for `r` with wake-up `status`. -/
inductive Attempted (r : Resource) (ticks : Int32) (status : TaskStatus) (k : Kernel) :
    Verdict → Kernel → Prop
  | timedOut (me : TaskId) (late : status = .timeout) (current : k.current = some me) :
      Attempted r ticks status k .timedOut (k.unlisted r.waitable me)
  | claimed (inTime : status ≠ .timeout) (free : 0 < k.units r.waitable) :
      Attempted r ticks status k .claimed (k.claimed r)
  | polled (inTime : status ≠ .timeout) (busy : k.units r.waitable = 0) (poll : ticks = 0) :
      Attempted r ticks status k .timedOut k
  | asleep (me : TaskId) (k' : Kernel) (inTime : status ≠ .timeout)
      (busy : k.units r.waitable = 0) (waits : ticks ≠ 0) (current : k.current = some me)
      (absent : me ∉ k.waiting r.waitable) (found : k.Has r.waitable)
      (after : Rescheduled (k.enlisted r.waitable me ticks) k') :
      Attempted r ticks status k (.asleep me) k'

/-- What came of a section that tries for `r`, the first of its call or one that goes on after
`resumed` slept. -/
inductive Tries (r : Resource) (ticks : Int32) (resumed : Option TaskId) (k : Kernel) :
    Verdict → Kernel → Prop
  | sleepsOn (t : TaskId) (back : resumed = some t) (blocked : k.status t = some .invalid) :
      Tries r ticks resumed k (.asleep t) k
  | timedOut (t me : TaskId) (back : resumed = some t) (late : k.status t = some .timeout)
      (current : k.current = some me) :
      Tries r ticks resumed k .timedOut (k.unlisted r.waitable me)
  /-- The owner locks its mutex once more. -/
  | deeper (m : MutexId) (me : TaskId) (x : Mutex) (first : resumed = none)
      (what : r = .mutex m me) (found : k.mutexes[m.index]? = some x) (owns : x.owner = some me)
      (bound : x.depth + 1 ≠ 0) : Tries r ticks resumed k .claimed (k.withDepth m (x.depth + 1))
  | claimed (inTime : k.InTime resumed) (free : 0 < k.units r.waitable) :
      Tries r ticks resumed k .claimed (k.claimed r)
  | polled (inTime : k.InTime resumed) (busy : k.units r.waitable = 0) (poll : ticks = 0) :
      Tries r ticks resumed k .timedOut k
  | asleep (me : TaskId) (k' : Kernel) (inTime : k.InTime resumed)
      (busy : k.units r.waitable = 0) (waits : ticks ≠ 0) (current : k.current = some me)
      (absent : me ∉ k.waiting r.waitable) (found : k.Has r.waitable)
      (after : Rescheduled (k.enlisted r.waitable me ticks) k') :
      Tries r ticks resumed k (.asleep me) k'

namespace Attempted

variable {r : Resource} {ticks : Int32} {k k' : Kernel} {v : Verdict}

theorem begins (h : Attempted r ticks .ok k v k') : Tries r ticks none k v k' := by
  have inTime : k.InTime none := fun _ h => nomatch h
  cases h with
  | timedOut me late current => exact nomatch late
  | claimed _ free => exact .claimed inTime free
  | polled _ busy poll => exact .polled inTime busy poll
  | asleep me k' _ busy waits current absent found after =>
    exact .asleep me k' inTime busy waits current absent found after

theorem goesOn {t : TaskId} {status : TaskStatus} (h : Attempted r ticks status k v k')
    (found : k.status t = some status) (roused : status ≠ .invalid) :
    Tries r ticks (some t) k v k' := by
  have inTime (h : status ≠ .timeout) : k.InTime (some t) := by
    rintro _ ⟨⟩
    cases status <;> simp_all
  cases h with
  | timedOut me late current => exact .timedOut t me rfl (late ▸ found) current
  | claimed ht free => exact .claimed (inTime ht) free
  | polled ht busy poll => exact .polled (inTime ht) busy poll
  | asleep me k' ht busy waits current absent found after =>
    exact .asleep me k' (inTime ht) busy waits current absent found after

end Attempted

namespace Section

variable {c c' : Core} {u : Unit} {r : Resource}

theorem set_eq_modify {α : Type} {l : List α} {i : Nat} {a : α} (f : α → α)
    (h : l[i]? = some a) : l.set i (f a) = l.modify i f := by
  apply List.ext_getElem?
  intro j
  obtain ⟨hi, rfl⟩ := List.getElem?_eq_some_iff.1 h
  rw [List.getElem?_set, List.getElem?_modify]
  by_cases hj : i = j
  · subst hj
    simp [hi]
  · simp [hj]

/-- What a decision in `c` led to. -/
inductive Decision (c c' : Core) : Prop
  | nobody (stats : SchedulerStats) (choice : c.kernel.choice = none)
      (kernel : c'.kernel = { c.kernel with stats }) (requests : c'.requests = c.requests)
  /-- The task that runs goes on, and whoever was elected before is dropped. -/
  | stays (t : TaskId) (stats : SchedulerStats) (choice : c.kernel.choice = some t)
      (runs : c.kernel.current = some t) (kernel : c'.kernel = { c.kernel with next := none, stats })
      (requests : c'.requests = c.requests)
  | elects (t : TaskId) (stats : SchedulerStats) (choice : c.kernel.choice = some t)
      (waits : c.kernel.current ≠ some t)
      (kernel : c'.kernel = { c.kernel with next := some t, stats })
      (requests : c'.requests = c.requests + 1)

theorem schedule_decision (h : schedule c = .ok u c') : Decision c c' := by
  simp only [schedule, bind_eq_ok, now_eq_ok, kernel_eq_ok] at h
  obtain ⟨start, c₁, ⟨-, rfl⟩, k, c₂, ⟨rfl, rfl⟩, h⟩ := h
  dsimp only at h
  cases hc : c.kernel.choice with
  | none =>
    simp only [hc, bind_eq_ok, now_eq_ok, modifyKernel_eq_ok] at h
    obtain ⟨stop, c₃, ⟨-, rfl⟩, rfl⟩ := h
    exact .nobody _ hc rfl rfl
  | some t =>
    simp only [hc, bind_eq_ok, setKernel_eq_ok] at h
    obtain ⟨_, c₃, rfl, h⟩ := h
    unfold elect at h
    split at h <;>
      simp only [bind_eq_ok, now_eq_ok, modifyKernel_eq_ok, requestSwitch_eq_ok, reduceIte,
        Bool.false_eq_true] at h
    · next runs =>
      obtain ⟨stop, c₄, ⟨-, rfl⟩, rfl⟩ := h
      exact .stays t _ hc runs rfl rfl
    · next waits =>
      obtain ⟨_, c₄, rfl, stop, c₅, ⟨-, rfl⟩, rfl⟩ := h
      exact .elects t _ hc waits rfl rfl

theorem schedule_ok (h : schedule c = .ok u c') : Rescheduled c.kernel c'.kernel := by
  cases schedule_decision h with
  | nobody stats _ kernel => exact ⟨_, stats, kernel⟩
  | stays t stats _ _ kernel => exact ⟨_, stats, kernel⟩
  | elects t stats _ _ kernel => exact ⟨_, stats, kernel⟩

theorem tick_ok (h : tick c = .ok u c') :
    schedule { c with kernel := c.kernel.countTick } = .ok u c' := by
  simp only [tick, bind_eq_ok, modifyKernel_eq_ok] at h
  obtain ⟨_, c₁, rfl, h⟩ := h
  exact h

/-- Only a task that sleeps is woken by force. -/
theorem wake_ok {t : TaskId} (h : wake t c = .ok u c') :
    ∃ x, c.kernel.tasks[t.index]? = some x ∧
      (x.state = .sleep ∧
          schedule { c with kernel := c.kernel.updateTask t (Task.wake .timeout) } = .ok u c' ∨
        x.state ≠ .sleep ∧ c' = c) := by
  simp only [wake, bind_eq_ok, task_eq_ok] at h
  obtain ⟨x, c₁, ⟨found, rfl⟩, h⟩ := h
  split at h
  · next asleep =>
    simp only [bind_eq_ok, modifyKernel_eq_ok] at h
    obtain ⟨_, c₁, rfl, h⟩ := h
    exact ⟨x, found, .inl ⟨asleep, h⟩⟩
  · next awake => exact ⟨x, found, .inr ⟨awake, (pure_eq_ok.1 h).2.symm⟩⟩

theorem setLocalWord_ok {n : Nat} {value : UInt64} (h : setLocalWord n value c = .ok u c') :
    ∃ me, c.kernel.current = some me ∧
      c'.kernel = c.kernel.updateTask me (Task.setLocalWord n value) := by
  simp only [setLocalWord, bind_eq_ok, currentTask_eq_ok] at h
  obtain ⟨me, c₁, ⟨current, rfl⟩, h⟩ := h
  split at h
  · obtain rfl := modifyKernel_eq_ok.1 h
    exact ⟨me, current, Eq.refl _⟩
  · exact (throw_eq_ok.1 h).elim

theorem startWith_ok {idle : TaskId} {sp : StackPointer} (h : startWith idle c = .ok sp c') :
    ∃ x, c.kernel.tasks[idle.index]? = some x ∧ sp = x.stackPointer ∧
      c'.kernel = { c.kernel with current := some idle, next := some idle } := by
  simp only [startWith, bind_eq_ok, task_eq_ok, modifyKernel_eq_ok, pure_eq_ok] at h
  obtain ⟨_, _, rfl, x, _, ⟨found, rfl⟩, rfl, rfl⟩ := h
  exact ⟨x, found, rfl, rfl⟩

theorem waiters_ok {l : WaitList} (h : waiters r c = .ok l c') :
    c = c' ∧ c.kernel.Has r.waitable ∧ c.kernel.waitersOf r.waitable = l := by
  cases r <;> simp only [waiters, bind_eq_ok, semaphore_eq_ok, mutex_eq_ok, pure_eq_ok] at h <;>
  · obtain ⟨x, c₁, ⟨hx, rfl⟩, rfl, rfl⟩ := h
    obtain ⟨hi, -⟩ := List.getElem?_eq_some_iff.1 hx
    exact ⟨rfl, hi, by simp [waitersOf, Resource.waitable, hx]⟩

theorem setWaiters_ok {l : WaitList} {tasks : List Task} (h : setWaiters r l tasks c = .ok u c') :
    c'.kernel = c.kernel.withWaiters r.waitable l tasks := by
  cases r <;>
    simp only [setWaiters, bind_eq_ok, modifyKernel_eq_ok, semaphore_eq_ok, mutex_eq_ok,
      setSemaphore, setMutex] at h
  case semaphore s =>
    obtain ⟨_, _, rfl, x, c₁, ⟨hx, rfl⟩, rfl⟩ := h
    have changed := set_eq_modify (fun x : Semaphore => { x with waiters := l }) hx
    exact congrArg (fun semaphores => { c.kernel with tasks, semaphores }) changed
  case mutex m locker =>
    obtain ⟨_, _, rfl, x, c₁, ⟨hx, rfl⟩, rfl⟩ := h
    have changed := set_eq_modify (fun x : Mutex => { x with waiters := l }) hx
    exact congrArg (fun mutexes => { c.kernel with tasks, mutexes }) changed

theorem addWaiter_ok {id : TaskId} {ticks : Int32} (h : addWaiter r id ticks c = .ok u c') :
    id ∉ c.kernel.waiting r.waitable ∧ c.kernel.Has r.waitable ∧
      c'.kernel = c.kernel.enlisted r.waitable id ticks := by
  simp only [addWaiter, bind_eq_ok, kernel_eq_ok] at h
  obtain ⟨l, c₁, hl, k, c₂, ⟨rfl, rfl⟩, h⟩ := h
  obtain ⟨rfl, has, rfl⟩ := waiters_ok hl
  split at h
  · exact (throw_eq_ok.1 h).elim
  · next hid => exact ⟨hid, has, setWaiters_ok h⟩

theorem removeWaiter_ok {id : TaskId} (h : removeWaiter r id c = .ok u c') :
    c'.kernel = c.kernel.unlisted r.waitable id := by
  simp only [removeWaiter, bind_eq_ok, kernel_eq_ok] at h
  obtain ⟨l, c₁, hl, k, c₂, ⟨rfl, rfl⟩, h⟩ := h
  obtain ⟨rfl, -, rfl⟩ := waiters_ok hl
  exact setWaiters_ok h

theorem wakeFirst_ok (h : wakeFirst r c = .ok u c') :
    Rescheduled (c.kernel.woken r.waitable) c'.kernel := by
  simp only [wakeFirst, bind_eq_ok, kernel_eq_ok] at h
  obtain ⟨l, c₁, hl, k, c₂, ⟨rfl, rfl⟩, h⟩ := h
  obtain ⟨rfl, -, rfl⟩ := waiters_ok hl
  unfold woken
  cases hw : (c.kernel.waitersOf r.waitable).wakeFirst c.kernel.tasks with
  | none =>
    simp only [hw, pure_eq_ok] at h
    rw [← h.2]
    exact .rfl
  | some x =>
    obtain ⟨_, l, tasks⟩ := x
    simp only [hw, bind_eq_ok] at h
    obtain ⟨_, c₁, hs, h⟩ := h
    dsimp only
    rw [← setWaiters_ok hs]
    exact schedule_ok h

theorem isAvailable_ok {b : Bool} (h : isAvailable r c = .ok b c') :
    c = c' ∧ (b ↔ 0 < c.kernel.units r.waitable) := by
  cases r <;> simp only [isAvailable, bind_eq_ok, semaphore_eq_ok, mutex_eq_ok, pure_eq_ok] at h <;>
    obtain ⟨x, c₁, ⟨hx, rfl⟩, rfl, rfl⟩ := h <;> refine ⟨rfl, ?_⟩ <;>
    simp only [units, Resource.waitable, hx, Option.map_some, Option.getD_some]
  · simp [UInt32.lt_iff_toNat_lt]
  · split <;> simp_all

theorem claim_ok (h : claim r c = .ok u c') : c'.kernel = c.kernel.claimed r := by
  cases r <;> simp only [claim, bind_eq_ok, semaphore_eq_ok, mutex_eq_ok, decrement_eq_ok] at h
  case semaphore s =>
    obtain ⟨x, c₁, ⟨hx, rfl⟩, n, c₂, ⟨-, rfl, rfl⟩, h⟩ := h
    obtain rfl := modifyKernel_eq_ok.1 h
    simp only [claimed]
    rw [← set_eq_modify (fun x : Semaphore => { x with count := x.count - 1 }) hx]
  case mutex m locker =>
    obtain ⟨x, c₁, ⟨hx, rfl⟩, h⟩ := h
    split at h
    · obtain rfl := modifyKernel_eq_ok.1 h
      simp only [claimed]
      rw [← set_eq_modify (fun x : Mutex => { x with owner := some locker, depth := 1 }) hx]
    · exact (throw_eq_ok.1 h).elim

theorem attempt_ok {ticks : Int32} {status : TaskStatus} {v : Verdict}
    (h : attempt r ticks status c = .ok v c') :
    Attempted r ticks status c.kernel v c'.kernel := by
  simp only [attempt, bind_eq_ok] at h
  obtain ⟨free, c₁, ha, h⟩ := h
  obtain ⟨rfl, hfree⟩ := isAvailable_ok ha
  split at h
  · next hs =>
    simp only [bind_eq_ok, currentTask_eq_ok, pure_eq_ok] at h
    obtain ⟨me, c₁, ⟨hme, rfl⟩, _, c₂, hr, rfl, rfl⟩ := h
    rw [removeWaiter_ok hr]
    exact .timedOut me hs hme
  next hs =>
  split at h
  · next hf =>
    simp only [bind_eq_ok, pure_eq_ok] at h
    obtain ⟨_, c₁, hc, rfl, rfl⟩ := h
    rw [claim_ok hc]
    exact .claimed hs (hfree.1 hf)
  next hf =>
  have busy : c.kernel.units r.waitable = 0 := Nat.eq_zero_of_not_pos fun hu => hf (hfree.2 hu)
  split at h
  · next ht =>
    obtain ⟨rfl, rfl⟩ := pure_eq_ok.1 h
    exact .polled hs busy ht
  · next ht =>
    simp only [bind_eq_ok, currentTask_eq_ok, pure_eq_ok] at h
    obtain ⟨me, c₁, ⟨hme, rfl⟩, _, c₂, hadd, _, c₃, hsch, rfl, rfl⟩ := h
    obtain ⟨hid, has, hadd⟩ := addWaiter_ok hadd
    exact .asleep me _ hs busy ht hme hid has (hadd ▸ schedule_ok hsch)

theorem reattempt_ok {ticks : Int32} {t : TaskId} {v : Verdict}
    (h : reattempt r ticks t c = .ok v c') : Tries r ticks (some t) c.kernel v c'.kernel := by
  simp only [reattempt, bind_eq_ok, task_eq_ok] at h
  obtain ⟨x, c₁, ⟨hx, rfl⟩, h⟩ := h
  have status : c.kernel.status t = some x.status := by
    simp [Kernel.status, standing, TaskTable.standing, hx]
  split at h
  · next hs =>
    obtain ⟨rfl, rfl⟩ := pure_eq_ok.1 h
    exact .sleepsOn t rfl (hs ▸ status)
  · next hs => exact (attempt_ok h).goesOn status hs

theorem noteWaitEnd_ok {s : SemId} {v : Verdict} (h : noteWaitEnd s v c = .ok u c') :
    c'.kernel = c.kernel := by
  cases v <;> simp only [noteWaitEnd, bind_eq_ok, semaphore_eq_ok, note_eq_ok, pure_eq_ok] at h
  · obtain ⟨_, c₁, ⟨-, rfl⟩, rfl⟩ := h
    rfl
  · obtain ⟨_, c₁, ⟨-, rfl⟩, rfl⟩ := h
    rfl
  · rw [h.2]

theorem beginWait_ok {s : SemId} {ticks : Int32} {v : Verdict}
    (h : beginWait s ticks c = .ok v c') :
    Tries (.semaphore s) ticks none c.kernel v c'.kernel := by
  simp only [beginWait, bind_eq_ok, semaphore_eq_ok, note_eq_ok, pure_eq_ok] at h
  obtain ⟨x, c₁, ⟨-, rfl⟩, _, c₂, rfl, v, c₃, ha, _, c₄, hn, rfl, rfl⟩ := h
  rw [noteWaitEnd_ok hn]
  exact (attempt_ok ha).begins

theorem resumeWait_ok {s : SemId} {ticks : Int32} {t : TaskId} {v : Verdict}
    (h : resumeWait s ticks t c = .ok v c') :
    Tries (.semaphore s) ticks (some t) c.kernel v c'.kernel := by
  simp only [resumeWait, bind_eq_ok, pure_eq_ok] at h
  obtain ⟨v, c₁, ha, _, c₂, hn, rfl, rfl⟩ := h
  rw [noteWaitEnd_ok hn]
  exact reattempt_ok ha

theorem beginLock_ok {m : MutexId} {ticks : Int32} {me : TaskId} {v : Verdict}
    (h : beginLock m ticks c = .ok (me, v) c') :
    c.kernel.current = some me ∧ Tries (.mutex m me) ticks none c.kernel v c'.kernel := by
  simp only [beginLock, bind_eq_ok, currentTask_eq_ok, mutex_eq_ok] at h
  obtain ⟨l, c₁, ⟨hl, rfl⟩, x, c₂, ⟨hx, rfl⟩, h⟩ := h
  split at h
  · next ho =>
    simp only [bind_eq_ok, increment_eq_ok, pure_eq_ok, Prod.mk.injEq] at h
    obtain ⟨n, c₁, ⟨hn, rfl, rfl⟩, _, c₂, hs, ⟨rfl, rfl⟩, rfl⟩ := h
    obtain rfl := modifyKernel_eq_ok.1 hs
    have he : (c.kernel.withDepth m (x.depth + 1)).mutexes =
        c.kernel.mutexes.set m.index { x with depth := x.depth + 1 } :=
      (set_eq_modify (fun y : Mutex => { y with depth := x.depth + 1 }) hx).symm
    refine ⟨hl, ?_⟩
    rw [← he]
    exact .deeper m l x rfl rfl hx ho hn
  · simp only [bind_eq_ok, pure_eq_ok, Prod.mk.injEq] at h
    obtain ⟨v, c₁, ha, ⟨rfl, rfl⟩, rfl⟩ := h
    exact ⟨hl, (attempt_ok ha).begins⟩

theorem resumeLock_ok {m : MutexId} {l t : TaskId} {ticks : Int32} {v : Verdict}
    (h : resumeLock m l ticks t c = .ok v c') :
    Tries (.mutex m l) ticks (some t) c.kernel v c'.kernel := reattempt_ok h

theorem post_ok {s : SemId} (h : post s c = .ok u c') :
    ∃ x, c.kernel.semaphores[s.index]? = some x ∧ x.count + 1 ≠ 0 ∧
      Rescheduled ((c.kernel.posted s).woken (.semaphore s)) c'.kernel := by
  simp only [post, bind_eq_ok, semaphore_eq_ok, increment_eq_ok, note_eq_ok] at h
  obtain ⟨x, c₁, ⟨hx, rfl⟩, n, c₂, ⟨hn, rfl, rfl⟩, _, c₃, hs, _, c₄, rfl, h⟩ := h
  obtain rfl := modifyKernel_eq_ok.1 hs
  have he : (c.kernel.posted s).semaphores =
      c.kernel.semaphores.set s.index { x with count := x.count + 1 } :=
    (set_eq_modify (fun y : Semaphore => { y with count := y.count + 1 }) hx).symm
  refine ⟨x, hx, hn, ?_⟩
  have hw := wakeFirst_ok h
  simp only [Core.addNote] at hw
  rw [← he] at hw
  exact hw

/-- What an unlock does: the last one frees the mutex and wakes the first waiter. -/
theorem unlock_ok {m : MutexId} (h : unlock m c = .ok u c') :
    ∃ me x, c.kernel.current = some me ∧ c.kernel.mutexes[m.index]? = some x ∧
      x.owner = some me ∧ x.depth ≠ 0 ∧
      (x.depth = 1 ∧ Rescheduled ((c.kernel.freed m).woken (.mutex m)) c'.kernel ∨
        x.depth ≠ 1 ∧ c'.kernel = c.kernel.withDepth m (x.depth - 1)) := by
  simp only [unlock, bind_eq_ok, currentTask_eq_ok, mutex_eq_ok] at h
  obtain ⟨me, c₁, ⟨hme, rfl⟩, x, c₂, ⟨hx, rfl⟩, h⟩ := h
  split at h
  · exact (throw_eq_ok.1 h).elim
  next ho =>
  split at h
  · exact (throw_eq_ok.1 h).elim
  next hd =>
  refine ⟨me, x, hme, hx, Decidable.not_not.1 ho, hd, ?_⟩
  split at h
  · next h1 =>
    simp only [bind_eq_ok] at h
    obtain ⟨_, c₁, hs, h⟩ := h
    obtain rfl := modifyKernel_eq_ok.1 hs
    have he : (c.kernel.freed m).mutexes =
        c.kernel.mutexes.set m.index { x with depth := 0, owner := none } :=
      (set_eq_modify (fun y : Mutex => { y with depth := 0, owner := none }) hx).symm
    have hw := wakeFirst_ok h
    rw [← he] at hw
    exact .inl ⟨h1, hw⟩
  · next h1 =>
    obtain rfl := modifyKernel_eq_ok.1 h
    have he : (c.kernel.withDepth m (x.depth - 1)).mutexes =
        c.kernel.mutexes.set m.index { x with depth := x.depth - 1 } :=
      (set_eq_modify (fun y : Mutex => { y with depth := x.depth - 1 }) hx).symm
    rw [← he]
    exact .inr ⟨h1, rfl⟩

end Section

end Rtos
