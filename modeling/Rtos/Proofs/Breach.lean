import Rtos.Proofs.Run

/-!
# Where a broken kernel would show

The faults that tell of a broken kernel, and what must hold for a section to meet one. All other
sections are blameless, whatever state they find.
-/

namespace Rtos

namespace Section

/-- The section meets no fault that tells of a broken kernel. -/
def Harmless {α : Type} (x : Section α) : Prop := Raises (fun e => ¬ e.IsBreach) x

namespace Harmless

variable {α β : Type}

theorem looks {f : Kernel → Except Fault α} (hf : ∀ k, Blameless (f k)) : Harmless (reading f) :=
  .reading hf

theorem now : Harmless now :=
  .bind (fun _ _ _ h => nomatch h) fun _ => .bind (.modify _) fun _ => .pure _

theorem modifyKernel (f : Kernel → Kernel) : Harmless (modifyKernel f) := .modify _

theorem task (id : TaskId) : Harmless (task id) := looks fun _ => .entry _ _

theorem currentTask : Harmless currentTask := looks Blameless.currentTask

theorem semaphore (s : SemId) : Harmless (semaphore s) := looks fun _ => .entry _ _

theorem mutex (m : MutexId) : Harmless (mutex m) := looks fun _ => .entry _ _

theorem queue (q : QueueId) : Harmless (queue q) := looks fun _ => .entry _ _

theorem slot (id : MessageId) : Harmless (slot id) := looks fun _ => .entry _ _

theorem increment (n : UInt32) : Harmless (increment n) := .ite (.throw id) (.pure _)

theorem setKernel (k : Kernel) : Harmless (setKernel k) := .modify _

theorem note (n : Note) : Harmless (note n) := .modify _

theorem requestSwitch : Harmless requestSwitch := .modify _

theorem schedule : Harmless schedule := by
  refine .bind now fun start => .bind .kernel fun k => ?_
  have account : Harmless (Section.now >>= fun stop =>
      Section.modifyKernel fun k => { k with stats := k.stats.addDecision (stop - start) }) :=
    .bind now fun stop => modifyKernel _
  dsimp only
  split
  · exact account
  · refine .bind (setKernel _) fun _ => ?_
    split
    · exact .bind requestSwitch fun _ => account
    · exact account

theorem tick : Harmless tick := .bind (modifyKernel _) fun _ => schedule

theorem switch (sp : StackPointer) : Harmless (switch sp) := by
  refine .bind .kernel fun k => ?_
  split
  · exact .pure _
  next target _ =>
  refine .bind (setKernel _) fun _ => .bind now fun t => .bind (task target) fun x => ?_
  have resume : Harmless do
      Section.modifyKernel (·.updateTask target ({ · with start := t }))
      let resumed := (← Section.task target).stackPointer
      Section.modifyKernel fun k => { k with current := some target, stats := k.stats.addSwitch }
      return resumed :=
    .bind (modifyKernel _) fun _ => .bind (task target) fun _ => .bind (modifyKernel _) fun _ =>
      .pure _
  dsimp only
  split
  · exact resume
  · exact .bind (modifyKernel _) fun _ => .bind (task _) fun _ => .bind (note _) fun _ => resume

theorem startWith (idle : TaskId) : Harmless (startWith idle) :=
  .bind (modifyKernel _) fun _ => .bind (task idle) fun _ => .pure _

theorem delay (ticks : Int32) : Harmless (delay ticks) := by
  unfold Section.delay
  split
  · exact .bind currentTask fun _ => .bind (modifyKernel _) fun _ => schedule
  · exact .pure _

theorem wake (id : TaskId) : Harmless (wake id) := by
  refine .bind (task id) fun x => ?_
  split
  · exact .bind (modifyKernel _) fun _ => schedule
  · exact .pure _

theorem exit : Harmless exit :=
  .bind currentTask fun _ => .bind (modifyKernel _) fun _ => .bind (task _) fun _ =>
    .bind (note _) fun _ => schedule

theorem setLocalWord (n : Nat) (value : UInt64) : Harmless (setLocalWord n value) := by
  refine .bind currentTask fun _ => ?_
  split
  · exact modifyKernel _
  · exact .throw id

theorem resetTimes : Harmless resetTimes := modifyKernel _

theorem adding (f : Kernel → Option (α × Kernel)) : Harmless (adding f) := by
  refine .bind .kernel fun k => ?_
  split
  · exact .bind (setKernel _) fun _ => .pure _
  · exact .pure _

theorem waiters (r : Resource) : Harmless (waiters r) := by
  cases r with
  | semaphore s => exact .bind (semaphore s) fun _ => .pure _
  | mutex m l => exact .bind (mutex m) fun _ => .pure _

theorem setWaiters (r : Resource) (w : WaitList) (tasks : List Task) :
    Harmless (setWaiters r w tasks) := by
  refine .bind (modifyKernel _) fun _ => ?_
  cases r with
  | semaphore s => exact .bind (semaphore s) fun _ => modifyKernel _
  | mutex m l => exact .bind (mutex m) fun _ => modifyKernel _

theorem removeWaiter (r : Resource) (id : TaskId) : Harmless (removeWaiter r id) :=
  .bind (waiters r) fun _ => .bind .kernel fun _ => setWaiters _ _ _

theorem wakeFirst (r : Resource) : Harmless (wakeFirst r) := by
  refine .bind (waiters r) fun _ => .bind .kernel fun _ => ?_
  split
  · exact .pure _
  · exact .bind (setWaiters _ _ _) fun _ => schedule

theorem isAvailable (r : Resource) : Harmless (isAvailable r) := by
  cases r with
  | semaphore s => exact .bind (semaphore s) fun _ => .pure _
  | mutex m l => exact .bind (mutex m) fun _ => .pure _

theorem post (s : SemId) : Harmless (post s) :=
  .bind (semaphore s) fun _ => .bind (increment _) fun _ => .bind (modifyKernel _) fun _ =>
    .bind (note _) fun _ => wakeFirst _

theorem unlock (m : MutexId) : Harmless (unlock m) := by
  refine .bind currentTask fun _ => .bind (mutex m) fun _ => ?_
  split
  · exact .throw id
  split
  · exact .throw id
  split
  · exact .bind (modifyKernel _) fun _ => wakeFirst _
  · exact modifyKernel _

theorem noteWaitEnd (s : SemId) (v : Verdict) : Harmless (noteWaitEnd s v) := by
  cases v with
  | claimed => exact .bind (semaphore s) fun _ => note _
  | timedOut => exact .bind (semaphore s) fun _ => note _
  | asleep t => exact .pure _

theorem setRoutines (q : QueueId) (put : Option PutRoutine) (control : Option ControlRoutine)
    (data : UInt64) : Harmless (setRoutines q put control data) := by
  refine .bind (queue q) fun x => ?_
  split
  · exact .pure _
  · exact .bind (modifyKernel _) fun _ => .pure _

end Harmless

variable {c c' : Core} {e : Fault} {r : Resource} {ticks : Int32}

/-- What a broken kernel is like for a try with wake-up `status`. -/
inductive Unsound (r : Resource) (ticks : Int32) (status : TaskStatus) (k : Kernel) : Fault → Prop
  | alreadyWaiting (me : TaskId) (inTime : status ≠ .timeout) (waits : ticks ≠ 0)
      (current : k.current = some me) (listed : me ∈ k.waiting r.waitable) :
      Unsound r ticks status k .alreadyWaiting
  | claimedWhileHeld (m : MutexId) (l : TaskId) (x : Mutex) (what : r = .mutex m l)
      (found : k.mutexes[m.index]? = some x) (free : x.depth = 0) (owned : x.owner ≠ none) :
      Unsound r ticks status k (.claimedWhileHeld x.name)

theorem claim_error (free : 0 < c.kernel.units r.waitable) (h : claim r c = .error e c')
    (breach : e.IsBreach) : ∃ m l x, r = .mutex m l ∧ c.kernel.mutexes[m.index]? = some x ∧
      x.depth = 0 ∧ x.owner ≠ none ∧ e = .claimedWhileHeld x.name := by
  cases r with
  | semaphore s =>
    rcases bind_eq_error.1 h with h | ⟨x, c₁, hx, h⟩
    · exact (Harmless.semaphore s _ _ _ h breach).elim
    obtain ⟨found, rfl⟩ := semaphore_eq_ok.1 hx
    rcases bind_eq_error.1 h with h | ⟨n, c₁, -, h⟩
    · unfold decrement at h
      split at h
      · next h0 => simp [Kernel.units, Resource.waitable, found, h0] at free
      · exact (pure_eq_error.1 h).elim
    · exact (Harmless.modifyKernel _ _ _ _ h breach).elim
  | mutex m l =>
    rcases bind_eq_error.1 h with h | ⟨x, c₁, hx, h⟩
    · exact (Harmless.mutex m _ _ _ h breach).elim
    obtain ⟨found, rfl⟩ := mutex_eq_ok.1 hx
    have hd : x.depth = 0 := by
      by_contra hd
      simp [Kernel.units, Resource.waitable, found, hd] at free
    split at h
    · exact (Harmless.modifyKernel _ _ _ _ h breach).elim
    · next hn =>
      obtain ⟨rfl, -⟩ := throw_eq_error.1 h
      exact ⟨m, l, x, rfl, found, hd, fun ho => hn ⟨by simp [ho], hd⟩, rfl⟩

theorem addWaiter_error {id : TaskId} (h : addWaiter r id ticks c = .error e c')
    (breach : e.IsBreach) : e = .alreadyWaiting ∧ id ∈ c.kernel.waiting r.waitable := by
  rcases bind_eq_error.1 h with h | ⟨w, c₁, hw, h⟩
  · exact (Harmless.waiters r _ _ _ h breach).elim
  obtain ⟨rfl, -, rfl⟩ := waiters_ok hw
  rcases bind_eq_error.1 h with h | ⟨k, c₁, hk, h⟩
  · exact (kernel_eq_error.1 h).elim
  obtain ⟨rfl, rfl⟩ := kernel_eq_ok.1 hk
  split at h
  · next hid =>
    obtain ⟨rfl, -⟩ := throw_eq_error.1 h
    exact ⟨rfl, hid⟩
  · exact (Harmless.setWaiters _ _ _ _ _ _ h breach).elim

theorem attempt_error {status : TaskStatus} (h : attempt r ticks status c = .error e c')
    (breach : e.IsBreach) : Unsound r ticks status c.kernel e := by
  rcases bind_eq_error.1 h with h | ⟨free, c₁, ha, h⟩
  · exact (Harmless.isAvailable r _ _ _ h breach).elim
  obtain ⟨rfl, hfree⟩ := isAvailable_ok ha
  split at h
  · exact (Raises.bind Harmless.currentTask (fun _ => .bind (Harmless.removeWaiter _ _) fun _ => .pure _)
      _ _ _ h breach).elim
  next inTime =>
  split at h
  · next hf =>
    rcases bind_eq_error.1 h with h | ⟨_, c₁, -, h⟩
    · obtain ⟨m, l, x, what, found, hd, owned, rfl⟩ := claim_error (hfree.1 hf) h breach
      exact .claimedWhileHeld m l x what found hd owned
    · exact (pure_eq_error.1 h).elim
  split at h
  · exact (pure_eq_error.1 h).elim
  next waits =>
  rcases bind_eq_error.1 h with h | ⟨me, c₁, hme, h⟩
  · exact (Harmless.currentTask _ _ _ h breach).elim
  obtain ⟨current, rfl⟩ := currentTask_eq_ok.1 hme
  rcases bind_eq_error.1 h with h | ⟨_, c₁, -, h⟩
  · obtain ⟨rfl, listed⟩ := addWaiter_error h breach
    exact .alreadyWaiting me inTime waits current listed
  · exact (Raises.bind Harmless.schedule (fun _ => .pure _) _ _ _ h breach).elim

/-- What a broken kernel is like for a section that goes on after `resumed` slept, or begins. -/
def Breaks (r : Resource) (ticks : Int32) (resumed : Option TaskId) (k : Kernel) (e : Fault) :
    Prop :=
  ∃ status, Unsound r ticks status k e ∧
    ∀ t, resumed = some t → k.status t = some status ∧ status ≠ .invalid

theorem reattempt_error {t : TaskId} (h : reattempt r ticks t c = .error e c')
    (breach : e.IsBreach) : Breaks r ticks (some t) c.kernel e := by
  rcases bind_eq_error.1 h with h | ⟨x, c₁, hx, h⟩
  · exact (Harmless.task t _ _ _ h breach).elim
  obtain ⟨found, rfl⟩ := task_eq_ok.1 hx
  split at h
  · exact (pure_eq_error.1 h).elim
  · next hs =>
    refine ⟨x.status, attempt_error h breach, ?_⟩
    rintro _ ⟨⟩
    exact ⟨by simp [Kernel.status, Kernel.standing, TaskTable.standing, found], hs⟩

theorem beginWait_error {s : SemId} (h : beginWait s ticks c = .error e c')
    (breach : e.IsBreach) : Breaks (.semaphore s) ticks none c.kernel e := by
  rcases bind_eq_error.1 h with h | ⟨x, c₁, hx, h⟩
  · exact (Harmless.semaphore s _ _ _ h breach).elim
  obtain ⟨-, rfl⟩ := semaphore_eq_ok.1 hx
  rcases bind_eq_error.1 h with h | ⟨_, c₁, hn, h⟩
  · exact (Harmless.note _ _ _ _ h breach).elim
  obtain rfl := note_eq_ok.1 hn
  rcases bind_eq_error.1 h with h | ⟨v, c₁, -, h⟩
  · have unsound := attempt_error h breach
    exact ⟨.ok, unsound, fun _ h => nomatch h⟩
  · exact (Raises.bind (Harmless.noteWaitEnd s v) (fun _ => .pure _) _ _ _ h breach).elim

theorem resumeWait_error {s : SemId} {t : TaskId} (h : resumeWait s ticks t c = .error e c')
    (breach : e.IsBreach) : Breaks (.semaphore s) ticks (some t) c.kernel e := by
  rcases bind_eq_error.1 h with h | ⟨v, c₁, -, h⟩
  · exact reattempt_error h breach
  · exact (Raises.bind (Harmless.noteWaitEnd s v) (fun _ => .pure _) _ _ _ h breach).elim

theorem beginLock_error {m : MutexId} (h : beginLock m ticks c = .error e c')
    (breach : e.IsBreach) : ∃ l, Breaks (.mutex m l) ticks none c.kernel e := by
  rcases bind_eq_error.1 h with h | ⟨l, c₁, hl, h⟩
  · exact (Harmless.currentTask _ _ _ h breach).elim
  obtain ⟨-, rfl⟩ := currentTask_eq_ok.1 hl
  rcases bind_eq_error.1 h with h | ⟨x, c₁, hx, h⟩
  · exact (Harmless.mutex m _ _ _ h breach).elim
  obtain ⟨-, rfl⟩ := mutex_eq_ok.1 hx
  split at h
  · exact (Raises.bind (Harmless.increment _) (fun _ => .bind (Harmless.modifyKernel _) fun _ => .pure _)
      _ _ _ h breach).elim
  · rcases bind_eq_error.1 h with h | ⟨v, c₁, -, h⟩
    · exact ⟨l, .ok, attempt_error h breach, fun _ h => nomatch h⟩
    · exact (pure_eq_error.1 h).elim

variable {q : QueueId}

theorem enqueue_error {m : Message} (h : enqueue q m c = .error e c') (breach : e.IsBreach) :
    ∃ slot, c.kernel.slots[m.id.index]? = some slot ∧
      (e = .alreadyQueued ∧ slot.queue ≠ none ∨
        e = .wrongHome slot.home.index m.home.index ∧ slot.home ≠ m.home) := by
  rcases bind_eq_error.1 h with h | ⟨slot, c₁, hs, h⟩
  · exact (Harmless.slot _ _ _ _ h breach).elim
  obtain ⟨found, rfl⟩ := slot_eq_ok.1 hs
  refine ⟨slot, found, ?_⟩
  split at h
  · next hq =>
    obtain ⟨rfl, -⟩ := throw_eq_error.1 h
    exact .inl ⟨rfl, fun hn => by simp [hn] at hq⟩
  split at h
  · next hh =>
    obtain ⟨rfl, -⟩ := throw_eq_error.1 h
    exact .inr ⟨rfl, hh⟩
  · refine (Raises.bind (Harmless.modifyKernel _) (fun _ => .bind (Harmless.queue q) fun x =>
      .bind .kernel fun k => .bind (Harmless.modifyKernel _) fun _ => .bind (Harmless.modifyKernel _)
        fun _ => ?_) _ _ _ h breach).elim
    split
    · exact .bind (Harmless.post _) fun _ => .pure _
    · exact .bind (Harmless.increment _) fun _ => .bind (Harmless.modifyKernel _) fun _ =>
        .bind (Harmless.note _) fun _ => .pure _

/-- A message at the head of a queue whose slot holds no payload. -/
def Vacant (q : QueueId) (k : Kernel) (e : Fault) : Prop :=
  ∃ queue id queue' slots slot, k.queues[q.index]? = some queue ∧
    queue.pop k.slots = some (id, queue', slots) ∧ slots[id.index]? = some slot ∧
    slot.payload = none ∧ e = .noBuffer id.index

theorem dequeue_error (h : dequeue q c = .error e c') (breach : e.IsBreach) :
    Vacant q c.kernel e := by
  rcases bind_eq_error.1 h with h | ⟨queue, c₁, hq, h⟩
  · exact (Harmless.queue _ _ _ _ h breach).elim
  obtain ⟨which, rfl⟩ := queue_eq_ok.1 hq
  rcases bind_eq_error.1 h with h | ⟨k, c₁, hk, h⟩
  · exact (kernel_eq_error.1 h).elim
  obtain ⟨rfl, rfl⟩ := kernel_eq_ok.1 hk
  cases pop : queue.pop c.kernel.slots with
  | none =>
    rw [pop] at h
    exact (pure_eq_error.1 h).elim
  | some x =>
    obtain ⟨id, queue', slots⟩ := x
    rw [pop] at h
    rcases bind_eq_error.1 h with h | ⟨_, c₁, hm, h⟩
    · exact (Harmless.modifyKernel _ _ _ _ h breach).elim
    obtain rfl := modifyKernel_eq_ok.1 hm
    rcases bind_eq_error.1 h with h | ⟨_, c₁, hm, h⟩
    · exact (Harmless.modifyKernel _ _ _ _ h breach).elim
    obtain rfl := modifyKernel_eq_ok.1 hm
    rcases bind_eq_error.1 h with h | ⟨slot, c₁, hs, h⟩
    · exact (Harmless.slot _ _ _ _ h breach).elim
    obtain ⟨found, rfl⟩ := slot_eq_ok.1 hs
    rcases bind_eq_error.1 h with h | ⟨_, c₁, hm, h⟩
    · exact (Harmless.modifyKernel _ _ _ _ h breach).elim
    cases hp : slot.payload with
    | none =>
      rw [hp] at h
      obtain ⟨rfl, -⟩ := throw_eq_error.1 h
      exact ⟨queue, id, queue', slots, slot, which, pop, found, hp, rfl⟩
    | some payload =>
      rw [hp] at h
      exact (pure_eq_error.1 h).elim

theorem pollDriver_error (h : pollDriver q c = .error e c') (breach : e.IsBreach) :
    ∃ queue d, c.kernel.queues[q.index]? = some queue ∧ queue.discipline = .driver d ∧
      d.count ≠ 0 ∧ (e = .driverQueueCount ∧ queue.first = none ∨ Vacant q c.kernel e) := by
  rcases bind_eq_error.1 h with h | ⟨queue, c₁, hq, h⟩
  · exact (Harmless.queue _ _ _ _ h breach).elim
  obtain ⟨which, rfl⟩ := queue_eq_ok.1 hq
  have hi := (List.getElem?_eq_some_iff.1 which).1
  cases hd : queue.discipline with
  | task s =>
    simp only [hd] at h
    exact (pure_eq_error.1 h).elim
  | driver d =>
    simp only [hd] at h
    split at h
    · exact (Raises.bind (Harmless.note _) (fun _ => .pure _) _ _ _ h breach).elim
    next hn =>
    refine ⟨queue, d, which, hd, hn, ?_⟩
    rcases bind_eq_error.1 h with h | ⟨_, c₁, hm, h⟩
    · exact (Harmless.modifyKernel _ _ _ _ h breach).elim
    obtain rfl := modifyKernel_eq_ok.1 hm
    rcases bind_eq_error.1 h with h | ⟨m, c₁, hm, h⟩
    · obtain ⟨x, id, queue', slots, slot, hx, pop, found, hp, rfl⟩ := dequeue_error h breach
      simp only [List.getElem?_set_self hi, Option.some.injEq] at hx
      subst hx
      rw [pop_discipline, Option.map_eq_some_iff] at pop
      obtain ⟨⟨id', queue', slots'⟩, pop, he⟩ := pop
      cases he
      exact .inr ⟨queue, id, queue', slots, slot, which, pop, found, hp, rfl⟩
    · cases m with
      | some m => exact (Raises.bind (Harmless.note _) (fun _ => .pure _) _ _ _ h breach).elim
      | none =>
        obtain ⟨rfl, -⟩ := throw_eq_error.1 h
        obtain ⟨x, hx, ⟨first, -⟩ | ⟨id, _, _, _, _, -, -, -, hm, -⟩⟩ := dequeue_ok hm
        · simp only [List.getElem?_set_self hi, Option.some.injEq] at hx
          subst hx
          exact .inl ⟨rfl, first⟩
        · exact nomatch hm

end Section

/-- What a broken kernel is like for an action that meets a fault there. -/
inductive Breaches {β : Type} (a : Action β) (k : Kernel) : Fault → Prop
  | tries (r : Resource) (ticks : Int32) (resumed : Option TaskId) (e : Fault)
      (tries : a.tries = some r.waitable) (resumes : a.resumes = resumed.map (r.waitable, ·))
      (suspends : ticks ≠ 0 → a.suspends) (breaks : Section.Breaks r ticks resumed k e) :
      Breaches a k e
  | alreadyQueued (q : QueueId) (m : Message) (slot : Slot) (puts : a.puts = some (q, m))
      (found : k.slots[m.id.index]? = some slot) (queued : slot.queue ≠ none) :
      Breaches a k .alreadyQueued
  | wrongHome (q : QueueId) (m : Message) (slot : Slot) (puts : a.puts = some (q, m))
      (found : k.slots[m.id.index]? = some slot) (strange : slot.home ≠ m.home) :
      Breaches a k (.wrongHome slot.home.index m.home.index)
  | vacant (q : QueueId) (e : Fault) (vacant : Section.Vacant q k e) : Breaches a k e
  | miscounted (q : QueueId) (queue : Queue) (which : k.queues[q.index]? = some queue)
      (counts : queue.discipline.Counts) (first : queue.first = none) :
      Breaches a k .driverQueueCount

open Section in
theorem Action.breaches {β : Type} {a : Action β} {c c' : Core} {e : Fault}
    (h : a.toSection c = .error e c') (breach : e.IsBreach)
    (reads : ∀ f, a.views = some f → ∀ k e, f k = .error e → ¬ e.IsBreach) :
    Breaches a c.kernel e := by
  cases a with
  | read f => exact (reads f rfl _ _ (reading_eq_error.1 h).1 breach).elim
  | schedule => exact (Harmless.schedule _ _ _ h breach).elim
  | tick => exact (Harmless.tick _ _ _ h breach).elim
  | switch sp => exact (Harmless.switch sp _ _ _ h breach).elim
  | startWith idle => exact (Harmless.startWith idle _ _ _ h breach).elim
  | delay ticks => exact (Harmless.delay ticks _ _ _ h breach).elim
  | wake t => exact (Harmless.wake t _ _ _ h breach).elim
  | exit => exact (Harmless.exit _ _ _ h breach).elim
  | setLocalWord n value => exact (Harmless.setLocalWord n value _ _ _ h breach).elim
  | resetTimes => exact (Harmless.resetTimes _ _ _ h breach).elim
  | addTask name priority sp stackBytes => exact (Harmless.adding _ _ _ _ h breach).elim
  | addSemaphore name count => exact (Harmless.adding _ _ _ _ h breach).elim
  | addMutex name => exact (Harmless.adding _ _ _ _ h breach).elim
  | addQueue name d => exact (Harmless.adding _ _ _ _ h breach).elim
  | addPool q shape => exact (Harmless.adding _ _ _ _ h breach).elim
  | post s => exact (Harmless.post s _ _ _ h breach).elim
  | beginWait s ticks =>
    exact .tries (.semaphore s) ticks none e rfl rfl id (beginWait_error h breach)
  | resumeWait s ticks t =>
    exact .tries (.semaphore s) ticks (some t) e rfl rfl (fun _ => trivial)
      (resumeWait_error h breach)
  | beginLock m ticks =>
    obtain ⟨l, breaks⟩ := beginLock_error h breach
    exact .tries (.mutex m l) ticks none e rfl rfl id breaks
  | resumeLock m l ticks t =>
    exact .tries (.mutex m l) ticks (some t) e rfl rfl (fun _ => trivial)
      (reattempt_error h breach)
  | unlock m => exact (Harmless.unlock m _ _ _ h breach).elim
  | enqueue q m =>
    obtain ⟨slot, found, ⟨rfl, queued⟩ | ⟨rfl, strange⟩⟩ := enqueue_error h breach
    · exact .alreadyQueued q m slot rfl found queued
    · exact .wrongHome q m slot rfl found strange
  | dequeue q => exact .vacant q e (dequeue_error h breach)
  | pollDriver q =>
    obtain ⟨queue, d, which, hd, hn, ⟨rfl, first⟩ | vacant⟩ := pollDriver_error h breach
    · exact .miscounted q queue which (hd ▸ hn) first
    · exact .vacant q e vacant
  | setRoutines q put control data =>
    exact (Harmless.setRoutines q put control data _ _ _ h breach).elim

/-- A call in a run meets a fault of a broken kernel only where the kernel is broken, or where it
found no message on a task queue although it has claimed a unit. -/
theorem System.FaultsIn.breaches {s : System} {o : OpenCall} {e : Fault} (contract : s.InContract)
    (h : s.FaultsIn o e) (breach : e.IsBreach) :
    (e = .taskQueueCount ∧ ∃ x, o.phase.last = some x ∧ x.Missed) ∨
      ∃ later earlier β, ∃ a : Action β, s.calls = later ++ o :: earlier ∧
        o.MayGoOn later s.core.kernel ∧ Permits o.caller o.call s.core.kernel o.phase a ∧
        Breaches a s.core.kernel e := by
  obtain ⟨later, earlier, calls, may, ⟨β, next, hr⟩ | ⟨β, a, next, c, hr, he⟩⟩ := h
  · have keeps := (contract.sound o (calls ▸ List.mem_append_right later List.mem_cons_self)).keeps
    rw [hr] at keeps
    exact .inl (keeps breach)
  · have keeps := (contract.sound o (calls ▸ List.mem_append_right later List.mem_cons_self)).keeps
    rw [hr] at keeps
    have permits := (keeps _ .rfl may.1).1
    have breaches := Action.breaches he breach permits.reads
    exact .inr ⟨later, earlier, β, a, calls, may, permits, breaches⟩

end Rtos
