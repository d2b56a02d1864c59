import Rtos.Proofs.Ownership
import Rtos.Proofs.Shelves
import Rtos.Proofs.TimeLimit
import Rtos.Proofs.WaitLists

/-!
# Calls that do not wait

A call polls if it is told not to wait, or takes its message from a driver queue. It claims what is
there to be claimed, at once, and else is answered at once. Nobody's turn comes because of it: it
opens no window, and it leaves the tasks, the lists of waiters and the scheduler as they are,
whatever state they are in.
-/

namespace Rtos

namespace Kernel

variable (k : Kernel)

/-- Neither the tasks nor the lists of those that wait have changed, nor anything that scheduling
goes by. -/
structure Undisturbed (k' : Kernel) : Prop where
  tasks : k'.tasks = k.tasks
  ready : k'.ready = k.ready
  current : k'.current = k.current
  next : k'.next = k.next
  ticks : k'.ticks = k.ticks
  stats : k'.stats = k.stats
  waiters : ∀ w, k'.waitersOf w = k.waitersOf w

/-- Queue `q` has handed out `m`, its first message: the message is unlinked, its slot is empty now,
and one less is counted. -/
structure HandsOut (q : QueueId) (m : Message) (k' : Kernel) : Prop where
  first : k.parked q = m :: k'.parked q
  others : ∀ q' ≠ q, k'.parked q' = k.parked q'
  relieved : ∃ queue queue' slots slot, k.queues[q.index]? = some queue ∧
    queue.pop k.slots = some (m.id, queue', slots) ∧ slots[m.id.index]? = some slot ∧
    k' = k.relieved q queue queue' slots m.id slot

variable {k : Kernel}

namespace Undisturbed

theorem refl (k : Kernel) : k.Undisturbed k := ⟨rfl, rfl, rfl, rfl, rfl, rfl, fun _ => rfl⟩

theorem of_counts {k' : Kernel} {s : SemId} {f : Semaphore → Semaphore} {queues : List Queue}
    {slots : List Slot} (h : k' = { k with
      semaphores := k.semaphores.modify s.index f, queues, slots })
    (hf : ∀ x, (f x).waiters = x.waiters) : k.Undisturbed k' := by
  subst h
  exact ⟨rfl, rfl, rfl, rfl, rfl, rfl, fun w => (waitersOf_modifySemaphore (w := w) hf :)⟩

theorem of_moves {k' : Kernel} {queues : List Queue} {slots : List Slot}
    (h : k' = { k with queues, slots }) : k.Undisturbed k' := by
  subst h
  exact ⟨rfl, rfl, rfl, rfl, rfl, rfl, fun w => by cases w <;> rfl⟩

theorem of_mutex {k' : Kernel} {m : MutexId} {f : Mutex → Mutex}
    (h : k' = { k with mutexes := k.mutexes.modify m.index f })
    (hf : ∀ x, (f x).waiters = x.waiters) : k.Undisturbed k' := by
  subst h
  exact ⟨rfl, rfl, rfl, rfl, rfl, rfl, fun _ => waitersOf_modifyMutex hf⟩

theorem claimed {r : Resource} : k.Undisturbed (k.claimed r) := by
  cases r with
  | semaphore s => exact of_counts rfl fun _ => rfl
  | mutex m locker => exact of_mutex rfl fun _ => rfl

theorem withDepth {m : MutexId} {n : UInt32} : k.Undisturbed (k.withDepth m n) :=
  of_mutex rfl fun _ => rfl

theorem relieved {q : QueueId} {queue queue' : Queue} {slots : List Slot} {id : MessageId}
    {slot : Slot} : k.Undisturbed (k.relieved q queue queue' slots id slot) := by
  unfold Kernel.relieved Kernel.recounted
  split
  · exact of_counts rfl fun _ => rfl
  · exact of_moves rfl

end Undisturbed

theorem claimed_semaphore {s : SemId} {x : Semaphore} (found : k.semaphores[s.index]? = some x) :
    k.claimed (.semaphore s) =
      { k with semaphores := k.semaphores.modify s.index ({ · with count := x.count - 1 }) } := by
  rw [claimed, ← Section.set_eq_modify _ found, ← Section.set_eq_modify _ found]

theorem QueuesInOrder.handsOut (order : k.QueuesInOrder) {q : QueueId} {queue queue' : Queue}
    {slots : List Slot} {id : MessageId} {slot : Slot} {payload : Payload}
    (which : k.queues[q.index]? = some queue)
    (popped : queue.pop k.slots = some (id, queue', slots))
    (found : slots[id.index]? = some slot) (kept : slot.payload = some payload) :
    k.HandsOut q { id, home := slot.home, payload } (k.relieved q queue queue' slots id slot) := by
  obtain ⟨x, queues, same, -⟩ := queues_moved k q queue' (slots.set id.index slot.emptied)
    (k.queueCount queue - 1)
  obtain ⟨first, last⟩ := Queue.ends_of_bare same
  obtain ⟨label, order', lists, labels⟩ :=
    order.takes which popped found kept slots_moved queues first last
  let m : Message := { id, home := slot.home, payload }
  have moves : k.Moves ⟨.dequeue q, some m⟩ (k.relieved q queue queue' slots id slot) :=
    .takes q m rfl rfl rfl label labels lists
  have balance := moves.parked order order'
  have none (q' : QueueId) : Outcome.putOn ⟨.dequeue q, some m⟩ q' = [] :=
    Outcome.putOn_of_none (o := ⟨.dequeue q, some m⟩) rfl
  have took (q' : QueueId) :
      Outcome.takenFrom ⟨.dequeue q, some m⟩ q' = if q = q' then [m] else [] :=
    Outcome.takenFrom_of_some (o := ⟨.dequeue q, some m⟩) rfl
  refine ⟨?_, fun q' other => ?_, queue, queue', slots, slot, which, popped, found, rfl⟩
  · have mine := balance q
    rwa [none, took, if_pos rfl, List.append_nil] at mine
  · have theirs := balance q'
    rw [none, took, if_neg (Ne.symm other), List.append_nil, List.nil_append] at theirs
    exact theirs.symm

end Kernel

/-- Run by itself from `c`, the program returns `a` and leaves kernel `k`, and there is no moment in
which anyone else may run. -/
def Program.Answers {α : Type} (p : Program Unit α) (a : α) (k : Kernel) (c : Core) : Prop :=
  c.kernel.Undisturbed k ∧ ∀ heap, p.Yields heap (fun r c' => r = .ok a ∧ c.Becomes k c') c

namespace Section

variable {c : Core} {m : MutexId} {x : Mutex} {me : TaskId}

theorem claim_mutex {P : Unit → Core → Prop} (found : c.kernel.mutexes[m.index]? = some x)
    (nobody : x.owner = none) (free : x.depth = 0)
    (h : P () { c with kernel := c.kernel.claimed (.mutex m me) }) :
    (claim (.mutex m me)).Ends P c := by
  refine .bind (mutex_eq_ok.2 ⟨found, rfl⟩) ?_
  rw [if_pos ⟨by rw [nobody]; rfl, free⟩]
  refine ⟨(), _, rfl, ?_⟩
  rw [Kernel.claimed, ← set_eq_modify _ found] at h
  exact h

theorem beginLock_poll {P : TaskId × Verdict → Core → Prop}
    (current : c.kernel.current = some me) (found : c.kernel.mutexes[m.index]? = some x)
    (own : x.owner = some me → x.depth + 1 ≠ 0 ∧
      P (me, .claimed) { c with kernel := c.kernel.withDepth m (x.depth + 1) })
    (free : x.owner ≠ some me → x.depth = 0 → x.owner = none ∧
      P (me, .claimed) { c with kernel := c.kernel.claimed (.mutex m me) })
    (busy : x.owner ≠ some me → x.depth ≠ 0 → P (me, .timedOut) c) :
    (beginLock m noWait).Ends P c := by
  refine .bind (currentTask_eq_ok.2 ⟨current, rfl⟩) (.bind (mutex_eq_ok.2 ⟨found, rfl⟩) ?_)
  by_cases mine : x.owner = some me
  · obtain ⟨room, h⟩ := own mine
    rw [if_pos mine]
    refine .bind (increment_eq_ok.2 ⟨room, rfl, rfl⟩) (.bind rfl (.pure ?_))
    rw [Kernel.withDepth, ← set_eq_modify _ found] at h
    exact h
  · rw [if_neg mine]
    refine .andThen (attempt_poll (bind_eq_ok.2 ⟨x, c, mutex_eq_ok.2 ⟨found, rfl⟩, rfl⟩)
      (fun held => ?_) fun idle => ?_)
    · exact .pure (busy mine (of_decide_eq_false held))
    · obtain ⟨nobody, h⟩ := free mine (of_decide_eq_true idle)
      exact claim_mutex found nobody (of_decide_eq_true idle) (.pure h)

end Section

namespace Program.Yields

variable {heap : Heap} {c : Core} {m : MutexId} {x : Mutex} {me : TaskId}

theorem lock {P : Except Fault Status → Core → Prop} (current : c.kernel.current = some me)
    (found : c.kernel.mutexes[m.index]? = some x)
    (own : x.owner = some me → x.depth + 1 ≠ 0 ∧
      P (.ok .ok) { c with kernel := c.kernel.withDepth m (x.depth + 1) })
    (free : x.owner ≠ some me → x.depth = 0 → x.owner = none ∧
      P (.ok .ok) { c with kernel := c.kernel.claimed (.mutex m me) })
    (busy : x.owner ≠ some me → x.depth ≠ 0 → P (.ok .timeout) c) :
    (Call.lock m noWait).Yields heap P c := by
  refine .quiet rfl (fun _ _ same => same) fun saved => .acts ?_
  refine Section.beginLock_poll current found (fun mine => ?_) (fun other idle => ?_)
    fun other held => ?_
  · exact ⟨(own mine).1, .unrolls (.leave (own mine).2)⟩
  · exact ⟨(free other idle).1, .unrolls (.leave (free other idle).2)⟩
  · exact .unrolls (.leave (busy other held))

end Program.Yields

/-- Whether the call does not wait: it was told not to, or takes from a driver queue. -/
def KernelCall.IsPoll {α : Type} (call : KernelCall α) (k : Kernel) : Prop :=
  call.limit = some noWait ∨ ∃ q, call.source = some q ∧ k.queueSemaphore q = .ok none

theorem KernelCall.IsPoll.waits {α : Type} {call : KernelCall α} {k : Kernel}
    (h : call.IsPoll k) : call.limit.isSome := by
  rcases h with limit | ⟨q, source, -⟩
  · rw [limit]
    rfl
  · cases call <;> first | rfl | cases source

theorem KernelCall.IsPoll.limit {α : Type} {call : KernelCall α} {k : Kernel} (h : call.IsPoll k)
    {w : Waitable} (awaits : call.Awaits k w) : call.limit = some noWait := by
  refine h.resolve_right fun ⟨q, source, driver⟩ => ?_
  obtain ⟨sem, task, -⟩ := awaits.of_source source
  exact nomatch driver.symm.trans task

theorem Tries.of_noWait {r : Resource} {k k' : Kernel} {v : Verdict}
    (h : Tries r noWait none k v k') : k.Undisturbed k' := by
  cases h with
  | sleepsOn => exact .refl k
  | timedOut _ _ back => cases back
  | deeper => exact .withDepth
  | claimed => exact .claimed
  | polled => exact .refl k
  | asleep _ _ _ _ waits => exact absurd rfl waits

namespace Action

variable {β : Type} {a : Action β} {b : β} {c c' : Core}

theorem undisturbed_of_noWait (result : a.toSection c = .ok b c') (tries : a.tries.isSome)
    (first : a.resumes = none) (limit : ∀ t n, a.Makes (.block t n) → n = noWait) :
    c.kernel.Undisturbed c'.kernel := by
  cases a with
  | beginWait s n =>
    obtain rfl : n = noWait := limit ⟨0⟩ n rfl
    exact (Section.beginWait_ok result).of_noWait
  | beginLock m n =>
    obtain rfl : n = noWait := limit ⟨0⟩ n rfl
    exact (Section.beginLock_ok result).2.of_noWait
  | resumeWait | resumeLock => cases first
  | _ => cases tries

theorem undisturbed_of_fetches (result : a.toSection c = .ok b c') (fetches : a.fetches) :
    c.kernel.Undisturbed c'.kernel := by
  cases a with
  | read f =>
    obtain ⟨-, rfl⟩ := Section.reading_eq_ok.1 result
    exact .refl _
  | dequeue q =>
    obtain ⟨_, -, ⟨-, -, rfl⟩ | ⟨_, _, _, _, _, -, -, -, -, kernel⟩⟩ := Section.dequeue_ok result
    · exact .refl _
    · exact .of_moves kernel
  | pollDriver q =>
    obtain ⟨_, -, ⟨-, kernel, -⟩ | ⟨_, _, c₁, -, -, -, took, kernel⟩⟩ :=
      Section.pollDriver_ok result
    · exact kernel ▸ .refl _
    · obtain ⟨_, -, ⟨-, none, -⟩ | ⟨_, _, _, _, _, -, -, -, -, taken⟩⟩ := Section.dequeue_ok took
      · cases none
      · exact .of_moves (kernel.trans taken)
  | _ => cases fetches

end Action

theorem Reachable.not_blocked {s : System} (h : Reachable s) {o : OpenCall} (ho : o ∈ s.calls)
    (poll : o.call.limit = some noWait) : o.phase.blocked = none := by
  refine Option.eq_none_iff_forall_ne_some.2 fun ⟨w, t⟩ blocked => ?_
  refine h.blocked_induction (P := fun call _ _ _ _ => call.limit ≠ some noWait)
    (fun _ _ _ _ _ _ _ _ _ _ waits => waits)
    (fun s p c' _ acts _ call w t _ tried heeds slept limit => ?_) o ho w t blocked poll
  cases Action.dozes acts.result tried with
  | sleepsOn resumes => exact slept w t resumes limit
  | asleep n makes waits => exact waits (heeds noWait limit t n makes)

/-- What polls come to: each of them by itself, and those that are under way among other calls. -/
structure System.AnswersPolls (s : System) : Prop where
  /-- A poll of a semaphore takes a unit if there is one. -/
  waits : ∀ (sem : SemId) x, s.core.kernel.semaphores[sem.index]? = some x →
    if x.count = 0 then (Call.wait sem noWait).Answers .timeout s.core.kernel s.core
    else (Call.wait sem noWait).Answers .ok (s.core.kernel.claimed (.semaphore sem)) s.core
  /-- A poll of a queue takes its first message if it counts any. -/
  receives : ∀ (q : QueueId) queue ticks, s.core.kernel.queues[q.index]? = some queue →
    s.Private q → ticks = noWait ∨ s.core.kernel.queueSemaphore q = .ok none →
    if s.core.kernel.queueCount queue = 0 then
      (Call.receive q ticks).Answers none s.core.kernel s.core
    else ∃ m k, s.core.kernel.HandsOut q m k ∧ (Call.receive q ticks).Answers (some m) k s.core
  /-- A poll of a mutex locks it if it is free or the caller's own. -/
  locks : ∀ (m : MutexId) x me, s.core.kernel.mutexes[m.index]? = some x →
    s.core.kernel.current = some me → (x.owner = some me → x.depth + 1 ≠ 0) →
    if x.owner = some me then
      (Call.lock m noWait).Answers .ok (s.core.kernel.withDepth m (x.depth + 1)) s.core
    else if x.depth = 0 then
      (Call.lock m noWait).Answers .ok (s.core.kernel.claimed (.mutex m me)) s.core
    else (Call.lock m noWait).Answers .timeout s.core.kernel s.core
  /-- A poll is never blocked. -/
  blocked : ∀ o ∈ s.calls, o.call.IsPoll s.core.kernel → o.phase.blocked = none
  /-- Whatever others do in between, its sections disturb nobody. -/
  sections : ∀ p c', s.Acts p c' → (∃ x, p.call = some x ∧ x.2.IsPoll s.core.kernel) →
    s.core.kernel.Undisturbed c'.kernel

namespace Reachable

variable {s : System}

theorem queued_of_count (h : Reachable s) {q : QueueId} {queue : Queue}
    (which : s.core.kernel.queues[q.index]? = some queue) (own : s.Private q)
    (units : s.core.kernel.queueCount queue ≠ 0) : s.core.kernel.queued q ≠ [] := by
  have counts : (s.core.kernel.queueCount queue).toNat ≤ (s.core.kernel.queued q).length := by
    cases kind : queue.discipline with
    | task sem =>
      have hs : s.core.kernel.queueSemaphore q = .ok (some sem) := by
        rw [Kernel.queueSemaphore_eq which, kind]
      obtain ⟨x, found, size⟩ := h.inStep.1.tasks q sem hs own
      simp only [Kernel.queueCount, kind, found, Option.map_some, Option.getD_some]
      omega
    | driver d =>
      rw [Kernel.queueCount, kind]
      exact Nat.le_of_eq (h.inStep.1.drivers q queue d which kind)
  intro empty
  rw [empty, List.length_nil, Nat.le_zero] at counts
  exact units (UInt32.toNat_inj.1 counts)

theorem answers_receive (h : Reachable s) {q : QueueId} {queue : Queue} {ticks : Int32}
    (which : s.core.kernel.queues[q.index]? = some queue) (own : s.Private q)
    (poll : ticks = noWait ∨ s.core.kernel.queueSemaphore q = .ok none) :
    if s.core.kernel.queueCount queue = 0 then
      (Call.receive q ticks).Answers none s.core.kernel s.core
    else ∃ m k, s.core.kernel.HandsOut q m k ∧
      (Call.receive q ticks).Answers (some m) k s.core := by
  have known (sem : SemId) (kind : queue.discipline = .task sem) :
      ticks = noWait ∧ ∃ x, s.core.kernel.semaphores[sem.index]? = some x := by
    have hs : s.core.kernel.queueSemaphore q = .ok (some sem) := by
      rw [Kernel.queueSemaphore_eq which, kind]
    obtain ⟨x, found, -⟩ := h.inStep.1.tasks q sem hs own
    exact ⟨poll.resolve_right fun none => (nomatch none.symm.trans hs), x, found⟩
  have order := h.accounts.guarded.order
  split
  · next empty =>
    exact ⟨.refl _, fun _ => .receive which known (fun _ c' became => ⟨rfl, became⟩)
      fun units => absurd empty units⟩
  · next units =>
    obtain ⟨id, queue', slots, slot, payload, popped, found, kept⟩ :=
      order.pop_of_filled which (h.queued_of_count which own units)
    refine ⟨_, _, order.handsOut which popped found kept, .relieved, fun _ => ?_⟩
    exact .receive which known (fun empty => absurd empty units) fun _ =>
      ⟨id, queue', slots, slot, payload, popped, found, kept, fun c' became => ⟨rfl, became⟩⟩

theorem answers_lock (h : Reachable s) {m : MutexId} {x : Mutex} {me : TaskId}
    (found : s.core.kernel.mutexes[m.index]? = some x) (current : s.core.kernel.current = some me)
    (room : x.owner = some me → x.depth + 1 ≠ 0) :
    if x.owner = some me then
      (Call.lock m noWait).Answers .ok (s.core.kernel.withDepth m (x.depth + 1)) s.core
    else if x.depth = 0 then
      (Call.lock m noWait).Answers .ok (s.core.kernel.claimed (.mutex m me)) s.core
    else (Call.lock m noWait).Answers .timeout s.core.kernel s.core := by
  have free : x.depth = 0 → x.owner = none := by
    have owned := (h.owned m).free.1
    rwa [Kernel.hold, found] at owned
  split
  · next mine =>
    exact ⟨.withDepth, fun _ => .lock current found (fun mine => ⟨room mine, rfl, _, rfl⟩)
      (fun other => absurd mine other) fun other => absurd mine other⟩
  · next other =>
    split
    · next idle =>
      exact ⟨.claimed, fun _ => .lock current found (fun mine => absurd mine other)
        (fun _ _ => ⟨free idle, rfl, _, rfl⟩) fun _ held => absurd idle held⟩
    · next held =>
      exact ⟨.refl _, fun _ => .lock current found (fun mine => absurd mine other)
        (fun _ idle => absurd idle held) fun _ _ => ⟨rfl, _, rfl⟩⟩

theorem undisturbed_of_poll (h : Reachable s) {p : Record} {c' : Core} (acts : s.Acts p c')
    (poll : ∃ x, p.call = some x ∧ x.2.IsPoll s.core.kernel) :
    s.core.kernel.Undisturbed c'.kernel := by
  cases acts with
  | switch => exact nomatch poll
  | @call α β _ later earlier who call a next ph b calls may result =>
    obtain ⟨_, ⟨⟩, poll⟩ := poll
    have ho : (⟨who, call, .ask (.act a) next, ph⟩ : OpenCall) ∈ s.calls :=
      calls ▸ mem_middle.2 (.inr rfl)
    obtain ⟨trail, came⟩ := h.came _ ho
    have heeds := came.performs.heeds poll.waits
    have permits := h.inContract.permits_of_mem ho rfl may.1
    cases tries : a.tries with
    | none => exact Action.undisturbed_of_fetches result (heeds.fetches tries).1
    | some w =>
      have limit := poll.limit (permits.awaits w tries)
      have first : a.resumes = none := permits.resumes.trans (h.not_blocked ho limit)
      exact Action.undisturbed_of_noWait result (tries ▸ rfl) first (heeds.limit _ limit)

/-- In every state a call that does not wait claims its object if it can, and nothing else changes.
It never suspends and needs no current task, unless it is to own a mutex. -/
theorem answersPolls (h : Reachable s) : s.AnswersPolls where
  waits sem x found := by
    split
    · next empty =>
      exact ⟨.refl _, fun _ => .wait found (fun _ c' became => ⟨rfl, became⟩)
        fun units => absurd empty units⟩
    · next units =>
      refine ⟨.claimed, fun _ => .wait found (fun empty => absurd empty units) fun _ c' became => ?_⟩
      rw [Kernel.claimed_semaphore found]
      exact ⟨rfl, became⟩
  receives _ _ _ which own poll := h.answers_receive which own poll
  locks _ _ _ found current room := h.answers_lock found current room
  blocked o ho poll := by
    refine Option.eq_none_iff_forall_ne_some.2 fun ⟨w, t⟩ blocked => ?_
    have limit := poll.limit (h.inContract.awaits ho blocked).2
    exact nomatch (h.not_blocked ho limit).symm.trans blocked
  sections _ _ acts poll := h.undisturbed_of_poll acts poll

end Reachable

/-- Before the scheduler starts, a poll of a task queue takes the message on it. Another task sleeps
on a semaphore without units, and one is out of time there; a poll of it is answered at once. -/
theorem answersPolls_eitherWay :
    ((System.run Script.travels).core.kernel.current = none ∧
      ∃ m k, (System.run Script.travels).core.kernel.HandsOut ⟨1⟩ m k ∧
        (Call.receive ⟨1⟩ noWait).Answers (some m) k (System.run Script.travels).core) ∧
    (System.run Script.twoWaiters).core.kernel.waiting (.semaphore ⟨0⟩) = [⟨0⟩, ⟨1⟩] ∧
      (Call.wait ⟨0⟩ noWait).Answers .timeout (System.run Script.twoWaiters).core.kernel
        (System.run Script.twoWaiters).core := by
  have travels := (System.reachable_run Script.travels).answersPolls
  have twoWaiters := (System.reachable_run Script.twoWaiters).answersPolls
  have own : (System.run Script.travels).Private ⟨1⟩ := by
    have its : (System.run Script.travels).core.kernel.queueSemaphore ⟨1⟩ = .ok (some ⟨1⟩) :=
      Kernel.queueSemaphore_eq_ok.2 (by decide +kernel)
    have untouched : ∀ p ∈ (System.run Script.travels).log, ¬ p.Touches ⟨1⟩ := by decide +kernel
    intro sem hs
    obtain rfl : ⟨1⟩ = sem := Option.some.inj (Except.ok.inj (its.symm.trans hs))
    rintro ⟨p, hp, touches⟩
    exact untouched p hp touches
  refine ⟨⟨by decide +kernel, ?_⟩, by decide +kernel, ?_⟩
  · have one : ((System.run Script.travels).core.kernel.queues[1]?.map
        (System.run Script.travels).core.kernel.queueCount) = some 1 := by decide +kernel
    obtain ⟨queue, which, count⟩ := Option.map_eq_some_iff.1 one
    have comes := travels.receives ⟨1⟩ queue noWait which own (.inl rfl)
    rwa [if_neg (by rw [count]; decide)] at comes
  · have none : (System.run Script.twoWaiters).core.kernel.semaphores[0]?.map Semaphore.count =
        some 0 := by decide +kernel
    obtain ⟨x, found, count⟩ := Option.map_eq_some_iff.1 none
    have comes := twoWaiters.waits ⟨0⟩ x found
    rwa [if_pos count] at comes

end Rtos
