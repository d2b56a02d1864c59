import Rtos.Proofs.Alone
import Rtos.Proofs.MoveStep

/-!
# Queues that nobody attends to

A queue is unattended if no task waits for its messages and no routine hangs on it. A put on such a
queue, and a take from it, only moves the message and counts: whether a semaphore keeps the count or
the queue itself makes no difference to anything else.
-/

namespace Rtos

/-- The core with another kernel, and maybe with more notes; all else is as it was. -/
def Core.Becomes (c : Core) (k : Kernel) (c' : Core) : Prop :=
  ∃ notes, c' = { c with kernel := k, notes }

namespace Kernel

variable (k : Kernel)

/-- Nobody waits at a queue of that discipline, and no routine runs after a put. -/
def Unattended : Discipline → Prop
  | .task s => ∃ sem, k.semaphores[s.index]? = some sem ∧ sem.waiters.first = none
  | .driver d => d.put = none

theorem Unattended.known {k : Kernel} {d : Discipline} {s : SemId} (h : k.Unattended d)
    (kind : d = .task s) : ∃ sem, k.semaphores[s.index]? = some sem := by
  subst kind
  exact h.imp fun _ found => found.1

def recounted (q : QueueId) (queue : Queue) (n : UInt32) : Kernel :=
  match queue.discipline with
  | .task s => { k with semaphores := k.semaphores.modify s.index ({ · with count := n }) }
  | .driver d => k.withQueue q (queue.counting d n)

def received (q : QueueId) (queue : Queue) (slot : Slot) (m : Message) : Kernel :=
  let k' := k.withSlot m.id (slot.filled q m)
  (k'.pushed q queue m.id).recounted q (queue.push k'.slots m.id).1 (k.queueCount queue + 1)

def relieved (q : QueueId) (queue queue' : Queue) (slots : List Slot) (id : MessageId)
    (slot : Slot) : Kernel :=
  (({ k with slots }.withQueue q queue').withSlot id slot.emptied).recounted q queue'
    (k.queueCount queue - 1)

end Kernel

namespace Queue

variable {queue queue' : Queue} {slots slots' : List Slot} {id : MessageId}

theorem pop_discipline (h : queue.pop slots = some (id, queue', slots')) :
    queue'.discipline = queue.discipline := by
  unfold Queue.pop at h
  split at h
  · exact nomatch h
  · cases h
    rfl

theorem pop_counting {d : Driver} {n : UInt32} (h : queue.pop slots = some (id, queue', slots')) :
    (queue.counting d n).pop slots = some (id, queue'.counting d n, slots') := by
  unfold Queue.pop at h ⊢
  cases first : queue.first with
  | none =>
    rw [first] at h
    exact nomatch h
  | some id =>
    rw [first] at h
    cases h
    rw [counting, first]
    rfl

end Queue

namespace Section

variable {c : Core} {q : QueueId} {queue : Queue}

theorem wakeFirst_nobody {r : Resource} {w : WaitList} {P : Unit → Core → Prop}
    (found : waiters r c = .ok w c) (nobody : w.wakeFirst c.kernel.tasks = none) (h : P () c) :
    (wakeFirst r).Ends P c := by
  refine .bind found (.bind kernel_apply ?_)
  rw [nobody]
  exact .pure h

theorem post_unattended {s : SemId} {sem : Semaphore} {P : Unit → Core → Prop}
    (found : c.kernel.semaphores[s.index]? = some sem) (empty : sem.waiters.first = none)
    (room : sem.count + 1 ≠ 0) (h : ∀ c', c.Becomes (c.kernel.posted s) c' → P () c') :
    (post s).Ends P c := by
  have known := (List.getElem?_eq_some_iff.1 found).1
  have posted : c.kernel.posted s = { c.kernel with
      semaphores := c.kernel.semaphores.set s.index { sem with count := sem.count + 1 } } := by
    rw [Kernel.posted, ← set_eq_modify (fun y : Semaphore => { y with count := y.count + 1 }) found]
  have nobody : sem.waiters.wakeFirst c.kernel.tasks = none := by
    rw [WaitList.wakeFirst, empty]
  refine .bind (semaphore_eq_ok.2 ⟨found, rfl⟩) (.bind (increment_eq_ok.2 ⟨room, rfl, rfl⟩) ?_)
  refine .bind rfl (.bind rfl ?_)
  rw [posted] at h
  exact wakeFirst_nobody (bind_eq_ok.2 ⟨{ sem with count := sem.count + 1 }, _,
    semaphore_eq_ok.2 ⟨List.getElem?_set_self known, rfl⟩, rfl⟩) nobody (h _ ⟨_, rfl⟩)

theorem enqueue_unattended {m : Message} {slot : Slot}
    {P : Option (PutRoutine × UInt64) → Core → Prop}
    (found : c.kernel.slots[m.id.index]? = some slot) (free : slot.queue = none)
    (home : slot.home = m.home) (which : c.kernel.queues[q.index]? = some queue)
    (unattended : c.kernel.Unattended queue.discipline)
    (room : c.kernel.queueCount queue + 1 ≠ 0)
    (h : ∀ c', c.Becomes (c.kernel.received q queue slot m) c' → P none c') :
    (enqueue q m).Ends P c := by
  refine .bind (slot_eq_ok.2 ⟨found, rfl⟩) ?_
  rw [if_neg (by simp [free]), if_neg (not_not.2 home)]
  refine .bind rfl (.bind (queue_eq_ok.2 ⟨which, rfl⟩) (.bind kernel_apply ?_))
  obtain ⟨queue', slots', pushed⟩ : ∃ queue' slots',
      queue.push (c.kernel.slots.set m.id.index (slot.filled q m)) m.id = (queue', slots') :=
    ⟨_, _, rfl⟩
  have same : queue'.discipline = queue.discipline := by
    rw [← push_discipline queue (c.kernel.slots.set m.id.index (slot.filled q m)) m.id, pushed]
  have received : c.kernel.received q queue slot m =
      { c.kernel with slots := slots', queues := c.kernel.queues.set q.index queue' }.recounted q
        queue' (c.kernel.queueCount queue + 1) := by
    rw [Kernel.received, Kernel.pushed, Kernel.withSlot, pushed]
  rw [received, Kernel.recounted, same] at h
  rw [Slot.filled] at pushed
  rw [pushed]
  refine .bind rfl (.bind rfl ?_)
  rw [same]
  cases kind : queue.discipline with
  | task s =>
    simp only [kind] at unattended h
    obtain ⟨sem, hs, empty⟩ := unattended
    have counted : c.kernel.queueCount queue = sem.count := by
      simp only [Kernel.queueCount, kind, hs, Option.map_some, Option.getD_some]
    rw [counted] at room h
    refine .andThen (post_unattended hs empty room fun c' became => .pure (h c' ?_))
    obtain ⟨notes, rfl⟩ := became
    refine ⟨notes, ?_⟩
    have posted : (c.kernel.posted s).semaphores =
        c.kernel.semaphores.modify s.index ({ · with count := sem.count + 1 }) := by
      rw [Kernel.posted, ← set_eq_modify _ hs, ← set_eq_modify _ hs]
    simp only [Kernel.posted] at posted ⊢
    rw [posted]
  | driver d =>
    simp only [kind] at unattended h
    have counted : c.kernel.queueCount queue = d.count := by
      simp only [Kernel.queueCount, kind]
    rw [counted] at room h
    obtain ⟨n, put, control, data⟩ := d
    obtain rfl : put = none := unattended
    refine .bind (increment_eq_ok.2 ⟨room, rfl, rfl⟩) (.bind rfl (.bind rfl ?_))
    exact .pure (h _ ⟨_, rfl⟩)

theorem dequeue_ends {queue' : Queue} {slots : List Slot} {id : MessageId} {slot : Slot}
    {payload : Payload} {P : Option Message → Core → Prop}
    (which : c.kernel.queues[q.index]? = some queue)
    (popped : queue.pop c.kernel.slots = some (id, queue', slots))
    (found : slots[id.index]? = some slot) (kept : slot.payload = some payload)
    (h : ∀ c',
      c.Becomes (({ c.kernel with slots }.withQueue q queue').withSlot id slot.emptied) c' →
      P (some { id, home := slot.home, payload }) c') : (dequeue q).Ends P c := by
  refine .bind (queue_eq_ok.2 ⟨which, rfl⟩) (.bind kernel_apply ?_)
  rw [popped]
  refine .bind rfl (.bind rfl (.bind (slot_eq_ok.2 ⟨found, rfl⟩) (.bind rfl ?_)))
  rw [kept]
  exact .pure (h _ ⟨_, rfl⟩)

theorem attempt_poll {r : Resource} {available : Bool} {P : Verdict → Core → Prop}
    (seen : isAvailable r c = .ok available c) (busy : available = false → P .timedOut c)
    (free : available = true → (claim r).Ends (fun _ => P .claimed) c) :
    (attempt r noWait .ok).Ends P c := by
  refine .bind seen ?_
  rw [if_neg (by decide)]
  cases available with
  | false =>
    rw [if_neg (by decide), if_pos (show noWait = 0 from rfl)]
    exact .pure (busy rfl)
  | true =>
    rw [if_pos rfl]
    obtain ⟨_, c', claimed, h⟩ := free rfl
    exact .bind claimed (.pure h)

theorem claim_semaphore {s : SemId} {sem : Semaphore} {P : Unit → Core → Prop}
    (found : c.kernel.semaphores[s.index]? = some sem) (units : sem.count ≠ 0)
    (h : P () { c with kernel := { c.kernel with
      semaphores := c.kernel.semaphores.modify s.index ({ · with count := sem.count - 1 }) } }) :
    (claim (.semaphore s)).Ends P c := by
  refine .bind (semaphore_eq_ok.2 ⟨found, rfl⟩) (.bind (decrement_eq_ok.2 ⟨units, rfl, rfl⟩) ?_)
  refine ⟨(), _, rfl, ?_⟩
  rw [← set_eq_modify _ found] at h
  exact h

theorem beginWait_poll {s : SemId} {sem : Semaphore} {P : Verdict → Core → Prop}
    (found : c.kernel.semaphores[s.index]? = some sem)
    (none : sem.count = 0 → ∀ c', c.Becomes c.kernel c' → P .timedOut c')
    (some : sem.count ≠ 0 → ∀ c', c.Becomes { c.kernel with
      semaphores := c.kernel.semaphores.modify s.index ({ · with count := sem.count - 1 }) } c' →
      P .claimed c') : (beginWait s noWait).Ends P c := by
  refine .bind (semaphore_eq_ok.2 ⟨found, rfl⟩) (.bind rfl (.andThen ?_))
  refine attempt_poll (bind_eq_ok.2 ⟨sem, _, semaphore_eq_ok.2 ⟨found, rfl⟩, rfl⟩)
    (fun empty => ?_) fun units => ?_
  · have empty : sem.count = 0 :=
      not_not.1 fun units => of_decide_eq_false empty (UInt32.pos_iff_ne_zero.2 units)
    refine .bind (bind_eq_ok.2 ⟨sem, _, semaphore_eq_ok.2 ⟨found, rfl⟩, rfl⟩) ?_
    exact .pure (none empty _ ⟨_, rfl⟩)
  · have units : sem.count ≠ 0 := UInt32.pos_iff_ne_zero.1 (of_decide_eq_true units)
    refine claim_semaphore found units ?_
    refine .bind (bind_eq_ok.2 ⟨{ sem with count := sem.count - 1 }, _,
      semaphore_eq_ok.2 ⟨?_, rfl⟩, rfl⟩) ?_
    · simp [Core.addNote, found]
    · exact .pure (some units _ ⟨_, rfl⟩)

theorem pollDriver_ends {d : Driver} {P : Option Message → Core → Prop}
    (which : c.kernel.queues[q.index]? = some queue) (kind : queue.discipline = .driver d)
    (none : d.count = 0 → ∀ c', c.Becomes c.kernel c' → P none c')
    (some : d.count ≠ 0 → (dequeue q).Ends (fun m c' => ∃ x, m = some x ∧
        ∀ c'', c'.Becomes c'.kernel c'' → P m c'')
      { c with kernel := c.kernel.withQueue q (queue.counting d (d.count - 1)) }) :
    (pollDriver q).Ends P c := by
  refine .bind (queue_eq_ok.2 ⟨which, rfl⟩) ?_
  rw [kind]
  by_cases empty : d.count = 0
  · simp only [empty, if_true]
    exact .bind rfl (.pure (none empty _ ⟨_, rfl⟩))
  · simp only [empty, if_false]
    obtain ⟨_, c', taken, x, rfl, h⟩ := some empty
    exact .bind rfl (.bind taken (.bind rfl (.pure (h _ ⟨_, rfl⟩))))

end Section

namespace Program.Yields

variable {heap : Heap} {c : Core} {q : QueueId} {queue : Queue}

theorem put {m : Message} {slot : Slot} {P : Except Fault Unit → Core → Prop}
    (found : c.kernel.slots[m.id.index]? = some slot) (free : slot.queue = none)
    (home : slot.home = m.home) (which : c.kernel.queues[q.index]? = some queue)
    (unattended : c.kernel.Unattended queue.discipline)
    (room : c.kernel.queueCount queue + 1 ≠ 0)
    (h : ∀ c', c.Becomes (c.kernel.received q queue slot m) c' → P (.ok ()) c') :
    (Call.put q m).Yields heap P c :=
  bind (critical (Section.enqueue_unattended found free home which unattended room
    fun c' became => .done (h c' became)))

theorem wait {s : SemId} {sem : Semaphore} {P : Except Fault Status → Core → Prop}
    (found : c.kernel.semaphores[s.index]? = some sem)
    (none : sem.count = 0 → ∀ c', c.Becomes c.kernel c' → P (.ok .timeout) c')
    (some : sem.count ≠ 0 → ∀ c', c.Becomes { c.kernel with
      semaphores := c.kernel.semaphores.modify s.index ({ · with count := sem.count - 1 }) } c' →
      P (.ok .ok) c') : (Call.wait s noWait).Yields heap P c := by
  refine .quiet rfl (fun _ _ same => same) fun saved => .acts ?_
  refine Section.beginWait_poll found (fun empty c' became => ?_) fun units c' became => ?_
  · exact .unrolls (.leave (none empty c' became))
  · exact .unrolls (.leave (some units c' became))

/-- A receive that does not wait takes the first message of its queue, if the queue counts any. On
a driver queue no receive waits. -/
theorem receive {ticks : Int32} {P : Except Fault (Option Message) → Core → Prop}
    (which : c.kernel.queues[q.index]? = some queue)
    (known : ∀ s, queue.discipline = .task s →
      ticks = noWait ∧ ∃ sem, c.kernel.semaphores[s.index]? = some sem)
    (none : c.kernel.queueCount queue = 0 → ∀ c', c.Becomes c.kernel c' → P (.ok none) c')
    (some : c.kernel.queueCount queue ≠ 0 → ∃ id queue' slots slot payload,
      queue.pop c.kernel.slots = some (id, queue', slots) ∧ slots[id.index]? = some slot ∧
        slot.payload = some payload ∧
        ∀ c', c.Becomes (c.kernel.relieved q queue queue' slots id slot) c' →
          P (.ok (some { id, home := slot.home, payload })) c') :
    (Call.receive q ticks).Yields heap P c := by
  refine bind (reading ?_)
  rw [Kernel.queueSemaphore_eq which]
  cases kind : queue.discipline with
  | task s =>
    obtain ⟨rfl, sem, found⟩ := known s kind
    have counted : c.kernel.queueCount queue = sem.count := by
      simp only [Kernel.queueCount, kind, found, Option.map_some, Option.getD_some]
    rw [counted] at none some
    refine bind (wait found ?_ ?_)
    · exact fun empty c' became => .done (none empty c' became)
    rintro units _ ⟨notes, rfl⟩
    obtain ⟨id, queue', slots, slot, payload, popped, held, kept, h⟩ := some units
    refine bind (critical ?_)
    refine Section.dequeue_ends which popped held kept ?_
    rintro _ ⟨notes', rfl⟩
    refine .done (h _ ⟨notes', ?_⟩)
    have same : queue'.discipline = .task s := (Queue.pop_discipline popped).trans kind
    rw [Kernel.relieved, Kernel.recounted, same, counted]
    rfl
  | driver d =>
    have counted : c.kernel.queueCount queue = d.count := by
      simp only [Kernel.queueCount, kind]
    rw [counted] at none some
    refine critical (a := .pollDriver q) (Section.pollDriver_ends which kind none fun units => ?_)
    obtain ⟨id, queue', slots, slot, payload, popped, held, kept, h⟩ := some units
    have known := (List.getElem?_eq_some_iff.1 which).1
    refine Section.dequeue_ends (List.getElem?_set_self known)
      (Queue.pop_counting popped) held kept ?_
    rintro _ ⟨notes, rfl⟩
    refine ⟨_, rfl, ?_⟩
    rintro _ ⟨notes', rfl⟩
    refine h _ ⟨notes', ?_⟩
    have same : queue'.discipline = .driver d := (Queue.pop_discipline popped).trans kind
    rw [Kernel.relieved, Kernel.recounted, same, counted]
    simp only [Kernel.withQueue, Kernel.withSlot, List.set_set]

end Program.Yields

end Rtos
