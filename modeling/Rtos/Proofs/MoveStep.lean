import Rtos.Proofs.Contract
import Rtos.Proofs.Moving

/-!
# What an action does to the messages

An action leaves all queues and slots alone, or it adds a queue or a pool, puts one message on a
queue, takes one off, or hangs routines on a driver queue. `Action.moveStep` says so of all actions.
-/

namespace Rtos

def Discipline.more : Discipline → Discipline
  | task s => task s
  | driver d => driver { d with count := d.count + 1 }

def Discipline.less : Discipline → Discipline
  | task s => task s
  | driver d => driver { d with count := d.count - 1 }

def Discipline.HasRoom : Discipline → Prop
  | task _ => True
  | driver d => d.count + 1 ≠ 0

def Discipline.Counts : Discipline → Prop
  | task _ => False
  | driver d => d.count ≠ 0

def Discipline.semaphore : Discipline → Option SemId
  | task s => some s
  | driver _ => none

def Slot.filled (slot : Slot) (q : QueueId) (m : Message) : Slot :=
  { slot with queue := some q, payload := some m.payload }

/-- The slot of a message that somebody holds. -/
def Slot.emptied (slot : Slot) : Slot := { slot with queue := none, payload := none }

/-- What an action did to the messages. -/
inductive MoveStep {β : Type} (a : Action β) (b : β) (k k' : Kernel) : Prop
  | still (puts : a.puts = none) (taken : Outcome.taken ⟨a, b⟩ = none)
      (made : Outcome.made ⟨a, b⟩ = []) (after : k.Still k')
  | adds (name : String) (d : Discipline) (puts : a.puts = none) (adds : a.adds = some d)
      (taken : Outcome.taken ⟨a, b⟩ = none) (made : Outcome.made ⟨a, b⟩ = [])
      (slots : k'.slots = k.slots) (queues : k'.queues = k.queues ++ [{ name, discipline := d }])
  | pools (q : QueueId) (shape : PoolShape) (puts : a.puts = none)
      (taken : Outcome.taken ⟨a, b⟩ = none)
      (made : Outcome.made ⟨a, b⟩ =
        Call.freshMessages q ⟨k.slots.length⟩ shape (Call.blankStorage shape))
      (slots : k'.slots = k.slots ++ List.replicate shape.count { home := q })
      (queues : k'.queues = k.queues.modify q.index ({ · with pool := some shape }))
      (fits : k.slots.length + shape.count ≤ Limits.slots)
  | puts (q : QueueId) (m : Message) (slot : Slot) (queue : Queue) (puts : a.puts = some (q, m))
      (taken : Outcome.taken ⟨a, b⟩ = none)
      (made : Outcome.made ⟨a, b⟩ = []) (found : k.slots[m.id.index]? = some slot)
      (free : slot.queue = none) (home : slot.home = m.home)
      (which : k.queues[q.index]? = some queue) (room : queue.discipline.HasRoom)
      (slots : k'.slots = (queue.push (k.slots.set m.id.index (slot.filled q m)) m.id).2)
      (queues : k'.queues = k.queues.set q.index
        { (queue.push (k.slots.set m.id.index (slot.filled q m)) m.id).1 with
          discipline := queue.discipline.more })
  | takes (q : QueueId) (m : Message) (slot : Slot) (queue queue' : Queue) (slots₁ : List Slot)
      (d : Discipline) (puts : a.puts = none)
      (taken : Outcome.taken ⟨a, b⟩ = some (q, m)) (made : Outcome.made ⟨a, b⟩ = [])
      (which : k.queues[q.index]? = some queue) (pop : queue.pop k.slots = some (m.id, queue', slots₁))
      (found : slots₁[m.id.index]? = some slot) (home : slot.home = m.home)
      (payload : slot.payload = some m.payload)
      (how : a.redeems = some q ∧ d = queue.discipline ∨
        a.redeems = none ∧ queue.discipline.Counts ∧ d = queue.discipline.less)
      (slots : k'.slots = slots₁.set m.id.index slot.emptied)
      (queues : k'.queues = k.queues.set q.index { queue' with discipline := d })
  | hangs (q : QueueId) (queue : Queue) (d d' : Driver) (puts : a.puts = none)
      (taken : Outcome.taken ⟨a, b⟩ = none)
      (made : Outcome.made ⟨a, b⟩ = []) (which : k.queues[q.index]? = some queue)
      (before : queue.discipline = .driver d) (count : d'.count = d.count)
      (slots : k'.slots = k.slots)
      (queues : k'.queues = k.queues.set q.index { queue with discipline := .driver d' })

namespace Kernel

variable {k k' : Kernel} {w : Waitable} {t : TaskId} {ticks : Int32} {r : Resource}

theorem still_enlisted : k.Still (k.enlisted w t ticks) := still_withWaiters

theorem still_unlisted : k.Still (k.unlisted w t) := still_withWaiters

theorem still_woken : k.Still (k.woken w) := by
  unfold woken
  split
  · exact .rfl
  · exact still_withWaiters

theorem still_claimed : k.Still (k.claimed r) := by cases r <;> exact ⟨rfl, rfl⟩

end Kernel

theorem Tries.still {r : Resource} {ticks : Int32} {resumed : Option TaskId} {k k' : Kernel}
    {v : Verdict} (h : Tries r ticks resumed k v k') : k.Still k' := by
  cases h with
  | sleepsOn => exact .rfl
  | timedOut => exact Kernel.still_unlisted
  | deeper => exact ⟨rfl, rfl⟩
  | claimed => exact Kernel.still_claimed
  | polled => exact .rfl
  | asleep me _ _ _ _ _ _ _ after => exact Kernel.still_enlisted.trans after.still

namespace Section

variable {c c' : Core} {q : QueueId}

theorem pop_discipline (queue : Queue) (d : Discipline) (slots : List Slot) :
    ({ queue with discipline := d } : Queue).pop slots =
      (queue.pop slots).map fun (id, queue', slots') =>
        (id, { queue' with discipline := d }, slots') := by
  cases hf : queue.first <;> simp [Queue.pop, hf]

theorem dequeue_takes {k : Kernel} {m : Message} {queue : Queue} {d : Discipline}
    (which : k.queues[q.index]? = some queue)
    (hc : c.kernel = k.withQueue q { queue with discipline := d })
    (h : dequeue q c = .ok (some m) c') :
    ∃ slot queue' slots₁, queue.pop k.slots = some (m.id, queue', slots₁) ∧
      slots₁[m.id.index]? = some slot ∧ slot.home = m.home ∧ slot.payload = some m.payload ∧
      c'.kernel.slots = slots₁.set m.id.index slot.emptied ∧
      c'.kernel.queues = k.queues.set q.index { queue' with discipline := d } := by
  have hi := (List.getElem?_eq_some_iff.1 which).1
  obtain ⟨x, hx, ⟨-, hm, -⟩ | ⟨id, queue', slots, slot, payload, pop, found, hp, hm, hk⟩⟩ :=
    dequeue_ok h
  · exact nomatch hm
  · rw [hc] at hx pop hk
    simp only [Kernel.withQueue, List.getElem?_set_self hi, Option.some.injEq] at hx
    subst hx
    cases hm
    change ({ queue with discipline := d } : Queue).pop k.slots = _ at pop
    rw [pop_discipline, Option.map_eq_some_iff] at pop
    obtain ⟨⟨id', queue', slots'⟩, pop, he⟩ := pop
    cases he
    refine ⟨slot, queue', slots, pop, found, rfl, hp, ?_, ?_⟩
    · rw [hk]
      rfl
    · rw [hk]
      simp only [Kernel.withSlot, Kernel.withQueue, List.set_set]

end Section

namespace MoveStep

open Section

variable {c c' : Core} {q : QueueId}

theorem of_addQueue {name : String} {d : Discipline} {b : Option QueueId}
    (h : adding (·.addQueue name d) c = .ok b c') :
    MoveStep (.addQueue name d) b c.kernel c'.kernel := by
  rcases adding_ok h with ⟨rfl, rfl⟩ | ⟨q, rfl, hk⟩
  · exact .still rfl rfl rfl .rfl
  · obtain ⟨-, rfl, kernel⟩ := Kernel.addQueue_eq_some hk
    exact .adds name d rfl rfl rfl rfl (by rw [kernel]) (by rw [kernel])

theorem of_addPool {shape : PoolShape} {b : Option MessageId}
    (h : adding (·.addPool q shape) c = .ok b c') :
    MoveStep (.addPool q shape) b c.kernel c'.kernel := by
  rcases adding_ok h with ⟨rfl, rfl⟩ | ⟨first, rfl, hk⟩
  · exact .still rfl rfl rfl .rfl
  · obtain ⟨fits, rfl, kernel⟩ := Kernel.addPool_eq_some hk
    exact .pools q shape rfl rfl rfl (by rw [kernel]) (by rw [kernel])
      (by simpa [Kernel.slotsFit] using fits)

theorem of_enqueue {m : Message} {b : Option (PutRoutine × UInt64)}
    (h : enqueue q m c = .ok b c') : MoveStep (.enqueue q m) b c.kernel c'.kernel := by
  obtain ⟨slot, queue, found, free, home, which, ⟨s, x, hd, rfl, -, -, after⟩ | ⟨d, hd, room, hk⟩⟩ :=
    enqueue_ok h
  · have still := (Kernel.Still.trans ⟨rfl, rfl⟩ Kernel.still_woken).trans after.still
    have same : queue.discipline.more =
        (queue.push (c.kernel.slots.set m.id.index (slot.filled q m)) m.id).1.discipline := by
      rw [push_discipline, hd]
      rfl
    apply MoveStep.puts q m slot queue rfl rfl rfl found free home which (hd ▸ trivial) still.slots
    rw [still.queues, same]
    rfl
  · apply MoveStep.puts q m slot queue rfl rfl rfl found free home which (hd ▸ room)
    · rw [hk]
      rfl
    · rw [hk, hd]
      simp only [Kernel.withQueue, Kernel.pushed, List.set_set]
      rfl

theorem of_dequeue {b : Option Message} (h : dequeue q c = .ok b c') :
    MoveStep (.dequeue q) b c.kernel c'.kernel := by
  cases b with
  | none =>
    obtain ⟨queue, -, ⟨-, -, rfl⟩ | ⟨id, queue', slots, slot, payload, -, -, -, hb, -⟩⟩ :=
      dequeue_ok h
    · exact .still rfl rfl rfl .rfl
    · cases hb
  | some m =>
    obtain ⟨queue, which, -⟩ := dequeue_ok h
    have same : c.kernel = c.kernel.withQueue q queue := by
      obtain ⟨hi, rfl⟩ := List.getElem?_eq_some_iff.1 which
      rw [Kernel.withQueue, List.set_getElem_self hi]
    obtain ⟨slot, queue', slots₁, pop, found, home, hp, slots, queues⟩ := dequeue_takes which same h
    exact .takes q m slot queue queue' slots₁ _ rfl rfl rfl which pop found home hp
      (.inl ⟨rfl, rfl⟩) slots queues

theorem of_pollDriver {b : Option Message} (h : pollDriver q c = .ok b c') :
    MoveStep (.pollDriver q) b c.kernel c'.kernel := by
  obtain ⟨queue, which, ⟨rfl, hk, -⟩ | ⟨d, m, c₁, hd, hn, rfl, taken, hk⟩⟩ := pollDriver_ok h
  · rw [hk]
    exact .still rfl rfl rfl .rfl
  · obtain ⟨slot, queue', slots₁, pop, found, home, hp, slots, queues⟩ := dequeue_takes which rfl taken
    have less : Discipline.driver { d with count := d.count - 1 } = queue.discipline.less := by
      rw [hd]
      rfl
    rw [hk]
    exact .takes q m slot queue queue' slots₁ _ rfl rfl rfl which pop found home hp
      (.inr ⟨rfl, hd ▸ hn, less⟩) slots queues

theorem of_setRoutines {put : Option PutRoutine} {control : Option ControlRoutine} {data : UInt64}
    {b : Except Error Unit} (h : setRoutines q put control data c = .ok b c') :
    MoveStep (.setRoutines q put control data) b c.kernel c'.kernel := by
  rcases setRoutines_ok h with hk | ⟨queue, d, which, before, hk⟩
  · rw [hk]
    exact .still rfl rfl rfl .rfl
  · rw [hk]
    exact .hangs q queue d { d with put, control, data } rfl rfl rfl which before rfl rfl rfl

end MoveStep

def Action.handles {β : Type} : Action β → Bool
  | addQueue .. | addPool .. | enqueue .. | dequeue _ | pollDriver _ | setRoutines .. => true
  | _ => false

open Section in
theorem Action.still {β : Type} {a : Action β} {b : β} {c c' : Core}
    (h : a.toSection c = .ok b c') (idle : a.handles = false) : c.kernel.Still c'.kernel := by
  cases a with
  | read f => exact (Quiets.reading f c b c' h).still
  | schedule => exact (Quiets.schedule c b c' h).still
  | tick => exact (Quiets.tick c b c' h).still
  | switch sp => exact (Quiets.switch sp c b c' h).still
  | startWith t => exact (Quiets.startWith t c b c' h).still
  | delay ticks =>
    rcases delay_ok h with ⟨-, rfl⟩ | ⟨-, me, -, after⟩
    · exact .rfl
    · exact after.still.of_same rfl rfl
  | wake t => exact (Quiets.wake t c b c' h).still
  | exit =>
    obtain ⟨me, -, after⟩ := exit_ok h
    exact after.still.of_same rfl rfl
  | setLocalWord n value => exact (Quiets.setLocalWord n value c b c' h).still
  | resetTimes => exact (Quiets.resetTimes c b c' h).still
  | addTask name priority sp stackBytes =>
    exact (Quiets.adding (fun _ _ _ => Kernel.quiet_addTask) c b c' h).still
  | addSemaphore name count =>
    exact (Quiets.adding (fun _ _ _ => Kernel.quiet_addSemaphore) c b c' h).still
  | addMutex name => exact (Quiets.adding (fun _ _ _ => Kernel.quiet_addMutex) c b c' h).still
  | post s =>
    obtain ⟨x, -, -, after⟩ := post_ok h
    exact (Kernel.still_woken.trans after.still).of_same rfl rfl
  | beginWait s ticks => exact (beginWait_ok h).still
  | resumeWait s ticks t => exact (resumeWait_ok h).still
  | beginLock m ticks =>
    obtain ⟨me, v⟩ := b
    exact (beginLock_ok h).2.still
  | resumeLock m l ticks t => exact (resumeLock_ok h).still
  | unlock m =>
    obtain ⟨me, x, -, -, -, -, ⟨-, after⟩ | ⟨-, after⟩⟩ := unlock_ok h
    · exact (Kernel.still_woken.trans after.still).of_same rfl rfl
    · exact after ▸ ⟨rfl, rfl⟩
  | addQueue | addPool | enqueue | dequeue | pollDriver | setRoutines => cases idle

/-- What actions do to the messages. -/
theorem Action.moveStep {β : Type} {a : Action β} {b : β} {c c' : Core}
    (h : a.toSection c = .ok b c') : MoveStep a b c.kernel c'.kernel := by
  cases a with
  | addQueue name d => exact .of_addQueue h
  | addPool q shape => exact .of_addPool h
  | enqueue q m => exact .of_enqueue h
  | dequeue q => exact .of_dequeue h
  | pollDriver q => exact .of_pollDriver h
  | setRoutines q put control data => exact .of_setRoutines h
  | _ => exact .still rfl rfl rfl (Action.still h rfl)

namespace Discipline

@[simp] theorem semaphore_more (d : Discipline) : d.more.semaphore = d.semaphore := by
  cases d <;> rfl

@[simp] theorem semaphore_less (d : Discipline) : d.less.semaphore = d.semaphore := by
  cases d <;> rfl

end Discipline

theorem Kernel.queueSemaphore_eq_ok {k : Kernel} {q : QueueId} {s : Option SemId} :
    k.queueSemaphore q = .ok s ↔
      (k.queues[q.index]?.map fun x => x.discipline.semaphore) = some s := by
  cases hq : k.queues[q.index]? with
  | none =>
    have he : k.queue q = .error (.badIndex k.queues.length q.index) := by
      simp only [Kernel.queue, entry, hq]
    simp [Kernel.queueSemaphore, he, bind, Except.bind]
  | some x =>
    rw [Kernel.queueSemaphore_eq hq]
    cases hd : x.discipline <;> simp [hd, Discipline.semaphore]

theorem MoveStep.precedes {β : Type} {a : Action β} {b : β} {k k' : Kernel}
    (h : MoveStep a b k k') : k.Precedes k' := by
  have set {q : QueueId} {x x' : Queue} (which : k.queues[q.index]? = some x)
      (same : x'.discipline.semaphore = x.discipline.semaphore)
      (queues : k'.queues = k.queues.set q.index x') : k.Precedes k' := by
    intro q' s hs
    rw [Kernel.queueSemaphore_eq_ok] at hs ⊢
    rw [queues, List.getElem?_set]
    have hi := (List.getElem?_eq_some_iff.1 which).1
    by_cases hq : q.index = q'.index
    · rw [if_pos hq, if_pos hi, Option.map_some, same]
      rwa [← hq, which, Option.map_some] at hs
    · rwa [if_neg hq]
  cases h with
  | still _ _ _ after =>
    intro q s hs
    rwa [Kernel.queueSemaphore_eq_ok, after.queues, ← Kernel.queueSemaphore_eq_ok]
  | adds name d _ _ _ _ _ queues =>
    intro q s hs
    rw [Kernel.queueSemaphore_eq_ok] at hs ⊢
    obtain ⟨x, hx, rfl⟩ := Option.map_eq_some_iff.1 hs
    rw [queues, List.getElem?_append_left (List.getElem?_eq_some_iff.1 hx).1, hx, Option.map_some]
  | pools q shape _ _ _ _ queues _ =>
    intro q' s hs
    rw [Kernel.queueSemaphore_eq_ok] at hs ⊢
    rw [queues, List.getElem?_modify, ← hs]
    cases k.queues[q'.index]? with
    | none => rfl
    | some x => by_cases h : q.index = q'.index <;> simp [h]
  | puts q m slot queue _ _ _ _ _ _ which _ _ queues =>
    exact set which queue.discipline.semaphore_more queues
  | takes q m slot queue queue' slots₁ d _ _ _ which _ _ _ _ how _ queues =>
    refine set which ?_ queues
    rcases how with ⟨-, rfl⟩ | ⟨-, -, rfl⟩
    · rfl
    · exact queue.discipline.semaphore_less
  | hangs q queue d d' _ _ _ which before _ _ queues =>
    exact set which (before ▸ rfl) queues

theorem Action.precedes {β : Type} {a : Action β} {b : β} {c c' : Core}
    (h : a.toSection c = .ok b c') : c.kernel.Precedes c'.kernel := (Action.moveStep h).precedes

end Rtos
