import Rtos.Proofs.Pool

/-!
# What lies on the queues

The `shelves` of a kernel are its queues and slots without anything that depends on the kind of a
queue. Some queues are `Shelved` if nobody attends to them and the count of each is the number of its
messages, whoever keeps it. A put and a take leave them so, and so does making a queue or a pool.
-/

namespace Rtos

namespace Queue

variable {queue queue' : Queue} {slots slots' : List Slot} {id : MessageId}

def bare (queue : Queue) : Queue := { queue with discipline := .driver {} }

theorem ends_of_bare (same : queue.bare = queue'.bare) :
    queue.first = queue'.first ∧ queue.last = queue'.last :=
  ⟨(Queue.mk.inj same).2.2.1, (Queue.mk.inj same).2.2.2.1⟩

theorem push_bare : queue.bare.push slots id =
    ((queue.push slots id).1.bare, (queue.push slots id).2) := by
  obtain ⟨name, discipline, first, last, pool⟩ := queue
  cases first <;> cases last <;> rfl

theorem pop_bare : queue.bare.pop slots =
    (queue.pop slots).map fun (id, queue', slots') => (id, queue'.bare, slots') := by
  obtain ⟨name, discipline, first, last, pool⟩ := queue
  cases first <;> rfl

end Queue

namespace Kernel

/-- The queues of the kernel without their kinds, and what lies on them. -/
def shelves (k : Kernel) : Kernel := { slots := k.slots, queues := k.queues.map Queue.bare }

/-- The queues in `Q` are unattended, and all that their counts stand for is on them. -/
structure Shelved (Q : QueueId → Prop) (k : Kernel) : Prop where
  order : k.QueuesInOrder
  bound : k.slots.length ≤ Limits.slots
  unattended : ∀ (q : QueueId) queue, Q q → k.queues[q.index]? = some queue →
    k.Unattended queue.discipline
  counted : ∀ (q : QueueId) queue, Q q → k.queues[q.index]? = some queue →
    (k.queueCount queue).toNat = (k.queued q).length
  apart : ∀ (q q' : QueueId) queue queue' s, Q q → Q q' → k.queues[q.index]? = some queue →
    k.queues[q'.index]? = some queue' → queue.discipline = .task s → queue'.discipline = .task s →
    q = q'

theorem Shelved.initial (Q : QueueId → Prop) (clock : Clock) :
    ({ clock : Core }).kernel.Shelved Q where
  order := .initial clock
  bound := Nat.zero_le _
  unattended _ _ _ found := nomatch found
  counted _ _ _ found := nomatch found
  apart _ _ _ _ _ _ _ found := nomatch found

def moved (k : Kernel) (q : QueueId) (queue : Queue) (slots : List Slot) (n : UInt32) : Kernel :=
  { k with slots, queues := k.queues.set q.index queue }.recounted q queue n

variable {k : Kernel} {Q : QueueId → Prop} {q q' : QueueId} {queue queue' x : Queue}
  {slots : List Slot} {n : UInt32}

theorem relieved_eq {id : MessageId} {slot : Slot} : k.relieved q queue queue' slots id slot =
    k.moved q queue' (slots.set id.index slot.emptied) (k.queueCount queue - 1) := rfl

theorem slots_moved : (k.moved q queue' slots n).slots = slots := by
  unfold moved recounted
  split <;> rfl

theorem shelves_moved : (k.moved q queue' slots n).shelves =
    { slots, queues := k.shelves.queues.set q.index queue'.bare } := by
  unfold moved recounted
  split
  · simp only [shelves, List.map_set]
  · simp only [shelves, withQueue, List.set_set, List.map_set]
    rfl

theorem queues_moved (k : Kernel) (q : QueueId) (queue' : Queue) (slots : List Slot) (n : UInt32) :
    ∃ x, (k.moved q queue' slots n).queues = k.queues.set q.index x ∧ x.bare = queue'.bare ∧
      (∀ s, queue'.discipline = .task s → x.discipline = .task s) ∧
      ∀ d, queue'.discipline = .driver d → x.discipline = .driver { d with count := n } := by
  unfold moved recounted
  split
  · next s kind => exact ⟨queue', rfl, rfl, fun _ h => h, fun d h => nomatch kind.symm.trans h⟩
  · next d kind =>
    refine ⟨queue'.counting d n, by simp only [withQueue, List.set_set], rfl,
      fun s h => (nomatch kind.symm.trans h), fun d' h => ?_⟩
    obtain rfl := Discipline.driver.inj (kind.symm.trans h)
    rfl

theorem semaphores_moved {s : SemId} (kind : queue'.discipline = .task s) :
    (k.moved q queue' slots n).semaphores[s.index]? =
      k.semaphores[s.index]?.map ({ · with count := n }) := by
  rw [moved, recounted, kind]
  simp only [List.getElem?_modify, if_true]
  rfl

theorem semaphores_moved_of_ne {s : SemId} (kind : queue'.discipline ≠ .task s) :
    (k.moved q queue' slots n).semaphores[s.index]? = k.semaphores[s.index]? := by
  unfold moved recounted
  split
  · next s' kind' =>
    have other : s'.index ≠ s.index := fun same =>
      kind (kind'.trans (congrArg (fun i => Discipline.task ⟨i⟩) same))
    simp only [List.getElem?_modify, if_neg other, id_map']
  · rfl

theorem queueCount_moved {x : Queue} (known : k.Unattended queue'.discipline)
    (task : ∀ s, queue'.discipline = .task s → x.discipline = .task s)
    (driver : ∀ d, queue'.discipline = .driver d → x.discipline = .driver { d with count := n }) :
    (k.moved q queue' slots n).queueCount x = n := by
  cases kind : queue'.discipline with
  | task s =>
    rw [kind] at known
    obtain ⟨sem, found, -⟩ := known
    rw [queueCount, task s kind]
    simp only [semaphores_moved kind, found, Option.map_some, Option.getD_some]
  | driver d => rw [queueCount, driver d kind]

theorem Unattended.moved {d : Discipline} (h : k.Unattended d) :
    (k.moved q queue' slots n).Unattended d := by
  cases d with
  | task s =>
    obtain ⟨sem, found, empty⟩ := h
    by_cases kind : queue'.discipline = .task s
    · exact ⟨{ sem with count := n }, by rw [semaphores_moved kind, found]; rfl, empty⟩
    · exact ⟨sem, (semaphores_moved_of_ne kind).trans found, empty⟩
  | driver d => exact h

theorem Shelved.moves (h : k.Shelved Q) (hq : Q q) (which : k.queues[q.index]? = some queue)
    (kind : queue'.discipline = queue.discipline) {l : List MessageId}
    (order : (k.moved q queue' slots n).QueuesInOrder) (size : slots.length = k.slots.length)
    (lists : ∀ q', (k.moved q queue' slots n).queued q' = if q' = q then l else k.queued q')
    (count : n.toNat = l.length) : (k.moved q queue' slots n).Shelved Q := by
  obtain ⟨x, queues, -, task, driver⟩ := queues_moved k q queue' slots n
  have known := h.unattended q queue hq which
  rw [← kind] at known
  have split {q' : QueueId} {y : Queue}
      (hy : (k.moved q queue' slots n).queues[q'.index]? = some y) :
      q' = q ∧ y = x ∨ q' ≠ q ∧ k.queues[q'.index]? = some y := by
    rw [QueuesInOrder.getElem?_queues which queues] at hy
    split at hy
    · exact .inl ⟨‹_›, (Option.some.inj hy).symm⟩
    · exact .inr ⟨‹_›, hy⟩
  -- A queue had the semaphore before that it has now.
  have before {q' : QueueId} {y : Queue} {s : SemId}
      (hy : (k.moved q queue' slots n).queues[q'.index]? = some y) (hs : y.discipline = .task s) :
      ∃ z, k.queues[q'.index]? = some z ∧ z.discipline = .task s := by
    rcases split hy with ⟨rfl, rfl⟩ | ⟨-, hy⟩
    · refine ⟨queue, which, ?_⟩
      cases was : queue'.discipline with
      | task s' => exact kind.symm.trans (was.trans ((task s' was).symm.trans hs))
      | driver d => exact nomatch (driver d was).symm.trans hs
    · exact ⟨y, hy, hs⟩
  refine ⟨order, ?_, fun q' y hq' hy => ?_, fun q' y hq' hy => ?_, ?_⟩
  · rw [slots_moved, size]
    exact h.bound
  · rcases split hy with ⟨rfl, rfl⟩ | ⟨-, hy⟩
    · cases was : queue'.discipline with
      | task s => exact task s was ▸ (was ▸ known).moved
      | driver d =>
        rw [driver d was]
        exact (was ▸ known : k.Unattended (.driver d))
    · exact (h.unattended q' y hq' hy).moved
  · rw [lists]
    rcases split hy with ⟨rfl, rfl⟩ | ⟨other, hy⟩
    · rw [if_pos rfl, queueCount_moved known task driver, count]
    · rw [if_neg other, ← h.counted q' y hq' hy, queueCount, queueCount]
      cases its : y.discipline with
      | task s =>
        have foreign : queue'.discipline ≠ .task s := fun same =>
          other (h.apart q' q y queue s hq' hq hy which its (kind.symm.trans same))
        simp only [semaphores_moved_of_ne foreign]
      | driver d => rfl
  · intro q₁ q₂ y₁ y₂ s h₁ h₂ hy₁ hy₂ hs₁ hs₂
    obtain ⟨z₁, hz₁, ht₁⟩ := before hy₁ hs₁
    obtain ⟨z₂, hz₂, ht₂⟩ := before hy₂ hs₂
    exact h.apart q₁ q₂ z₁ z₂ s h₁ h₂ hz₁ hz₂ ht₁ ht₂

theorem QueuesInOrder.pop_of_filled (order : k.QueuesInOrder)
    (which : k.queues[q.index]? = some queue) (filled : k.queued q ≠ []) :
    ∃ id queue' slots slot payload, queue.pop k.slots = some (id, queue', slots) ∧
      slots[id.index]? = some slot ∧ slot.payload = some payload := by
  have holds := order.holds q queue which
  cases popped : queue.pop k.slots with
  | none =>
    have empty : queue.first = none := by
      unfold Queue.pop at popped
      split at popped
      · assumption
      · exact nomatch popped
    exact absurd (holds.strung.eq_nil empty) filled
  | some found =>
    obtain ⟨id, queue', slots⟩ := found
    obtain ⟨rest, list, -, -, same, -⟩ := holds.pop popped
    obtain ⟨home, payload, label⟩ := order.filed q id (list ▸ List.mem_cons_self)
    obtain ⟨slot, found, is⟩ := Option.map_eq_some_iff.1 ((same id).trans label)
    exact ⟨id, queue', slots, slot, payload, rfl, found, congrArg (·.2.2) is⟩

namespace Shelved

theorem length_queued_le (h : k.Shelved Q) (q : QueueId) : (k.queued q).length ≤ Limits.slots := by
  refine Nat.le_trans ?_ h.bound
  rw [queued]
  cases k.queues[q.index]? with
  | none => exact Nat.zero_le _
  | some queue => exact length_chain_le _ _ _

theorem room (h : k.Shelved Q) (hq : Q q) (which : k.queues[q.index]? = some queue) :
    k.queueCount queue + 1 ≠ 0 := by
  intro full
  have bound : (k.queueCount queue).toNat ≤ 256 := h.counted q queue hq which ▸ h.length_queued_le q
  have wraps := congrArg UInt32.toNat full
  rw [UInt32.toNat_add] at wraps
  simp at wraps
  omega

theorem received (h : k.Shelved Q) (hq : Q q) (which : k.queues[q.index]? = some queue)
    {m : Message} {slot : Slot} (found : k.slots[m.id.index]? = some slot) (free : slot.queue = none) :
    (k.received q queue slot m).Shelved Q := by
  obtain ⟨x, queues, same, -⟩ := queues_moved k q
    (queue.push (k.slots.set m.id.index (slot.filled q m)) m.id).1
    (queue.push (k.slots.set m.id.index (slot.filled q m)) m.id).2 (k.queueCount queue + 1)
  obtain ⟨first, last⟩ := Queue.ends_of_bare same
  obtain ⟨-, order, lists, -⟩ := h.order.puts found free which slots_moved queues first last
  refine h.moves hq which (Section.push_discipline ..) order ?_ lists ?_
  · exact Queue.length_push.trans (List.length_set ..)
  · rw [UInt32.toNat_add_one (h.room hq which), h.counted q queue hq which, List.length_append]
    rfl

theorem pop_of_empty (h : k.Shelved Q) (hq : Q q) (which : k.queues[q.index]? = some queue)
    (empty : k.queueCount queue = 0) : queue.pop k.slots = none := by
  have size := h.counted q queue hq which
  rw [empty] at size
  have first := (h.order.holds q queue which).strung.first_eq
  rw [List.length_eq_zero_iff.1 size.symm] at first
  rw [Queue.pop, first]
  rfl

theorem pop_of_units (h : k.Shelved Q) (hq : Q q) (which : k.queues[q.index]? = some queue)
    (units : k.queueCount queue ≠ 0) :
    ∃ id queue' slots slot payload, queue.pop k.slots = some (id, queue', slots) ∧
      slots[id.index]? = some slot ∧ slot.payload = some payload := by
  refine h.order.pop_of_filled which fun empty => units ?_
  have size := h.counted q queue hq which
  rw [empty, List.length_nil] at size
  exact UInt32.toNat_inj.1 size

theorem relieved (h : k.Shelved Q) (hq : Q q) (which : k.queues[q.index]? = some queue)
    {id : MessageId} {slot : Slot} {payload : Payload}
    (popped : queue.pop k.slots = some (id, queue', slots)) (found : slots[id.index]? = some slot)
    (kept : slot.payload = some payload) (units : k.queueCount queue ≠ 0) :
    (k.relieved q queue queue' slots id slot).Shelved Q := by
  obtain ⟨x, queues, same, -⟩ := queues_moved k q queue' (slots.set id.index slot.emptied)
    (k.queueCount queue - 1)
  obtain ⟨first, last⟩ := Queue.ends_of_bare same
  obtain ⟨-, order, lists, -⟩ := h.order.takes which popped found kept slots_moved queues first last
  have size : slots.length = k.slots.length := by
    obtain ⟨-, -, -, size, -⟩ := (h.order.holds q queue which).pop popped
    exact size
  have after : ∀ q', (k.relieved q queue queue' slots id slot).queued q' =
      if q' = q then (k.relieved q queue queue' slots id slot).queued q else k.queued q' := by
    intro q'
    split
    · rw [‹q' = q›]
    · exact ((lists q').trans (if_neg ‹q' ≠ q›)).symm
  have before := h.counted q queue hq which
  rw [lists q, if_pos rfl, List.length_cons, ← UInt32.toNat_sub_one units] at before
  exact h.moves hq which (Queue.pop_discipline popped) order ((List.length_set ..).trans size) after
    (Nat.succ.inj before)

end Shelved

theorem Unattended.more {k' : Kernel} {l : List Semaphore} {d : Discipline} (h : k.Unattended d)
    (semaphores : k'.semaphores = k.semaphores ++ l) : k'.Unattended d := by
  cases d with
  | task s =>
    obtain ⟨sem, found, empty⟩ := h
    refine ⟨sem, ?_, empty⟩
    rw [semaphores, List.getElem?_append_left (List.getElem?_eq_some_iff.1 found).1, found]
  | driver d => exact h

theorem queueCount_more {k' : Kernel} {l : List Semaphore} (h : k.Unattended queue.discipline)
    (semaphores : k'.semaphores = k.semaphores ++ l) :
    k'.queueCount queue = k.queueCount queue := by
  cases kind : queue.discipline with
  | task s =>
    rw [kind] at h
    obtain ⟨sem, found, -⟩ := h
    have known := (List.getElem?_eq_some_iff.1 found).1
    simp only [queueCount, kind, semaphores, List.getElem?_append_left known]
  | driver d => simp only [queueCount, kind]

/-- `k'` is `k` with one more queue, which holds `l`, and with more slots, all of them for it. -/
structure Gains (k : Kernel) (x : Queue) (own : List Slot) (l : List MessageId) (k' : Kernel) :
    Prop where
  queues : k'.queues = k.queues ++ [x]
  slots : k'.slots = k.slots ++ own
  holds : x.Holds k'.slots l
  fresh : ∀ id ∈ l, k.slots.length ≤ id.index
  labels : ∀ (i : Nat) slot, own[i]? = some slot →
    slot.queue = none ∧ slot.payload = none ∧ slot.next = none ∧ ⟨k.slots.length + i⟩ ∉ l ∨
      slot.queue = some ⟨k.queues.length⟩ ∧ slot.payload.isSome ∧ ⟨k.slots.length + i⟩ ∈ l

namespace Gains

variable {k' : Kernel} {own : List Slot} {l : List MessageId} {name : String} {kind : QueueKind}

theorem split (h : k.Gains x own l k') {y : Queue} (hy : k'.queues[q.index]? = some y) :
    q ≠ ⟨k.queues.length⟩ ∧ k.queues[q.index]? = some y ∨ q = ⟨k.queues.length⟩ ∧ y = x := by
  rw [h.queues, List.getElem?_append] at hy
  split at hy
  · refine .inl ⟨?_, hy⟩
    rintro rfl
    exact Nat.lt_irrefl _ ‹_›
  · have last : q.index - k.queues.length = 0 := by
      have := (List.getElem?_eq_some_iff.1 hy).1
      simpa using this
    rw [last] at hy
    refine .inr ⟨QueueId.index_injective ?_, (Option.some.inj hy).symm⟩
    exact Nat.le_antisymm (Nat.le_of_sub_eq_zero last) (Nat.le_of_not_lt ‹_›)

theorem getElem?_own (h : k.Gains x own l k') {id : MessageId} (new : k.slots.length ≤ id.index) :
    k'.slots[id.index]? = own[id.index - k.slots.length]? ∧
      (⟨k.slots.length + (id.index - k.slots.length)⟩ : MessageId) = id := by
  refine ⟨by rw [h.slots, List.getElem?_append_right new], MessageId.index_injective ?_⟩
  exact Nat.add_sub_cancel' new

theorem order (h : k.Gains x own l k') (before : k.QueuesInOrder) : k'.QueuesInOrder ∧
    ∀ q, k'.queued q = if q = ⟨k.queues.length⟩ then l else k.queued q := by
  have empty : k.queued ⟨k.queues.length⟩ = [] := by
    rw [queued, List.getElem?_eq_none (Nat.le_refl _)]
    rfl
  have old {id : MessageId} (known : id.index < k.slots.length) :
      k'.slots[id.index]? = k.slots[id.index]? := by
    rw [h.slots, List.getElem?_append_left known]
  refine QueuesInOrder.of_lists _ (fun q y hy => ?_) (fun q absent => ?_) (fun q id hid => ?_)
    fun id home holder payload label => ?_
  · rcases h.split hy with ⟨other, hy⟩ | ⟨rfl, rfl⟩
    · rw [if_neg other]
      have holds := before.holds q y hy
      refine holds.congr (by simp [h.slots]) fun id hid => ?_
      rw [SlotTable.next, old (holds.known id hid)]
      rfl
    · rw [if_pos rfl]
      exact h.holds
  · rw [h.queues, List.getElem?_eq_none_iff, List.length_append, List.length_singleton] at absent
    have other : q ≠ ⟨k.queues.length⟩ := by
      rintro rfl
      exact Nat.not_succ_le_self _ absent
    rw [if_neg other, queued, List.getElem?_eq_none (by omega)]
    rfl
  · split at hid
    · next new =>
      subst new
      obtain ⟨same, place⟩ := h.getElem?_own (h.fresh id hid)
      have known := h.holds.known id hid
      have found := List.getElem?_eq_getElem known
      rcases h.labels _ _ (same.symm.trans found) with ⟨-, -, -, absent⟩ | ⟨holder, payload, -⟩
      · exact absurd hid (place ▸ absent)
      · obtain ⟨p, payload⟩ := Option.isSome_iff_exists.1 payload
        refine ⟨k'.slots[id.index].home, p, ?_⟩
        rw [Kernel.label, SlotTable.label, found, Option.map_some, Slot.label, holder, payload]
    · obtain ⟨home, payload, label⟩ := before.filed q id hid
      refine ⟨home, payload, ?_⟩
      rw [Kernel.label, SlotTable.label, old (lt_of_label label)]
      exact label
  · by_cases known : id.index < k.slots.length
    · rw [Kernel.label, SlotTable.label, old known] at label
      rcases before.labels id home holder payload label with ⟨hh, hp, next⟩ | ⟨q, p, hh, hp, hid⟩
      · refine .inl ⟨hh, hp, ?_⟩
        rw [SlotTable.next, old known]
        exact next
      · refine .inr ⟨q, p, hh, hp, ?_⟩
        rwa [if_neg fun new => by rw [new, empty] at hid; cases hid]
    · obtain ⟨same, place⟩ := h.getElem?_own (Nat.le_of_not_lt known)
      obtain ⟨slot, found, is⟩ := Option.map_eq_some_iff.1 label
      obtain ⟨rfl, rfl, rfl⟩ : slot.home = home ∧ slot.queue = holder ∧ slot.payload = payload := by
        simpa only [Slot.label, Prod.mk.injEq] using is
      rcases h.labels _ slot (same.symm.trans found) with ⟨hh, hp, next, -⟩ | ⟨hh, hp, hid⟩
      · exact .inl ⟨hh, hp, by rw [SlotTable.next, found]; exact next⟩
      · obtain ⟨p, hp⟩ := Option.isSome_iff_exists.1 hp
        exact .inr ⟨_, p, hh, hp, by rw [if_pos rfl]; exact place ▸ hid⟩

theorem shelved {n : UInt32} (h : k.Gains x own l k') (before : k.Shelved Q)
    (semaphores : k'.semaphores = k.semaphores ++ kind.semaphores name n)
    (discipline : x.discipline = kind.discipline ⟨k.semaphores.length⟩ n)
    (count : n.toNat = l.length) (bound : k'.slots.length ≤ Limits.slots) : k'.Shelved Q := by
  obtain ⟨order, lists⟩ := h.order before.order
  have unattended : k'.Unattended x.discipline := by
    rw [discipline]
    cases kind with
    | task => exact ⟨{ name, count := n }, by simp [semaphores, QueueKind.semaphores], rfl⟩
    | driver => rfl
  have counted : k'.queueCount x = n := by
    rw [queueCount, discipline]
    cases kind with
    | task => simp [semaphores, QueueKind.semaphores, QueueKind.discipline]
    | driver => rfl
  -- The semaphore of an old queue is an old one.
  have old {q : QueueId} {y : Queue} {s : SemId} (hq : Q q) (hy : k.queues[q.index]? = some y)
      (hs : y.discipline = .task s) : s.index < k.semaphores.length := by
    obtain ⟨sem, found, -⟩ := hs ▸ before.unattended q y hq hy
    exact (List.getElem?_eq_some_iff.1 found).1
  have new {s : SemId} (hs : x.discipline = .task s) : s.index = k.semaphores.length := by
    rw [discipline] at hs
    cases kind with
    | task => rw [← Discipline.task.inj hs]
    | driver => cases hs
  refine ⟨order, bound, fun q y hq hy => ?_, fun q y hq hy => ?_, ?_⟩
  · rcases h.split hy with ⟨-, hy⟩ | ⟨-, rfl⟩
    · exact (before.unattended q y hq hy).more semaphores
    · exact unattended
  · rw [lists]
    rcases h.split hy with ⟨other, hy⟩ | ⟨rfl, rfl⟩
    · rw [if_neg other, queueCount_more (before.unattended q y hq hy) semaphores,
        before.counted q y hq hy]
    · rw [if_pos rfl, counted, count]
  · intro q₁ q₂ y₁ y₂ s h₁ h₂ hy₁ hy₂ hs₁ hs₂
    rcases h.split hy₁ with ⟨-, hy₁⟩ | ⟨rfl, rfl⟩ <;> rcases h.split hy₂ with ⟨-, hy₂⟩ | ⟨rfl, rfl⟩
    · exact before.apart q₁ q₂ y₁ y₂ s h₁ h₂ hy₁ hy₂ hs₁ hs₂
    · exact absurd (new hs₂) (Nat.ne_of_lt (old h₁ hy₁ hs₁))
    · exact absurd (new hs₁) (Nat.ne_of_lt (old h₂ hy₂ hs₂))
    · rfl

end Gains

variable {name : String} {kind : QueueKind} {shape : PoolShape} {storage : Payload}

theorem gains_withNewQueue :
    k.Gains (k.newQueue name kind 0 none) [] [] (k.withNewQueue name kind) where
  queues := rfl
  slots := (List.append_nil _).symm
  holds := ⟨.nil, fun _ h => absurd h List.not_mem_nil⟩
  fresh _ h := absurd h List.not_mem_nil
  labels _ _ h := nomatch h

theorem gains_withPool {filled : Nat} (part : filled ≤ shape.count) :
    k.Gains (k.newQueue name kind filled (some shape))
      (shape.slots storage ⟨k.queues.length⟩ k.slots.length filled)
      ((List.range' k.slots.length filled).map MessageId.mk)
      (k.withPool name kind shape storage filled) where
  queues := rfl
  slots := rfl
  holds := holds_withPool part
  fresh id hid := by
    obtain ⟨i, hi, rfl⟩ := List.mem_map.1 hid
    exact (List.mem_range'_1.1 hi).1
  labels i slot found := by
    have listed : (⟨k.slots.length + i⟩ : MessageId) ∈
        (List.range' k.slots.length filled).map MessageId.mk ↔ i < filled := by
      simp [List.mem_range'_1]
    rw [PoolShape.getElem?_slots] at found
    split at found
    · obtain rfl := Option.some.inj found
      rw [PoolShape.slot]
      split
      · exact .inr ⟨rfl, rfl, listed.2 ‹_›⟩
      · exact .inl ⟨rfl, rfl, rfl, fun h => absurd (listed.1 h) ‹_›⟩
    · cases found

theorem Shelved.withNewQueue (h : k.Shelved Q) : (k.withNewQueue name kind).Shelved Q :=
  gains_withNewQueue.shelved h rfl rfl rfl h.bound

theorem Shelved.withPool (h : k.Shelved Q)
    (fits : k.slots.length + shape.count ≤ Limits.slots) :
    (k.withPool name kind shape storage shape.count).Shelved Q := by
  refine (gains_withPool (Nat.le_refl _)).shelved h rfl rfl ?_ ?_
  · rw [List.length_map, List.length_range']
    have bound : shape.count ≤ 256 := Nat.le_trans (Nat.le_add_left _ _) fits
    exact UInt32.toNat_ofNat_of_lt' (Nat.lt_of_le_of_lt bound (by decide))
  · rw [Kernel.withPool, List.length_append, PoolShape.length_slots]
    exact fits

/-- A new queue looks the same on the shelves, of whatever kind it is. -/
theorem shelves_withNewQueue :
    (k.withNewQueue name kind).shelves = (k.shelves.withNewQueue name .driver).shelves := by
  simp only [shelves, Kernel.withNewQueue, List.map_append, List.map_map]
  rfl

theorem shelves_withPool {filled : Nat} : (k.withPool name kind shape storage filled).shelves =
    (k.shelves.withPool name .driver shape storage filled).shelves := by
  simp only [shelves, Kernel.withPool, List.map_append, List.map_map, List.length_map]
  rfl

end Kernel

end Rtos
