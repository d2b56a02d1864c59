import Mathlib.Data.List.Forall2
import Rtos.Proofs.Alone
import Rtos.Proofs.Homes

/-!
# Listings of messages

A queue is listed along the links of its messages, a pool by the homes in the table of slots, and a
row says which queue its slot names. `Reachable.listsMessages` says that all of these agree: with the
queues as lists of messages, with the pools, and with each other.
-/

namespace Rtos

theorem Except.exists_mapM_eq_ok {ε α β : Type} {f : α → Except ε β} {R : α → β → Prop} {l : List α}
    (h : ∀ a ∈ l, ∃ b, f a = .ok b ∧ R a b) : ∃ bs, l.mapM f = .ok bs ∧ List.Forall₂ R l bs := by
  induction l with
  | nil => exact ⟨[], rfl, .nil⟩
  | cons a l ih =>
    obtain ⟨⟨b, hb, first⟩, rest⟩ := List.forall_mem_cons.1 h
    obtain ⟨bs, hbs, others⟩ := ih rest
    refine ⟨b :: bs, ?_, .cons first others⟩
    rw [List.mapM_cons, hb, hbs]
    rfl

/-- What the row of a slot says. -/
structure MessageRow.Describes (row : MessageRow) (k : Kernel) (id : MessageId) : Prop where
  slot : row.id = id
  /-- It names the pool that the slot belongs to, and the size of the slots of that pool. -/
  home : ∃ home queue shape, k.homeOf id = some home ∧ k.queues[home.index]? = some queue ∧
    queue.pool = some shape ∧ row.home = queue.name ∧ row.length = shape.size
  queue_eq_none : row.queue = none ↔ ∀ q, id ∉ k.queued q
  /-- It names the queue that the message is on, and the message behind it on that queue. -/
  queue : ∀ q before behind, k.queued q = before ++ id :: behind →
    (∃ queue, k.queues[q.index]? = some queue ∧ row.queue = some queue.name) ∧
      row.next = behind.head?
  loose : (∀ q, id ∉ k.queued q) → row.next = none

/-- The rows are those of the listed slots, in that order. -/
structure Kernel.Lists (k : Kernel) (ids : List MessageId) (rows : List MessageRow) : Prop where
  ids : rows.map MessageRow.id = ids
  describes : ∀ row ∈ rows, row.Describes k row.id

namespace Kernel

variable {k : Kernel} {q : QueueId} {id : MessageId} {slot : Slot}

theorem exists_queue_of_mem (hid : id ∈ k.queued q) : ∃ queue, k.queues[q.index]? = some queue := by
  cases found : k.queues[q.index]? with
  | none =>
    rw [queued, found] at hid
    cases hid
  | some queue => exact ⟨queue, rfl⟩

theorem messageRow_eq_ok (id : MessageId) {home : Queue} {shape : PoolShape} {holder : Option Queue}
    (which : k.queues[slot.home.index]? = some home) (pool : home.pool = some shape)
    (names : slot.queue.mapM k.queue = .ok holder) : k.messageRow id slot = .ok
      { id, next := slot.next, home := home.name, queue := holder.map Queue.name
        length := shape.size } := by
  have found : k.queue slot.home = .ok home := Section.entry_eq_ok.2 which
  simp only [messageRow, found, names, pool, bind, Except.bind]
  rfl

theorem QueuesInOrder.exists_messageRow (h : k.QueuesInOrder) (housed : k.Housed)
    (found : k.slots[id.index]? = some slot) :
    ∃ row, k.messageRow id slot = .ok row ∧ row.Describes k id := by
  have label : k.label id = some (slot.home, slot.queue, slot.payload) := by
    rw [Kernel.label, SlotTable.label, found]
    rfl
  have next : SlotTable.next k.slots id = slot.next := by
    rw [SlotTable.next, found, Option.bind_some]
  have homeOf : k.homeOf id = some slot.home := by
    rw [Kernel.homeOf, label, Option.map_some]
  obtain ⟨home, shape, which, pool⟩ := housed id slot.home homeOf
  have belongs : ∃ p queue shape', k.homeOf id = some p ∧ k.queues[p.index]? = some queue ∧
      queue.pool = some shape' ∧ home.name = queue.name ∧ shape.size = shape'.size :=
    ⟨slot.home, home, shape, homeOf, which, pool, rfl, rfl⟩
  rcases h.labels _ _ _ _ label with ⟨free, -, last⟩ | ⟨q, -, holds, -, hid⟩
  · have out : ∀ q, id ∉ k.queued q := by
      rw [free] at label
      exact (h.of_free label).2.2
    have nobody : slot.queue.mapM k.queue = .ok none := by
      rw [free]
      rfl
    refine ⟨_, messageRow_eq_ok id which pool nobody, ?_⟩
    constructor
    case slot => rfl
    case home => exact belongs
    case queue_eq_none => exact ⟨fun _ => out, fun _ => rfl⟩
    case queue =>
      intro q before behind parts
      exact (out q (parts ▸ List.mem_append_right before List.mem_cons_self)).elim
    case loose => exact fun _ => next.symm.trans last
  · obtain ⟨holder, known⟩ := exists_queue_of_mem hid
    have somebody : slot.queue.mapM k.queue = .ok (some holder) := by
      have found : k.queue q = .ok holder := Section.entry_eq_ok.2 known
      rw [holds, Option.mapM_some, found]
      rfl
    refine ⟨_, messageRow_eq_ok id which pool somebody, ?_⟩
    constructor
    case slot => rfl
    case home => exact belongs
    case queue_eq_none =>
      exact ⟨fun none => (Option.some_ne_none _ none).elim, fun out => (out q hid).elim⟩
    case queue =>
      intro q' before behind parts
      obtain rfl : q' = q := h.apart (parts ▸ List.mem_append_right before List.mem_cons_self) hid
      refine ⟨⟨holder, known, rfl⟩, next.symm.trans ?_⟩
      obtain ⟨_, -, rest⟩ := (parts ▸ (h.holds q' holder known).strung.linked).split
      exact rest.start_cons.2.start_eq
    case loose => exact fun out => (out q hid).elim

theorem Lists.of_pairs {ι : Type} {key : ι → MessageId} {l : List ι} {rows : List MessageRow}
    (h : List.Forall₂ (fun i row => row.Describes k (key i)) l rows) : k.Lists (l.map key) rows := by
  induction h with
  | nil => exact ⟨rfl, fun _ h => nomatch h⟩
  | cons first _ ih =>
    exact ⟨congrArg₂ List.cons first.slot ih.ids,
      List.forall_mem_cons.2 ⟨first.slot.symm ▸ first, ih.describes⟩⟩

/-- Slots that there are can be listed. -/
theorem QueuesInOrder.lists {ι : Type} {f : ι → Except Fault MessageRow} {l : List ι}
    (h : k.QueuesInOrder) (housed : k.Housed) (key : ι → MessageId)
    (rows : ∀ i ∈ l, ∃ slot, k.slots[(key i).index]? = some slot ∧ f i = k.messageRow (key i) slot) :
    ∃ rows, l.mapM f = .ok rows ∧ k.Lists (l.map key) rows := by
  have each (i : ι) (hi : i ∈ l) : ∃ row, f i = .ok row ∧ row.Describes k (key i) := by
    obtain ⟨slot, found, same⟩ := rows i hi
    exact same ▸ h.exists_messageRow housed found
  obtain ⟨rows, made, pairs⟩ := Except.exists_mapM_eq_ok each
  exact ⟨rows, made, .of_pairs pairs⟩

theorem QueuesInOrder.queueMessages (h : k.QueuesInOrder) (housed : k.Housed) {queue : Queue}
    (which : k.queues[q.index]? = some queue) : ∃ rows, k.queueMessages queue = .ok rows ∧
      k.Lists ((k.queued q).take Limits.listedMessages) rows := by
  have holds := h.holds q queue which
  have listed := h.lists (f := fun id => do k.messageRow id (← k.slot id))
    (l := (k.queued q).take Limits.listedMessages) housed id fun id hid => ?_
  · rw [Kernel.queueMessages, holds.toList_eq]
    rwa [List.map_id] at listed
  · have known := holds.known id (List.mem_of_mem_take hid)
    have found := List.getElem?_eq_getElem known
    have slot : k.slot id = .ok k.slots[id.index] := Section.entry_eq_ok.2 found
    refine ⟨_, found, ?_⟩
    simp only [slot, bind, Except.bind]
    rfl

theorem slots_of_pool {p : QueueId} : (k.slots.zipIdx.filter fun (s, _) => s.home = p).map
    (fun (_, i) => MessageId.mk i) = k.slotIds.filter fun id => k.homeOf id = some p := by
  have same : (k.slots.zipIdx.filter fun (s, _) => s.home = p) =
      k.slots.zipIdx.filter ((fun id => k.homeOf id = some p) ∘ fun x => MessageId.mk x.2) := by
    refine List.filter_congr fun ⟨slot, i⟩ listed => ?_
    have found : k.slots[i]? = some slot := List.mem_zipIdx_iff_getElem?.1 listed
    simp [Kernel.homeOf, Kernel.label, SlotTable.label, found, Slot.label]
  have ids : k.slots.zipIdx.map (fun x => MessageId.mk x.2) = k.slotIds := by
    rw [slotIds, List.range_eq_range', ← List.zipIdx_map_snd 0 k.slots, List.map_map]
    rfl
  rw [same, ← ids, List.filter_map]

theorem QueuesInOrder.poolMessages (h : k.QueuesInOrder) (housed : k.Housed) (p : QueueId) :
    ∃ rows, k.poolMessages p = .ok rows ∧
      k.Lists ((k.slotIds.filter fun id => k.homeOf id = some p).take Limits.listedMessages) rows := by
  rw [← slots_of_pool, ← List.map_take]
  refine h.lists housed _ fun ⟨slot, i⟩ listed => ⟨slot, ?_, rfl⟩
  exact List.mem_zipIdx_iff_getElem?.1 (List.mem_of_mem_filter (List.mem_of_mem_take listed))

theorem Lists.along {n i : Nat} {rows : List MessageRow} {row : MessageRow} {queue : Queue}
    (h : k.Lists ((k.queued q).take n) rows) (which : k.queues[q.index]? = some queue)
    (found : rows[i]? = some row) :
    row.queue = some queue.name ∧ row.next = (k.queued q)[i + 1]? := by
  have here : (k.queued q)[i]? = some row.id := by
    have listed := congrArg (·[i]?) h.ids
    simp only [List.getElem?_map, found, Option.map_some, List.getElem?_take] at listed
    split at listed
    · exact listed.symm
    · cases listed
  obtain ⟨hi, this⟩ := List.getElem?_eq_some_iff.1 here
  have parts : k.queued q = (k.queued q).take i ++ row.id :: (k.queued q).drop (i + 1) := by
    rw [← this, ← List.drop_eq_getElem_cons hi, List.take_append_drop]
  obtain ⟨⟨queue', which', names⟩, next⟩ :=
    (h.describes row (List.mem_of_getElem? found)).queue q _ _ parts
  obtain rfl : queue = queue' := Option.some.inj (which.symm.trans which')
  exact ⟨names, next.trans List.head?_drop⟩

theorem Housed.no_slots (h : k.Housed) {p : QueueId}
    (strange : ∀ queue, k.queues[p.index]? = some queue → queue.pool = none) :
    (k.slotIds.filter fun id => k.homeOf id = some p) = [] := by
  refine List.filter_eq_nil_iff.2 fun id _ home => ?_
  obtain ⟨queue, shape, found, pool⟩ := h id p (of_decide_eq_true home)
  cases (strange queue found).symm.trans pool

end Kernel

/-- The listings of messages agree with the queues and with the pools. -/
structure System.ListsMessages (s : System) : Prop where
  /-- The links of a queue lead through its messages and end. -/
  linked : ∀ (q : QueueId) queue, s.core.kernel.queues[q.index]? = some queue →
    Linked (SlotTable.next s.core.kernel.slots) none queue.first (s.core.kernel.queued q)
  once : ∀ q, (s.core.kernel.queued q).Nodup
  apart : ∀ q q' id, id ∈ s.core.kernel.queued q → id ∈ s.core.kernel.queued q' → q = q'
  /-- A queue is listed from its first message on, as far as the listing goes. -/
  queue : ∀ (heap : Heap) (q : QueueId) queue, s.core.kernel.queues[q.index]? = some queue →
    (KernelCall.queueMessages q).program.Yields heap (fun r c => c = s.core ∧ ∃ rows, r = .ok rows ∧
      s.core.kernel.Lists ((s.core.kernel.queued q).take Limits.listedMessages) rows ∧
      ∀ i row, rows[i]? = some row → row.queue = some queue.name ∧
        row.next = (s.core.kernel.queued q)[i + 1]?) s.core
  /-- A pool is listed with its slots in the order of the table, whoever has their messages. -/
  pool : ∀ (heap : Heap) (p : QueueId),
    (KernelCall.poolMessages p).program.Yields heap (fun r c => c = s.core ∧ ∃ rows, r = .ok rows ∧
      s.core.kernel.Lists ((s.core.kernel.slotIds.filter fun id =>
        s.core.kernel.homeOf id = some p).take Limits.listedMessages) rows ∧
      ((∀ queue, s.core.kernel.queues[p.index]? = some queue → queue.pool = none) → rows = []))
    s.core
  row : ∀ (id : MessageId) slot, s.core.kernel.slots[id.index]? = some slot →
    ∃ row, s.core.kernel.messageRow id slot = .ok row ∧ row.Describes s.core.kernel id

theorem Reachable.listsMessages {s : System} (h : Reachable s) : s.ListsMessages := by
  have order := h.accounts.guarded.order
  constructor
  case linked => exact fun q queue which => (order.holds q queue which).strung.linked
  case once => exact order.nodup
  case apart => exact fun q q' id => order.apart
  case queue =>
    intro _ q queue which
    obtain ⟨rows, made, lists⟩ := order.queueMessages h.housed which
    refine .reading ⟨rfl, rows, ?_, lists, fun i row => lists.along which⟩
    have found : s.core.kernel.queue q = .ok queue := Section.entry_eq_ok.2 which
    simp only [found, bind, Except.bind, made]
  case pool =>
    intro _ p
    obtain ⟨rows, made, lists⟩ := order.poolMessages h.housed p
    refine .reading ⟨rfl, rows, made, lists, fun strange => ?_⟩
    have ids := lists.ids
    rwa [h.housed.no_slots strange, List.take_nil, List.map_eq_nil_iff] at ids
  case row => exact fun id slot => order.exists_messageRow h.housed

def Script.sorts : List Move :=
  .begins (.thread none) (.createPool "pool" .driver 3 6) :: goesOn 30 ++
    .begins (.thread none) (.createQueue "work" .task) :: goesOn 12 ++
    .begins (.thread none) (.receive ⟨0⟩ 0) :: goesOn 8 ++
    .begins (.thread none) (.receive ⟨0⟩ 0) :: goesOn 8 ++
    .puts (.thread none) ⟨1⟩ :: goesOn 5 ++ .puts (.thread none) ⟨1⟩ :: goesOn 5

theorem listsMessages_sorts :
    (System.run Script.sorts).core.kernel.queued ⟨0⟩ = [⟨2⟩] ∧
    (System.run Script.sorts).core.kernel.queued ⟨1⟩ = [⟨1⟩, ⟨0⟩] ∧
    ((System.run Script.sorts).core.kernel.poolMessages ⟨0⟩).toOption.map
        (·.map fun row => (row.queue, row.next, row.length)) =
      some [(some "work", none, 8), (some "work", some ⟨0⟩, 8), (some "pool", none, 8)] ∧
    (System.run Script.sorts).ListsMessages :=
  ⟨by decide +kernel, by decide +kernel, by decide +kernel,
    (System.reachable_run Script.sorts).listsMessages⟩

end Rtos
