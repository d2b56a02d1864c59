import Rtos.Proofs.Linked
import Rtos.Proofs.MoveStep

/-!
# Queues as lists of messages

`QueuesInOrder` says that the links of the slots hold the queues: chains that end, with their last
members on record, apart from each other, and exactly the slots that name a queue and keep a payload
are on one. What an action does to the messages is told by `Moves`, in terms of these lists and of
the labels of the slots.
-/

namespace Rtos

theorem MessageId.index_injective : Function.Injective MessageId.index := by
  rintro ⟨i⟩ ⟨j⟩ rfl
  rfl

theorem QueueId.index_injective : Function.Injective QueueId.index := by
  rintro ⟨i⟩ ⟨j⟩ rfl
  rfl

theorem getElem?_set_index {ι α : Type} [DecidableEq ι] {index : ι → Nat} {l : List α} {i j : ι}
    {a : α} (inj : Function.Injective index) (h : index i < l.length) :
    (l.set (index i) a)[index j]? = if j = i then some a else l[index j]? := by
  rw [List.getElem?_set]
  by_cases he : j = i
  · simp [he, h]
  · have hi : index i ≠ index j := fun hi => he (inj hi.symm)
    simp [he, hi]

/-- What a slot says of its message: where it is at home, which queue holds it, with which payload. -/
def Slot.label (slot : Slot) : QueueId × Option QueueId × Option Payload :=
  (slot.home, slot.queue, slot.payload)

def SlotTable.label (slots : List Slot) (id : MessageId) :
    Option (QueueId × Option QueueId × Option Payload) := slots[id.index]?.map Slot.label

/-- The queue is the row of links that leads through `l`. -/
structure Queue.Holds (queue : Queue) (slots : List Slot) (l : List MessageId) : Prop where
  strung : Strung (SlotTable.next slots) queue.first queue.last l
  known : ∀ id ∈ l, id.index < slots.length

namespace SlotTable

variable {slots : List Slot} {id id' : MessageId} {f : Slot → Slot}

theorem getElem?_modify : (slots.modify id.index f)[id'.index]? =
    if id' = id then slots[id'.index]?.map f else slots[id'.index]? := by
  rw [List.getElem?_modify]
  by_cases h : id' = id
  · simp [h]
  · have hi : id.index ≠ id'.index := fun hi => h (MessageId.index_injective hi.symm)
    simp [h, hi]

theorem getElem?_set {slot : Slot} (h : id.index < slots.length) :
    (slots.set id.index slot)[id'.index]? =
      if id' = id then some slot else slots[id'.index]? :=
  getElem?_set_index MessageId.index_injective h

theorem label_set {slot : Slot} (h : id.index < slots.length) :
    label (slots.set id.index slot) id' = if id' = id then some slot.label else label slots id' := by
  rw [label, label, getElem?_set h]
  split <;> rfl

theorem next_set {slot : Slot} (h : id.index < slots.length) :
    next (slots.set id.index slot) id' = if id' = id then slot.next else next slots id' := by
  rw [next, next, getElem?_set h]
  split <;> rfl

theorem next_modify_self {next' : Option MessageId} (h : id.index < slots.length)
    (hf : ∀ x, (f x).next = next') : next (slots.modify id.index f) id = next' := by
  simp [next, List.getElem?_eq_getElem h, hf]

theorem next_modify_of_ne (h : id' ≠ id) :
    next (slots.modify id.index f) id' = next slots id' := by
  simp [next, getElem?_modify, h]

theorem label_modify (hf : ∀ x, (f x).label = x.label) :
    label (slots.modify id.index f) id' = label slots id' := by
  rw [label, label, getElem?_modify]
  split
  · cases slots[id'.index]? <;> simp [hf]
  · rfl

end SlotTable

namespace Queue

variable {queue : Queue} {slots slots' : List Slot} {l : List MessageId} {id : MessageId}

theorem Holds.toList_eq (h : queue.Holds slots l) : queue.toList slots = l :=
  h.strung.linked.chain_eq
    (length_le_of_index_lt MessageId.index MessageId.index_injective h.strung.nodup h.known)

theorem Holds.congr (h : queue.Holds slots l) (size : slots.length ≤ slots'.length)
    (links : ∀ id ∈ l, SlotTable.next slots' id = SlotTable.next slots id) :
    queue.Holds slots' l :=
  ⟨h.strung.congr links, fun id hid => Nat.lt_of_lt_of_le (h.known id hid) size⟩

theorem Holds.of_ends {queue' : Queue} (h : queue.Holds slots l) (first : queue'.first = queue.first)
    (last : queue'.last = queue.last) : queue'.Holds slots l := by
  refine ⟨?_, h.known⟩
  rw [first, last]
  exact h.strung

theorem Holds.last (h : queue.Holds slots l) {first : MessageId} (hf : queue.first = some first) :
    ∃ z ∈ l, queue.last = some z := by
  have hne : l ≠ [] := by
    rintro rfl
    exact nomatch hf.symm.trans h.strung.first_eq
  refine ⟨l.getLast hne, List.getLast_mem hne, ?_⟩
  rw [h.strung.last_eq, List.getLast?_eq_getLast_of_ne_nil hne]

theorem Holds.push (h : queue.Holds slots l) (hid : id ∉ l) (known : id.index < slots.length) :
    (queue.push slots id).1.Holds (queue.push slots id).2 (l ++ [id]) ∧
      (queue.push slots id).2.length = slots.length ∧
      (∀ id', SlotTable.label (queue.push slots id).2 id' = SlotTable.label slots id') ∧
      SlotTable.next (queue.push slots id).2 id = none ∧
      ∀ id', id' ∉ l → id' ≠ id →
        SlotTable.next (queue.push slots id).2 id' = SlotTable.next slots id' := by
  cases hf : queue.first with
  | none =>
    obtain rfl := h.strung.eq_nil hf
    simp only [Queue.push, hf]
    refine ⟨⟨?_, ?_⟩, List.length_modify .., fun id' => SlotTable.label_modify fun _ => rfl,
      SlotTable.next_modify_self known fun _ => rfl, fun id' _ hne => SlotTable.next_modify_of_ne hne⟩
    · have empty : Strung (SlotTable.next slots) none none [] := .nil
      exact empty.push hid (SlotTable.next_modify_self known fun _ => rfl)
        (fun _ hz => (nomatch hz)) fun _ hb => nomatch hb
    · intro id' hid'
      rw [List.mem_singleton.1 hid', List.length_modify]
      exact known
  | some first =>
    obtain ⟨z, hz, hl⟩ := h.last hf
    have hne : z ≠ id := fun he => hid (he ▸ hz)
    simp only [Queue.push, hf, hl]
    have self {f : Slot → Slot} : SlotTable.next
        ((slots.modify z.index f).modify id.index ({ · with next := none })) id = none :=
      SlotTable.next_modify_self (by rw [List.length_modify]; exact known) fun _ => rfl
    refine ⟨⟨?_, ?_⟩, by simp, fun id' => ?_, self, fun id' hnl hne' => ?_⟩
    · have strung := h.strung
      rw [hf, hl] at strung
      refine strung.push hid self (fun y hy => ?_) fun b hb hbz => ?_
      · obtain rfl : z = y := Option.some.inj hy
        rw [SlotTable.next_modify_of_ne hne]
        exact SlotTable.next_modify_self (h.known z hz) fun _ => rfl
      · have hbi : b ≠ id := fun he => hid (he ▸ hb)
        have hbz : b ≠ z := fun he => hbz (by rw [he])
        rw [SlotTable.next_modify_of_ne hbi, SlotTable.next_modify_of_ne hbz]
    · intro id' hid'
      simp only [List.length_modify]
      rcases List.mem_append.1 hid' with hid' | hid'
      · exact h.known id' hid'
      · rw [List.mem_singleton.1 hid']
        exact known
    · rw [SlotTable.label_modify fun _ => by rfl, SlotTable.label_modify fun _ => by rfl]
    · have hnz : id' ≠ z := fun he => hnl (he ▸ hz)
      rw [SlotTable.next_modify_of_ne hne', SlotTable.next_modify_of_ne hnz]

theorem Holds.pop (h : queue.Holds slots l) {queue' : Queue} {slots₁ : List Slot}
    (hp : queue.pop slots = some (id, queue', slots₁)) :
    ∃ rest, l = id :: rest ∧ queue'.Holds slots₁ rest ∧ slots₁.length = slots.length ∧
      (∀ id', SlotTable.label slots₁ id' = SlotTable.label slots id') ∧
      SlotTable.next slots₁ id = none ∧
      ∀ id', id' ≠ id → SlotTable.next slots₁ id' = SlotTable.next slots id' := by
  unfold Queue.pop at hp
  cases hf : queue.first with
  | none => simp [hf] at hp
  | some first =>
    simp only [hf, Option.some.injEq, Prod.mk.injEq] at hp
    obtain ⟨rfl, rfl, rfl⟩ := hp
    cases l with
    | nil => exact nomatch hf.symm.trans h.strung.first_eq
    | cons x rest =>
      obtain rfl : first = x := Option.some.inj (hf.symm.trans h.strung.first_eq)
      have nodup := List.nodup_cons.1 h.strung.nodup
      refine ⟨rest, rfl, ⟨?_, fun id' hid' => ?_⟩, List.length_modify ..,
        fun id' => SlotTable.label_modify fun _ => rfl,
        SlotTable.next_modify_self (h.known first List.mem_cons_self) fun _ => rfl,
        fun id' hne => SlotTable.next_modify_of_ne hne⟩
      · exact h.strung.pop fun b hb => SlotTable.next_modify_of_ne fun he => nodup.1 (he ▸ hb)
      · rw [List.length_modify]
        exact h.known id' (List.mem_cons_of_mem first hid')

theorem length_push : (queue.push slots id).2.length = slots.length := by
  unfold push
  split <;> simp only [List.length_modify]

theorem length_pop {queue' : Queue} (h : queue.pop slots = some (id, queue', slots')) :
    slots'.length = slots.length := by
  unfold pop at h
  split at h <;> cases h
  exact List.length_modify ..

end Queue

namespace Kernel

variable {k k' : Kernel} {q q' : QueueId} {id : MessageId}

/-- The messages on queue `q`, in the order in which they will be taken. -/
def queued (k : Kernel) (q : QueueId) : List MessageId :=
  (k.queues[q.index]?.map (·.toList k.slots)).getD []

def label (k : Kernel) (id : MessageId) : Option (QueueId × Option QueueId × Option Payload) :=
  SlotTable.label k.slots id

structure QueuesInOrder (k : Kernel) : Prop where
  holds : ∀ (q : QueueId) queue, k.queues[q.index]? = some queue → queue.Holds k.slots (k.queued q)
  filed : ∀ q id, id ∈ k.queued q → ∃ home payload, k.label id = some (home, some q, some payload)
  labels : ∀ id home queue payload, k.label id = some (home, queue, payload) →
    queue = none ∧ payload = none ∧ SlotTable.next k.slots id = none ∨
      ∃ q p, queue = some q ∧ payload = some p ∧ id ∈ k.queued q

theorem QueuesInOrder.of_lists (L : QueueId → List MessageId)
    (holds : ∀ (q : QueueId) queue, k.queues[q.index]? = some queue → queue.Holds k.slots (L q))
    (absent : ∀ q, k.queues[q.index]? = none → L q = [])
    (filed : ∀ q id, id ∈ L q → ∃ home payload, k.label id = some (home, some q, some payload))
    (labels : ∀ id home queue payload, k.label id = some (home, queue, payload) →
      queue = none ∧ payload = none ∧ SlotTable.next k.slots id = none ∨
        ∃ q p, queue = some q ∧ payload = some p ∧ id ∈ L q) :
    k.QueuesInOrder ∧ ∀ q, k.queued q = L q := by
  have hL (q : QueueId) : k.queued q = L q := by
    rw [queued]
    cases hq : k.queues[q.index]? with
    | none => exact (absent q hq).symm
    | some queue => exact (holds q queue hq).toList_eq
  exact ⟨by constructor <;> simpa only [hL], hL⟩

namespace QueuesInOrder

theorem initial (clock : Clock) : ({ clock : Core }).kernel.QueuesInOrder :=
  (of_lists (fun _ => []) (fun _ _ h => by simp at h) (fun _ _ => rfl) (fun _ _ h => nomatch h)
    fun _ _ _ _ h => by simp [label, SlotTable.label] at h).1

theorem apart (h : k.QueuesInOrder) (hq : id ∈ k.queued q) (hq' : id ∈ k.queued q') : q = q' := by
  obtain ⟨home, payload, hl⟩ := h.filed q id hq
  obtain ⟨home', payload', hl'⟩ := h.filed q' id hq'
  rw [hl] at hl'
  cases hl'
  rfl

theorem nodup (h : k.QueuesInOrder) (q : QueueId) : (k.queued q).Nodup := by
  rw [queued]
  cases hq : k.queues[q.index]? with
  | none => exact List.nodup_nil
  | some queue =>
    have holds := h.holds q queue hq
    rw [queued, hq] at holds
    exact holds.strung.nodup

theorem of_free (h : k.QueuesInOrder) {home : QueueId} {payload : Option Payload}
    (hl : k.label id = some (home, none, payload)) :
    payload = none ∧ SlotTable.next k.slots id = none ∧ ∀ q, id ∉ k.queued q := by
  rcases h.labels id home none payload hl with ⟨-, hp, next⟩ | ⟨q, _, hq, -⟩
  · refine ⟨hp, next, fun q hid => ?_⟩
    obtain ⟨_, _, hl'⟩ := h.filed q id hid
    exact nomatch hl.symm.trans hl'
  · exact nomatch hq

theorem congr (h : k.QueuesInOrder) (size : k.slots.length ≤ k'.slots.length)
    (links : ∀ id, SlotTable.next k'.slots id = SlotTable.next k.slots id)
    (labels : ∀ id home queue payload, k'.label id = some (home, queue, payload) →
      k.label id = some (home, queue, payload) ∨
        queue = none ∧ payload = none ∧ SlotTable.next k'.slots id = none)
    (kept : ∀ id x, k.label id = some x → k'.label id = some x)
    (ends : ∀ (q : QueueId) queue', k'.queues[q.index]? = some queue' →
      (∃ queue, k.queues[q.index]? = some queue ∧ queue'.first = queue.first ∧
        queue'.last = queue.last) ∨
      k.queues[q.index]? = none ∧ queue'.first = none ∧ queue'.last = none)
    (more : k.queues.length ≤ k'.queues.length) :
    k'.QueuesInOrder ∧ ∀ q, k'.queued q = k.queued q := by
  refine of_lists k.queued (fun q queue' hq => ?_) (fun q hq => ?_) (fun q id hid => ?_)
    fun id home queue payload hl => ?_
  · rcases ends q queue' hq with ⟨queue, which, first, last⟩ | ⟨absent, first, last⟩
    · exact ((h.holds q queue which).congr size fun id _ => links id).of_ends first last
    · refine ⟨?_, fun id hid => ?_⟩
      · rw [first, last, queued, absent]
        exact .nil
      · rw [queued, absent] at hid
        exact nomatch hid
  · rw [List.getElem?_eq_none_iff] at hq
    rw [queued, List.getElem?_eq_none_iff.2 (Nat.le_trans more hq)]
    rfl
  · obtain ⟨home, payload, hl⟩ := h.filed q id hid
    exact ⟨home, payload, kept id _ hl⟩
  · rcases labels id home queue payload hl with hl | free
    · refine (h.labels id home queue payload hl).imp_left fun ⟨hq, hp, next⟩ => ⟨hq, hp, ?_⟩
      rw [links, next]
    · exact .inl free

theorem congr_ends (h : k.QueuesInOrder) (slots : k'.slots = k.slots)
    (ends : ∀ (q : QueueId) queue', k'.queues[q.index]? = some queue' →
      (∃ queue, k.queues[q.index]? = some queue ∧ queue'.first = queue.first ∧
        queue'.last = queue.last) ∨
      k.queues[q.index]? = none ∧ queue'.first = none ∧ queue'.last = none)
    (more : k.queues.length ≤ k'.queues.length) :
    k'.QueuesInOrder ∧ ∀ q, k'.queued q = k.queued q := by
  have labels (id : MessageId) : k'.label id = k.label id := by rw [label, label, slots]
  exact h.congr (Nat.le_of_eq (by rw [slots])) (fun _ => by rw [slots])
    (fun id _ _ _ hl => .inl (labels id ▸ hl)) (fun id _ hl => (labels id).trans hl) ends more

theorem getElem?_queues {queue x : Queue} (h : k.queues[q.index]? = some queue)
    (queues : k'.queues = k.queues.set q.index x) :
    k'.queues[q'.index]? = if q' = q then some x else k.queues[q'.index]? := by
  rw [queues]
  exact getElem?_set_index QueueId.index_injective (List.getElem?_eq_some_iff.1 h).1

theorem absent_queues {queue x : Queue} (which : k.queues[q.index]? = some queue)
    (queues : k'.queues = k.queues.set q.index x) (h : k'.queues[q'.index]? = none) :
    q' ≠ q ∧ k.queued q' = [] := by
  rw [getElem?_queues which queues] at h
  split at h
  · exact nomatch h
  · next hq => exact ⟨hq, by rw [queued, h]; rfl⟩

/-- One queue and the label of one slot change. -/
theorem change (h : k.QueuesInOrder) {queue x : Queue} (which : k.queues[q.index]? = some queue)
    (queues : k'.queues = k.queues.set q.index x) {l : List MessageId} {home : QueueId}
    {holder : Option QueueId} {payload : Option Payload} (holds : x.Holds k'.slots l)
    (size : k.slots.length ≤ k'.slots.length)
    (labels : ∀ id', k'.label id' =
      if id' = id then some (home, holder, payload) else k.label id')
    (links : ∀ id', id' ∉ k.queued q → id' ≠ id →
      SlotTable.next k'.slots id' = SlotTable.next k.slots id')
    (others : ∀ id', id' ≠ id → (id' ∈ l ↔ id' ∈ k.queued q))
    (loose : ∀ q', q' ≠ q → id ∉ k.queued q')
    (own : holder = none ∧ payload = none ∧ SlotTable.next k'.slots id = none ∧ id ∉ l ∨
      ∃ p, holder = some q ∧ payload = some p ∧ id ∈ l) :
    k'.QueuesInOrder ∧ ∀ q', k'.queued q' = if q' = q then l else k.queued q' := by
  refine of_lists (fun q' => if q' = q then l else k.queued q') (fun q' queue' hq => ?_)
    (fun q' hq => ?_) (fun q' id' hid => ?_) fun id' home' holder' payload' hl => ?_
  · rw [getElem?_queues which queues] at hq
    split at hq
    · next he =>
      cases hq
      rwa [if_pos he]
    · next he =>
      rw [if_neg he]
      refine (h.holds q' queue' hq).congr size fun id' hid => links id' (fun hid' => ?_) fun hi => ?_
      · exact he (h.apart hid hid')
      · exact loose q' he (hi ▸ hid)
  · obtain ⟨he, absent⟩ := absent_queues which queues hq
    exact (if_neg he).trans absent
  · rw [labels]
    split at hid
    · next he =>
      subst he
      split
      · next hi =>
        rcases own with ⟨-, -, -, free⟩ | ⟨p, rfl, rfl, -⟩
        · exact (free (hi ▸ hid)).elim
        · exact ⟨home, p, rfl⟩
      · next hi => exact h.filed q' id' ((others id' hi).1 hid)
    · next he =>
      have hne : id' ≠ id := fun hi => loose q' he (hi ▸ hid)
      rw [if_neg hne]
      exact h.filed q' id' hid
  · rw [labels] at hl
    split at hl
    · next hi =>
      cases hl
      rcases own with ⟨hh, hp, next, -⟩ | ⟨p, hh, hp, hid⟩
      · exact .inl ⟨hh, hp, hi ▸ next⟩
      · exact .inr ⟨q, p, hh, hp, by rw [if_pos rfl, hi]; exact hid⟩
    · next hi =>
      rcases h.labels id' home' holder' payload' hl with ⟨rfl, hp, next⟩ | ⟨q', p, hh, hp, hid⟩
      · refine .inl ⟨rfl, hp, ?_⟩
        have free := (h.of_free hl).2.2 q
        rw [links id' free hi, next]
      · refine .inr ⟨q', p, hh, hp, ?_⟩
        split
        · next he => exact (others id' hi).2 (he ▸ hid)
        · exact hid

theorem puts (h : k.QueuesInOrder) {m : Message} {slot : Slot} {queue x : Queue}
    (found : k.slots[m.id.index]? = some slot) (free : slot.queue = none)
    (which : k.queues[q.index]? = some queue)
    (slots : k'.slots = (queue.push (k.slots.set m.id.index (slot.filled q m)) m.id).2)
    (queues : k'.queues = k.queues.set q.index x)
    (first : x.first = (queue.push (k.slots.set m.id.index (slot.filled q m)) m.id).1.first)
    (last : x.last = (queue.push (k.slots.set m.id.index (slot.filled q m)) m.id).1.last) :
    k.label m.id = some (slot.home, none, none) ∧ k'.QueuesInOrder ∧
      (∀ q', k'.queued q' = if q' = q then k.queued q ++ [m.id] else k.queued q') ∧
      ∀ id, k'.label id =
        if id = m.id then some (slot.home, some q, some m.payload) else k.label id := by
  have known := (List.getElem?_eq_some_iff.1 found).1
  have label : k.label m.id = some (slot.home, none, slot.payload) := by
    rw [Kernel.label, SlotTable.label, found, Option.map_some, Slot.label, free]
  obtain ⟨empty, -, loose⟩ := h.of_free label
  have size : (k.slots.set m.id.index (slot.filled q m)).length = k.slots.length := by simp
  have next₀ (id : MessageId) : SlotTable.next (k.slots.set m.id.index (slot.filled q m)) id =
      SlotTable.next k.slots id := by
    rw [SlotTable.next_set known]
    split
    · next he => rw [he, SlotTable.next, found, Option.bind_some, Slot.filled]
    · rfl
  have before := (h.holds q queue which).congr (Nat.le_of_eq size.symm) fun id _ => next₀ id
  obtain ⟨holds, size', labels, -, others⟩ := before.push (loose q) (size ▸ known)
  rw [← slots] at holds size' labels others
  have labels (id : MessageId) : k'.label id =
      if id = m.id then some (slot.home, some q, some m.payload) else k.label id :=
    (labels id).trans (SlotTable.label_set known)
  obtain ⟨order, lists⟩ := h.change which queues (holds.of_ends first last)
    (Nat.le_of_eq (size'.trans size).symm) labels
    (fun id hid hne => (others id hid hne).trans (next₀ id)) (fun id hne => by simp [hne])
    (fun q' _ => loose q') (.inr ⟨m.payload, rfl, rfl, by simp⟩)
  exact ⟨empty ▸ label, order, lists, labels⟩

theorem takes (h : k.QueuesInOrder) {slot : Slot} {payload : Payload} {queue queue' x : Queue}
    {slots₁ : List Slot} (which : k.queues[q.index]? = some queue)
    (pop : queue.pop k.slots = some (id, queue', slots₁)) (found : slots₁[id.index]? = some slot)
    (kept : slot.payload = some payload) (slots : k'.slots = slots₁.set id.index slot.emptied)
    (queues : k'.queues = k.queues.set q.index x) (first : x.first = queue'.first)
    (last : x.last = queue'.last) :
    k.label id = some (slot.home, some q, some payload) ∧ k'.QueuesInOrder ∧
      (∀ q', k.queued q' = if q' = q then id :: k'.queued q else k'.queued q') ∧
      ∀ id', k'.label id' = if id' = id then some (slot.home, none, none) else k.label id' := by
  have known := (List.getElem?_eq_some_iff.1 found).1
  obtain ⟨rest, list, holds, size, same, free, links⟩ := (h.holds q queue which).pop pop
  have hid : id ∈ k.queued q := list ▸ List.mem_cons_self
  have fresh : id ∉ rest := (List.nodup_cons.1 (list ▸ h.nodup q)).1
  have label : k.label id = some (slot.home, some q, some payload) := by
    obtain ⟨home, p, hl⟩ := h.filed q id hid
    have hs : SlotTable.label slots₁ id = some slot.label := by rw [SlotTable.label, found]; rfl
    have he := hl.symm.trans ((same id).symm.trans hs)
    simp only [Slot.label, kept, Option.some.injEq, Prod.mk.injEq] at he
    obtain ⟨rfl, -, rfl⟩ := he
    exact hl
  have next₁ (id' : MessageId) : SlotTable.next k'.slots id' = SlotTable.next slots₁ id' := by
    rw [slots, SlotTable.next_set known]
    split
    · next he => rw [he, SlotTable.next, found, Option.bind_some, Slot.emptied]
    · rfl
  have labels (id' : MessageId) : k'.label id' =
      if id' = id then some (slot.home, none, none) else k.label id' := by
    rw [Kernel.label, slots, SlotTable.label_set known, same]
    rfl
  have size' : k'.slots.length = k.slots.length := by rw [slots, List.length_set, size]
  have holds : x.Holds k'.slots rest := (holds.congr (Nat.le_of_eq (by rw [size', size])) fun id' _ =>
    next₁ id').of_ends first last
  obtain ⟨order, lists⟩ := h.change which queues holds (Nat.le_of_eq size'.symm) labels
    (fun id' _ hne => (next₁ id').trans (links id' hne)) (fun id' hne => by simp [list, hne])
    (fun q' hq hid' => hq (h.apart hid' hid)) (.inl ⟨rfl, rfl, (next₁ id).trans free, fresh⟩)
  refine ⟨label, order, fun q' => ?_, labels⟩
  split
  · next he => rw [he, lists, if_pos rfl, list]
  · next he => rw [lists, if_neg he]

theorem pools (h : k.QueuesInOrder) {shape : PoolShape}
    (slots : k'.slots = k.slots ++ List.replicate shape.count { home := q })
    (queues : k'.queues = k.queues.modify q.index ({ · with pool := some shape })) :
    k'.QueuesInOrder ∧ (∀ q', k'.queued q' = k.queued q') ∧
      ∀ id, k'.label id = if id.index < k.slots.length then k.label id
        else if id.index < k.slots.length + shape.count then some (q, none, none) else none := by
  have labels (id : MessageId) : k'.label id = if id.index < k.slots.length then k.label id
      else if id.index < k.slots.length + shape.count then some (q, none, none) else none := by
    simp only [Kernel.label, SlotTable.label, slots]
    split
    · next hi => rw [List.getElem?_append_left hi]
    · next hi =>
      rw [List.getElem?_append_right (Nat.le_of_not_lt hi), List.getElem?_replicate]
      split <;> split <;> first | rfl | omega
  have links (id : MessageId) : SlotTable.next k'.slots id = SlotTable.next k.slots id := by
    simp only [SlotTable.next, slots]
    by_cases hi : id.index < k.slots.length
    · rw [List.getElem?_append_left hi]
    · rw [List.getElem?_append_right (Nat.le_of_not_lt hi), List.getElem?_replicate,
        List.getElem?_eq_none (Nat.le_of_not_lt hi)]
      split <;> rfl
  have size : k.slots.length ≤ k'.slots.length := by simp [slots]
  have order := h.congr size links (fun id home holder payload hl => ?_)
    (fun id x hl => ?_) (fun q' queue' hq => .inl ?_) (by simp [queues])
  · exact ⟨order.1, order.2, labels⟩
  · rw [labels] at hl
    split at hl
    · exact .inl hl
    split at hl
    · next hi _ =>
      cases hl
      refine .inr ⟨rfl, rfl, (links id).trans ?_⟩
      rw [SlotTable.next, List.getElem?_eq_none (Nat.le_of_not_lt hi)]
      rfl
    · exact nomatch hl
  · rw [labels, if_pos]
    · exact hl
    · rw [Kernel.label, SlotTable.label, Option.map_eq_some_iff] at hl
      obtain ⟨slot, found, -⟩ := hl
      exact (List.getElem?_eq_some_iff.1 found).1
  · rw [queues, List.getElem?_modify] at hq
    obtain ⟨queue, which, he⟩ := Option.map_eq_some_iff.1 hq
    refine ⟨queue, which, ?_⟩
    rw [← he]
    split <;> exact ⟨rfl, rfl⟩

end QueuesInOrder

/-- What an action did to the messages, in terms of the queues as lists. -/
inductive Moves (o : Outcome) (k k' : Kernel) : Prop
  | still (put : o.put = none) (taken : o.taken = none) (made : o.made = [])
      (labels : ∀ id, k'.label id = k.label id) (lists : ∀ q, k'.queued q = k.queued q)
  | pools (q : QueueId) (shape : PoolShape) (put : o.put = none) (taken : o.taken = none)
      (made : o.made = Call.freshMessages q ⟨k.slots.length⟩ shape (Call.blankStorage shape))
      (labels : ∀ id, k'.label id = if id.index < k.slots.length then k.label id
        else if id.index < k.slots.length + shape.count then some (q, none, none) else none)
      (lists : ∀ q, k'.queued q = k.queued q)
  | puts (q : QueueId) (m : Message) (put : o.put = some (q, m)) (taken : o.taken = none)
      (made : o.made = []) (free : k.label m.id = some (m.home, none, none))
      (labels : ∀ id, k'.label id =
        if id = m.id then some (m.home, some q, some m.payload) else k.label id)
      (lists : ∀ q', k'.queued q' = if q' = q then k.queued q ++ [m.id] else k.queued q')
  | takes (q : QueueId) (m : Message) (put : o.put = none) (taken : o.taken = some (q, m))
      (made : o.made = []) (kept : k.label m.id = some (m.home, some q, some m.payload))
      (labels : ∀ id, k'.label id =
        if id = m.id then some (m.home, none, none) else k.label id)
      (lists : ∀ q', k.queued q' = if q' = q then m.id :: k'.queued q else k'.queued q')

end Kernel

theorem MoveStep.moves {β : Type} {a : Action β} {b : β} {k k' : Kernel}
    (h : MoveStep a b k k') (order : k.QueuesInOrder) : k'.QueuesInOrder ∧ k.Moves ⟨a, b⟩ k' := by
  have same (slots : k'.slots = k.slots) : ∀ id, k'.label id = k.label id := fun id => by
    rw [Kernel.label, slots]
    rfl
  cases h with
  | still put taken made after =>
    obtain ⟨order, lists⟩ := order.congr_ends after.slots
      (fun q queue hq => .inl ⟨queue, after.queues ▸ hq, rfl, rfl⟩)
      (Nat.le_of_eq (by rw [after.queues]))
    exact ⟨order, .still put taken made (same after.slots) lists⟩
  | adds name d put _ taken made slots queues =>
    have order := order.congr_ends slots (fun q queue hq => ?_) (by simp [queues])
    · exact ⟨order.1, .still put taken made (same slots) order.2⟩
    · rw [queues] at hq
      by_cases hi : q.index < k.queues.length
      · rw [List.getElem?_append_left hi] at hq
        exact .inl ⟨queue, hq, rfl, rfl⟩
      · rw [List.getElem?_append_right (Nat.le_of_not_lt hi)] at hq
        rw [List.mem_singleton.1 (List.mem_of_getElem? hq)]
        exact .inr ⟨List.getElem?_eq_none (Nat.le_of_not_lt hi), rfl, rfl⟩
  | pools q shape put taken made slots queues _ =>
    obtain ⟨order, lists, labels⟩ := order.pools slots queues
    exact ⟨order, .pools q shape put taken made labels lists⟩
  | puts q m slot queue put taken made found free home which _ slots queues =>
    obtain ⟨label, order, lists, labels⟩ := order.puts found free which slots queues rfl rfl
    rw [home] at label labels
    exact ⟨order, .puts q m put taken made label labels lists⟩
  | takes q m slot queue queue' slots₁ d put taken made which pop found home payload _ slots queues =>
    obtain ⟨label, order, lists, labels⟩ :=
      order.takes which pop found payload slots queues rfl rfl
    rw [home] at label labels
    exact ⟨order, .takes q m put taken made label labels lists⟩
  | hangs q queue d d' put taken made which _ _ slots queues =>
    have order := order.congr_ends slots (fun q' queue' hq => .inl ?_) (by simp [queues])
    · exact ⟨order.1, .still put taken made (same slots) order.2⟩
    · rw [Kernel.QueuesInOrder.getElem?_queues which queues] at hq
      split at hq
      · next he =>
        cases hq
        exact ⟨queue, he ▸ which, rfl, rfl⟩
      · exact ⟨queue', hq, rfl, rfl⟩

namespace Outcome

def putOn (o : Outcome) (q : QueueId) : List Message := (o.put.toList.filter (·.1 = q)).map Prod.snd

def takenFrom (o : Outcome) (q : QueueId) : List Message :=
  (o.taken.toList.filter (·.1 = q)).map Prod.snd

variable {o : Outcome} {q q' : QueueId} {m : Message}

theorem putOn_of_none (h : o.put = none) : o.putOn q = [] := by simp [putOn, h]

theorem takenFrom_of_none (h : o.taken = none) : o.takenFrom q = [] := by simp [takenFrom, h]

theorem putOn_of_some (h : o.put = some (q', m)) : o.putOn q = if q' = q then [m] else [] := by
  by_cases he : q' = q <;> simp [putOn, h, he]

theorem takenFrom_of_some (h : o.taken = some (q', m)) :
    o.takenFrom q = if q' = q then [m] else [] := by
  by_cases he : q' = q <;> simp [takenFrom, h, he]

end Outcome

namespace Kernel

variable {k k' : Kernel} {q : QueueId} {id : MessageId} {o : Outcome}

def message? (k : Kernel) (id : MessageId) : Option Message :=
  match k.label id with
  | some (home, some _, some payload) => some { id, home, payload }
  | _ => none

/-- The messages on queue `q`, as they will be taken. -/
def parked (k : Kernel) (q : QueueId) : List Message := (k.queued q).filterMap k.message?

theorem message?_congr (h : k'.label id = k.label id) : k'.message? id = k.message? id := by
  rw [message?, message?, h]

theorem message?_of_label {home : QueueId} {payload : Payload}
    (h : k.label id = some (home, some q, some payload)) :
    k.message? id = some { id, home, payload } := by
  rw [message?, h]

theorem lt_of_label {x : QueueId × Option QueueId × Option Payload} (h : k.label id = some x) :
    id.index < k.slots.length := by
  obtain ⟨slot, found, -⟩ := Option.map_eq_some_iff.1 h
  exact (List.getElem?_eq_some_iff.1 found).1

theorem parked_congr (lists : k'.queued q = k.queued q)
    (labels : ∀ id ∈ k.queued q, k'.label id = k.label id) : k'.parked q = k.parked q := by
  rw [parked, parked, lists]
  exact List.filterMap_congr fun id hid => message?_congr (labels id hid)

theorem QueuesInOrder.ids_parked (h : k.QueuesInOrder) (q : QueueId) :
    (k.parked q).map Message.id = k.queued q := by
  have ids (l : List MessageId) (hl : ∀ id ∈ l, id ∈ k.queued q) :
      (l.filterMap k.message?).map Message.id = l := by
    induction l with
    | nil => rfl
    | cons id l ih =>
      obtain ⟨first, others⟩ := List.forall_mem_cons.1 hl
      obtain ⟨home, payload, label⟩ := h.filed q id first
      rw [List.filterMap_cons_some (message?_of_label label), List.map_cons, ih others]
  exact ids _ fun _ => id

/-- What a queue holds, what is put on it and what is taken off it balance. -/
theorem Moves.parked (h : k.Moves o k') (order : k.QueuesInOrder) (order' : k'.QueuesInOrder)
    (q : QueueId) : k.parked q ++ o.putOn q = o.takenFrom q ++ k'.parked q := by
  cases h with
  | still put taken made labels lists =>
    rw [Outcome.putOn_of_none put, Outcome.takenFrom_of_none taken, List.append_nil, List.nil_append,
      parked_congr (lists q) fun id _ => labels id]
  | pools _ shape put taken made labels lists =>
    rw [Outcome.putOn_of_none put, Outcome.takenFrom_of_none taken, List.append_nil, List.nil_append,
      parked_congr (lists q) fun id hid => ?_]
    obtain ⟨home, payload, label⟩ := order.filed q id hid
    rw [labels, if_pos (lt_of_label label)]
  | puts q' m put taken made free labels lists =>
    rw [Outcome.putOn_of_some put, Outcome.takenFrom_of_none taken, List.nil_append]
    have stays (q'' : QueueId) : ∀ id ∈ k.queued q'', k'.label id = k.label id := fun id hid => by
      have hne : id ≠ m.id := fun he => (order.of_free free).2.2 q'' (he ▸ hid)
      rw [labels, if_neg hne]
    by_cases he : q' = q
    · subst he
      have last : k'.message? m.id = some m := message?_of_label ((labels m.id).trans (if_pos rfl))
      rw [if_pos rfl, Kernel.parked, Kernel.parked, lists, if_pos rfl, List.filterMap_append,
        List.filterMap_cons_some last, List.filterMap_nil]
      congr 1
      exact List.filterMap_congr fun id hid => (message?_congr (stays q' id hid)).symm
    · rw [if_neg he, List.append_nil,
        parked_congr ((lists q).trans (if_neg (Ne.symm he))) (stays q)]
  | takes q' m put taken made kept labels lists =>
    rw [Outcome.putOn_of_none put, Outcome.takenFrom_of_some taken, List.append_nil]
    have gone : ∀ q'', m.id ∉ k'.queued q'' := (order'.of_free ((labels m.id).trans (if_pos rfl))).2.2
    have stays (q'' : QueueId) : ∀ id ∈ k'.queued q'', k.label id = k'.label id := fun id hid => by
      have hne : id ≠ m.id := fun he => gone q'' (he ▸ hid)
      rw [labels, if_neg hne]
    by_cases he : q' = q
    · subst he
      rw [if_pos rfl, Kernel.parked, Kernel.parked, lists, if_pos rfl,
        List.filterMap_cons_some (message?_of_label kept), List.singleton_append]
      congr 1
      exact List.filterMap_congr fun id hid => message?_congr (stays q' id hid)
    · rw [if_neg he, List.nil_append,
        parked_congr ((lists q).trans (if_neg (Ne.symm he))) (stays q)]

end Kernel

end Rtos
