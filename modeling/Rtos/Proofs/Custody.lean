import Mathlib.Data.List.Perm.Basic
import Mathlib.Logic.Relation
import Rtos.Proofs.Breach
import Rtos.Proofs.Queued
import Rtos.Proofs.Script

/-!
# Who has a message

Every slot is in one place: on one queue, with one holder of its message, or lost by a holder who
dropped it. `Guarded` is the part of this that a section keeps, in terms of the slots that are on no
queue; what a run remembers of a message, from the pool that made it to the put that queued it, is
`Remembered`. `Reachable.conserves` puts both together.
-/

namespace Rtos

namespace Kernel

variable {k k' : Kernel} {id : MessageId} {q home : QueueId} {o : Outcome} {m : Message}

def homeOf (k : Kernel) (id : MessageId) : Option QueueId := (k.label id).map Prod.fst

def slotIds (k : Kernel) : List MessageId := (List.range k.slots.length).map MessageId.mk

/-- The slots whose messages are on no queue. -/
def free (k : Kernel) : List MessageId :=
  k.slotIds.filter fun id => (k.label id).any fun (_, holder, _) => holder.isNone

def queuedAll (k : Kernel) : List MessageId :=
  (List.range k.queues.length).flatMap fun i => k.queued ⟨i⟩

theorem nodup_slotIds : k.slotIds.Nodup :=
  List.nodup_range.map fun _ _ h => congrArg MessageId.index h

theorem mem_slotIds : id ∈ k.slotIds ↔ id.index < k.slots.length := by
  simp only [slotIds, List.mem_map, List.mem_range]
  exact ⟨fun ⟨i, hi, he⟩ => he ▸ hi, fun hi => ⟨id.index, hi, rfl⟩⟩

theorem label_of_lt (h : id.index < k.slots.length) : ∃ x, k.label id = some x :=
  ⟨_, by rw [label, SlotTable.label, List.getElem?_eq_getElem h, Option.map_some]⟩

theorem nodup_free : k.free.Nodup := nodup_slotIds.filter _

theorem mem_free : id ∈ k.free ↔ ∃ home payload, k.label id = some (home, none, payload) := by
  rw [free, List.mem_filter, mem_slotIds, Option.any_eq_true_iff_get]
  constructor
  · rintro ⟨-, hs, hn⟩
    obtain ⟨⟨home, holder, payload⟩, hl⟩ := Option.isSome_iff_exists.1 hs
    simp only [hl, Option.get_some, Option.isNone_iff_eq_none] at hn
    exact ⟨home, payload, hn ▸ hl⟩
  · rintro ⟨home, payload, hl⟩
    exact ⟨lt_of_label hl, by simp [hl]⟩

theorem QueuesInOrder.mem_queuedAll (h : k.QueuesInOrder) :
    id ∈ k.queuedAll ↔ ∃ home q payload, k.label id = some (home, some q, payload) := by
  simp only [queuedAll, List.mem_flatMap, List.mem_range]
  constructor
  · rintro ⟨i, -, hid⟩
    obtain ⟨home, payload, hl⟩ := h.filed ⟨i⟩ id hid
    exact ⟨home, ⟨i⟩, some payload, hl⟩
  · rintro ⟨home, q, payload, hl⟩
    rcases h.labels id home _ payload hl with ⟨hq, -⟩ | ⟨q', p, hq, -, hid⟩
    · cases hq
    · refine ⟨q'.index, Nat.lt_of_not_le fun hi => ?_, hid⟩
      rw [queued, List.getElem?_eq_none hi] at hid
      cases hid

theorem QueuesInOrder.nodup_queuedAll (h : k.QueuesInOrder) : k.queuedAll.Nodup := by
  refine List.nodup_flatMap.2 ⟨fun i _ => h.nodup ⟨i⟩, ?_⟩
  refine List.nodup_range.imp fun {i j} hij id hi hj => hij ?_
  exact congrArg QueueId.index (h.apart hi hj)

/-- Every slot is on a queue, or free. -/
theorem QueuesInOrder.perm_slotIds (h : k.QueuesInOrder) :
    (k.queuedAll ++ k.free).Perm k.slotIds := by
  apply List.Perm.trans (List.perm_append_comm)
  refine List.Perm.trans (List.Perm.append_left _ ?_) (List.filter_append_perm _ k.slotIds)
  apply (List.perm_ext_iff_of_nodup h.nodup_queuedAll (nodup_slotIds.filter _)).2
  intro id
  rw [h.mem_queuedAll, List.mem_filter, mem_slotIds]
  constructor
  · rintro ⟨home, q, payload, hl⟩
    exact ⟨lt_of_label hl, by simp [hl]⟩
  · rintro ⟨hi, hn⟩
    obtain ⟨⟨home, holder, payload⟩, hl⟩ := label_of_lt hi
    cases holder with
    | none => simp [hl] at hn
    | some q => exact ⟨home, q, payload, hl⟩

theorem Moves.homeOf_eq (h : k.Moves o k') (hh : k.homeOf id = some home) :
    k'.homeOf id = some home := by
  obtain ⟨x, hl, rfl⟩ := Option.map_eq_some_iff.1 hh
  rw [Kernel.homeOf]
  cases h with
  | still _ _ _ labels _ => rw [labels, hl, Option.map_some]
  | pools _ _ _ _ _ labels _ => rw [labels, if_pos (lt_of_label hl), hl, Option.map_some]
  | puts q m _ _ _ free labels _ =>
    rw [labels]
    split
    · next he =>
      cases (he ▸ hl).symm.trans free
      rfl
    · rw [hl, Option.map_some]
  | takes q m _ _ _ kept labels _ =>
    rw [labels]
    split
    · next he =>
      cases (he ▸ hl).symm.trans kept
      rfl
    · rw [hl, Option.map_some]

end Kernel

namespace Call

variable {q : QueueId} {first : MessageId} {shape : PoolShape} {storage : Payload}

theorem ids_freshMessages : (freshMessages q first shape storage).map Message.id =
    (List.range shape.count).map fun i => ⟨first.index + i⟩ := by
  have ids : (freshMessages q first shape storage).map Message.id =
      (List.range' first.index shape.count).map MessageId.mk := by
    have indices := List.zipIdx_map_snd first.index
      (Payload.pieces shape.size shape.count storage)
    rw [Payload.length_pieces] at indices
    rw [freshMessages, List.map_map, ← indices, List.map_map]
    rfl
  rw [ids, List.range'_eq_map_range, List.map_map]
  rfl

theorem mem_ids_freshMessages {id : MessageId} :
    id ∈ (freshMessages q first shape storage).map Message.id ↔
      first.index ≤ id.index ∧ id.index < first.index + shape.count := by
  rw [ids_freshMessages, List.mem_map]
  constructor
  · rintro ⟨i, hi, rfl⟩
    have := List.mem_range.1 hi
    dsimp only
    omega
  · rintro ⟨low, high⟩
    refine ⟨id.index - first.index, List.mem_range.2 (by omega), ?_⟩
    exact MessageId.index_injective (by dsimp only; omega)

theorem nodup_ids_freshMessages : ((freshMessages q first shape storage).map Message.id).Nodup := by
  rw [ids_freshMessages]
  exact List.nodup_range.map fun i j hij => by simpa using hij

end Call

namespace Outcome

variable {o : Outcome} {q : QueueId} {m : Message}

/-- The messages that come into somebody's hands: those of a new pool, or one off a queue. -/
def arrivals (o : Outcome) : List Message := o.made ++ (o.taken.map Prod.snd).toList

def departures (o : Outcome) : List Message := (o.put.map Prod.snd).toList

theorem arrivals_of_none (taken : o.taken = none) : o.arrivals = o.made := by
  rw [arrivals, taken]
  exact List.append_nil _

theorem arrivals_of_idle (taken : o.taken = none) (made : o.made = []) : o.arrivals = [] :=
  (arrivals_of_none taken).trans made

theorem arrivals_of_taken (taken : o.taken = some (q, m)) (made : o.made = []) :
    o.arrivals = [m] := by
  rw [arrivals, taken, made]
  rfl

theorem departures_of_none (put : o.put = none) : o.departures = [] := by
  rw [departures, put]
  rfl

theorem departures_of_some (put : o.put = some (q, m)) : o.departures = [m] := by
  rw [departures, put]
  rfl

end Outcome

theorem Kernel.Moves.free {o : Outcome} {k k' : Kernel} (h : k.Moves o k') :
    (o.arrivals.map Message.id ++ k.free).Perm (o.departures.map Message.id ++ k'.free) := by
  -- Neither side lists a slot twice, so it is enough that they list the same ones.
  cases h with
  | still put taken made labels lists =>
    rw [Outcome.arrivals_of_idle taken made, Outcome.departures_of_none put]
    apply (List.perm_ext_iff_of_nodup nodup_free nodup_free).2
    intro id
    rw [mem_free, mem_free, labels]
  | pools q shape put taken made labels lists =>
    rw [Outcome.arrivals_of_none taken, made, Outcome.departures_of_none put]
    have apart : ((Call.freshMessages q ⟨k.slots.length⟩ shape (Call.blankStorage shape)).map
        Message.id ++ k.free).Nodup := by
      refine List.nodup_append'.2 ⟨Call.nodup_ids_freshMessages, nodup_free, fun id new old => ?_⟩
      obtain ⟨_, _, hl⟩ := mem_free.1 old
      exact Nat.not_lt_of_le (Call.mem_ids_freshMessages.1 new).1 (lt_of_label hl)
    apply (List.perm_ext_iff_of_nodup apart nodup_free).2
    intro id
    rw [List.mem_append, Call.mem_ids_freshMessages, mem_free, mem_free, labels]
    split
    · next hi =>
      exact ⟨fun hid => hid.resolve_left fun hid => Nat.not_lt_of_le hid.1 hi, .inr⟩
    · next hi =>
      have hn : ¬ ∃ home payload, k.label id = some (home, none, payload) :=
        fun ⟨_, _, hl⟩ => hi (lt_of_label hl)
      split
      · next hj => exact ⟨fun _ => ⟨q, none, rfl⟩, fun _ => .inl ⟨Nat.le_of_not_lt hi, hj⟩⟩
      · next hj =>
        exact ⟨fun hid => (hid.elim (fun hid => hj hid.2) hn).elim, fun ⟨_, _, h⟩ => nomatch h⟩
  | puts q m put taken made free labels lists =>
    rw [Outcome.arrivals_of_idle taken made, Outcome.departures_of_some put]
    have gone : m.id ∉ k'.free := fun hid => by
      obtain ⟨_, _, hl⟩ := mem_free.1 hid
      rw [labels, if_pos rfl] at hl
      cases hl
    apply (List.perm_ext_iff_of_nodup nodup_free (List.nodup_cons.2 ⟨gone, nodup_free⟩)).2
    intro id
    rw [List.mem_cons, mem_free, mem_free, labels]
    by_cases he : id = m.id
    · rw [if_pos he]
      exact ⟨fun _ => .inl he, fun _ => ⟨m.home, none, he ▸ free⟩⟩
    · rw [if_neg he]
      exact ⟨.inr, fun hid => hid.resolve_left he⟩
  | takes q m put taken made kept labels lists =>
    rw [Outcome.arrivals_of_taken taken made, Outcome.departures_of_none put]
    have held : m.id ∉ k.free := fun hid => by
      obtain ⟨_, _, hl⟩ := mem_free.1 hid
      cases hl.symm.trans kept
    apply (List.perm_ext_iff_of_nodup (List.nodup_cons.2 ⟨held, nodup_free⟩) nodup_free).2
    intro id
    rw [List.mem_cons, mem_free, mem_free, labels]
    by_cases he : id = m.id
    · rw [if_pos he]
      exact ⟨fun _ => ⟨m.home, none, rfl⟩, fun _ => .inl he⟩
    · rw [if_neg he]
      exact ⟨fun hid => hid.resolve_left he, .inr⟩

theorem Kernel.Moves.arrivals_of_put {o : Outcome} {k k' : Kernel} (h : k.Moves o k')
    {x : QueueId × Message} (hp : o.put = some x) : o.arrivals = [] := by
  cases h with
  | still put => exact nomatch put.symm.trans hp
  | pools _ _ put => exact nomatch put.symm.trans hp
  | takes _ _ put => exact nomatch put.symm.trans hp
  | puts q m _ taken made => exact Outcome.arrivals_of_idle taken made

theorem Kernel.Moves.home_of_arrival {o : Outcome} {k k' : Kernel} (h : k.Moves o k') {m : Message}
    (hm : m ∈ o.arrivals) : k'.homeOf m.id = some m.home := by
  cases h with
  | still put taken made labels lists =>
    rw [Outcome.arrivals_of_idle taken made] at hm
    cases hm
  | puts q m put taken made free labels lists =>
    rw [Outcome.arrivals_of_idle taken made] at hm
    cases hm
  | takes q m' put taken made kept labels lists =>
    rw [Outcome.arrivals_of_taken taken made, List.mem_singleton] at hm
    rw [hm, Kernel.homeOf, labels, if_pos rfl, Option.map_some]
  | pools q shape put taken made labels lists =>
    rw [Outcome.arrivals_of_none taken, made] at hm
    obtain ⟨low, high⟩ := Call.mem_ids_freshMessages.1 (List.mem_map_of_mem hm)
    rw [Kernel.homeOf, labels, if_neg (Nat.not_lt_of_le low), if_pos high, Option.map_some,
      Call.home_of_fresh hm]

theorem Phase.cargo_after {o : Outcome} {k k' : Kernel} {ph : Phase} (moves : k.Moves o k')
    (holds : ∀ q m, o.put = some (q, m) → ph.Holds m) :
    (o.departures.map Message.id ++ (ph.after o).cargo.map Message.id).Perm
        (o.arrivals.map Message.id ++ ph.cargo.map Message.id) ∧
      ∀ m ∈ (ph.after o).cargo, m ∈ ph.cargo ∨ m ∈ o.arrivals := by
  cases hp : o.put with
  | none =>
    have cargo : (ph.after o).cargo = o.arrivals ++ ph.cargo := by
      simp [Phase.after, hp, Outcome.arrivals]
    rw [cargo, Outcome.departures, hp, List.map_append]
    exact ⟨.refl _, fun m hm => (List.mem_append.1 hm).symm⟩
  | some x =>
    obtain ⟨q, m⟩ := x
    obtain ⟨m', hm', hid, -⟩ := holds q m hp
    have cargo : (ph.after o).cargo = ph.cargo.eraseP (·.id = m.id) := by simp [Phase.after, hp]
    rw [moves.arrivals_of_put hp, cargo, Outcome.departures, hp]
    refine ⟨?_, fun m hm => .inl (List.mem_of_mem_eraseP hm)⟩
    obtain ⟨x, before, behind, -, hx, split, erased⟩ :=
      List.exists_of_eraseP (p := fun x => x.id = m.id) hm' (by simpa using hid)
    rw [erased, split]
    simp only [Option.map_some, Option.toList_some, List.map_cons, List.map_nil, List.map_append,
      List.singleton_append, List.nil_append, of_decide_eq_true hx]
    exact List.perm_middle.symm

/-- The messages of the slots that are on no queue are with those who hold them, or lost. -/
structure Kernel.Guarded (k : Kernel) (holders : List Message) (lost : List MessageId) : Prop where
  order : k.QueuesInOrder
  places : (holders.map Message.id ++ lost).Perm k.free
  homes : ∀ m ∈ holders, k.homeOf m.id = some m.home

namespace Kernel.Guarded

variable {k k' : Kernel} {holders holders' rest : List Message} {lost : List MessageId} {m : Message}

theorem perm (h : k.Guarded holders lost) (hp : holders'.Perm holders) : k.Guarded holders' lost where
  order := h.order
  places := ((hp.map _).append_right lost).trans h.places
  homes m hm := h.homes m (hp.mem_iff.1 hm)

theorem label (h : k.Guarded holders lost) (hm : m ∈ holders) :
    k.label m.id = some (m.home, none, none) := by
  have free := h.places.mem_iff.1 (List.mem_append_left lost (List.mem_map_of_mem hm))
  obtain ⟨home, payload, hl⟩ := Kernel.mem_free.1 free
  obtain ⟨rfl, -, -⟩ := h.order.of_free hl
  have hh := h.homes m hm
  rw [Kernel.homeOf, hl, Option.map_some, Option.some.injEq] at hh
  exact hh ▸ hl

theorem step {o : Outcome} {ph : Phase} (h : k.Guarded (ph.cargo ++ rest) lost)
    (order : k'.QueuesInOrder) (moves : k.Moves o k')
    (holds : ∀ q m, o.put = some (q, m) → ph.Holds m) :
    k'.Guarded ((ph.after o).cargo ++ rest) lost := by
  obtain ⟨ids, from_⟩ := Phase.cargo_after moves holds
  refine ⟨order, ?_, fun m hm => ?_⟩
  · have places := h.places
    rw [List.map_append, List.append_assoc] at places ⊢
    apply (List.perm_append_left_iff (o.departures.map Message.id)).1
    rw [← List.append_assoc]
    refine (ids.append_right _).trans (List.Perm.trans ?_ moves.free)
    rw [List.append_assoc]
    exact places.append_left _
  · rcases List.mem_append.1 hm with hm | hm
    · rcases from_ m hm with hm | hm
      · exact moves.homeOf_eq (h.homes m (List.mem_append_left rest hm))
      · exact moves.home_of_arrival hm
    · exact moves.homeOf_eq (h.homes m (List.mem_append_right ph.cargo hm))

end Kernel.Guarded

def Record.Moves (p : Record) (id : MessageId) : Prop :=
  ∃ m ∈ p.outcome.arrivals ++ p.outcome.departures, m.id = id

/-- Message `m` was put on queue `q`, and nothing has happened to it since. -/
def LastPut (log : List Record) (q : QueueId) (m : Message) : Prop :=
  ∃ newer p older, log = newer ++ p :: older ∧ p.outcome.put = some (q, m) ∧
    ∀ x ∈ newer, ¬ x.Moves m.id

/-- What the log says of the slots and of the messages on the queues. -/
structure Remembered (k : Kernel) (log : List Record) : Prop where
  made : ∀ p ∈ log, ∀ m ∈ p.outcome.made, k.homeOf m.id = some m.home
  born : ∀ id x, k.label id = some x → ∃ p ∈ log, ∃ m ∈ p.outcome.made, m.id = id
  queued : ∀ q, ∀ m ∈ k.parked q, LastPut log q m
  taken : ∀ newer p older q m, log = newer ++ p :: older → p.outcome.taken = some (q, m) →
    LastPut older q m
  hands : ∀ p ∈ log, ∀ q m, p.outcome.put = some (q, m) →
    ∃ (α : Type) (call : KernelCall α), p.call = some ⟨α, call⟩ ∧ call.Hands q m

theorem LastPut.cons {log : List Record} {q : QueueId} {m : Message} {p : Record}
    (h : LastPut log q m) (still : ¬ p.Moves m.id) : LastPut (p :: log) q m := by
  obtain ⟨newer, x, older, rfl, put, since⟩ := h
  exact ⟨p :: newer, x, older, rfl, put, List.forall_mem_cons.2 ⟨still, since⟩⟩

namespace Kernel

variable {k k' : Kernel} {o : Outcome} {q : QueueId} {m : Message} {id : MessageId}

theorem label_of_mem_parked (order : k.QueuesInOrder) (h : m ∈ k.parked q) :
    k.label m.id = some (m.home, some q, some m.payload) := by
  obtain ⟨id, hid, hm⟩ := List.mem_filterMap.1 h
  obtain ⟨home, payload, hl⟩ := order.filed q id hid
  rw [message?_of_label hl, Option.some.injEq] at hm
  exact hm ▸ hl

theorem Moves.not_moved (h : k.Moves o k')
    (before : k.label m.id = some (m.home, some q, some m.payload))
    (after : k'.label m.id = some (m.home, some q, some m.payload)) :
    ∀ x ∈ o.arrivals ++ o.departures, x.id ≠ m.id := by
  intro x hx he
  rcases List.mem_append.1 hx with hx | hx
  · cases h with
    | still put taken made labels lists =>
      rw [Outcome.arrivals_of_idle taken made] at hx
      cases hx
    | puts q m put taken made free labels lists =>
      rw [Outcome.arrivals_of_idle taken made] at hx
      cases hx
    | takes q' m' put taken made kept labels lists =>
      rw [Outcome.arrivals_of_taken taken made, List.mem_singleton] at hx
      rw [labels, if_pos (by rw [← he, hx])] at after
      simp at after
    | pools q' shape put taken made labels lists =>
      rw [Outcome.arrivals_of_none taken, made] at hx
      have ids := Call.mem_ids_freshMessages.1 (List.mem_map_of_mem hx)
      rw [he] at ids
      exact Nat.not_lt_of_le ids.1 (lt_of_label before)
  · obtain ⟨⟨q', m'⟩, put, rfl⟩ := Option.map_eq_some_iff.1 (Option.mem_toList.1 hx)
    cases h with
    | still put' => exact nomatch put'.symm.trans put
    | pools _ _ put' => exact nomatch put'.symm.trans put
    | takes _ _ put' => exact nomatch put'.symm.trans put
    | puts q m put' taken made free labels lists =>
      cases put'.symm.trans put
      rw [he, before] at free
      simp at free

theorem Moves.born (h : k.Moves o k') {x : QueueId × Option QueueId × Option Payload}
    (hl : k'.label id = some x) : (∃ y, k.label id = some y) ∨ ∃ m ∈ o.made, m.id = id := by
  cases h with
  | still _ _ _ labels _ => exact .inl ⟨x, labels id ▸ hl⟩
  | puts q m _ _ _ free labels _ =>
    rw [labels] at hl
    split at hl
    · next he => exact .inl ⟨_, he ▸ free⟩
    · exact .inl ⟨x, hl⟩
  | takes q m _ _ _ kept labels _ =>
    rw [labels] at hl
    split at hl
    · next he => exact .inl ⟨_, he ▸ kept⟩
    · exact .inl ⟨x, hl⟩
  | pools q shape _ _ made labels _ =>
    rw [labels] at hl
    split at hl
    · exact .inl ⟨x, hl⟩
    split at hl
    · next hi hj =>
      have hid : id ∈ o.made.map Message.id := by
        rw [made, Call.mem_ids_freshMessages]
        exact ⟨Nat.le_of_not_lt hi, hj⟩
      obtain ⟨m, hm, he⟩ := List.mem_map.1 hid
      exact .inr ⟨m, hm, he⟩
    · exact nomatch hl

end Kernel

theorem Remembered.step {k k' : Kernel} {log : List Record} {p : Record} (h : Remembered k log)
    (order : k.QueuesInOrder) (order' : k'.QueuesInOrder) (moves : k.Moves p.outcome k')
    (hands : ∀ q m, p.outcome.put = some (q, m) →
      ∃ (α : Type) (call : KernelCall α), p.call = some ⟨α, call⟩ ∧ call.Hands q m) :
    Remembered k' (p :: log) where
  made := List.forall_mem_cons.2
    ⟨fun _ hm => moves.home_of_arrival (List.mem_append_left _ hm),
      fun p hp m hm => moves.homeOf_eq (h.made p hp m hm)⟩
  born id x hl := by
    rcases moves.born hl with ⟨y, hl⟩ | ⟨m, hm, he⟩
    · obtain ⟨p', hp', born⟩ := h.born id y hl
      exact ⟨p', List.mem_cons_of_mem p hp', born⟩
    · exact ⟨p, List.mem_cons_self, m, hm, he⟩
  queued q m hm := by
    have after := Kernel.label_of_mem_parked order' hm
    have balance := moves.parked order order' q
    have came : m ∈ k.parked q ++ p.outcome.putOn q := balance ▸ List.mem_append_right _ hm
    rcases List.mem_append.1 came with hm | hm
    · apply (h.queued q m hm).cons
      rintro ⟨x, hx, he⟩
      exact moves.not_moved (Kernel.label_of_mem_parked order hm) after x hx he
    · refine ⟨[], p, log, rfl, ?_, fun _ h => nomatch h⟩
      obtain ⟨⟨q', m'⟩, hx, rfl⟩ := List.mem_map.1 hm
      obtain ⟨hx, he⟩ := List.mem_filter.1 hx
      exact of_decide_eq_true he ▸ Option.mem_toList.1 hx
  taken newer x older q m hlog ht := by
    cases newer with
    | nil =>
      obtain ⟨rfl, rfl⟩ := List.cons.inj hlog
      apply h.queued q m
      have put : p.outcome.put = none := by
        cases hp : p.outcome.put with
        | none => rfl
        | some y =>
          have none := moves.arrivals_of_put hp
          simp [Outcome.arrivals, ht] at none
      have balance := moves.parked order order' q
      rw [Outcome.putOn_of_none put, List.append_nil, Outcome.takenFrom_of_some ht, if_pos rfl]
        at balance
      rw [balance]
      exact List.mem_cons_self
    | cons y newer =>
      obtain ⟨rfl, rfl⟩ := List.cons.inj hlog
      exact h.taken newer x older q m rfl ht
  hands := List.forall_mem_cons.2 ⟨hands, h.hands⟩

namespace System

/-- The messages that calls under way hold, and those that callers hold between their calls. -/
def holders (s : System) : List Message := s.calls.flatMap (·.phase.cargo) ++ s.held

structure Accounts (s : System) : Prop where
  guarded : s.core.kernel.Guarded s.holders s.lost
  remembered : Remembered s.core.kernel s.log

theorem holders_middle {c : Core} {later earlier : List OpenCall} {who : Caller} {α : Type}
    {call : KernelCall α} {rest : Program Unit α} {ph : Phase} {held : List Message}
    {lost : List MessageId} {log : List Record} :
    (holders ⟨c, later ++ ⟨who, call, rest, ph⟩ :: earlier, held, lost, log⟩).Perm
      (ph.cargo ++ ((later ++ earlier).flatMap (·.phase.cargo) ++ held)) := by
  rw [holders, List.flatMap_append, List.flatMap_cons, List.flatMap_append, List.append_assoc,
    List.append_assoc, List.append_assoc]
  exact List.perm_append_comm_assoc _ _ _

theorem holders_begin {s : System} {who : Caller} {α : Type} {call : KernelCall α}
    {held : List Message} (holds : s.held.Perm (call.takes ++ held)) :
    (holders { s with
      calls := ⟨who, call, call.program, { cargo := call.takes }⟩ :: s.calls, held }).Perm
        s.holders := by
  simp only [holders, List.flatMap_cons]
  rw [List.append_assoc]
  apply (List.perm_append_comm_assoc _ _ _).trans
  exact (holds.append_left _).symm

theorem holders_finish {c : Core} {later earlier : List OpenCall} {who : Caller} {α : Type}
    {call : KernelCall α} {a : α} {ph : Phase} {held : List Message} {lost : List MessageId}
    {log : List Record} (cargo : ph.cargo = call.gives a) :
    (holders ⟨c, later ++ earlier, call.gives a ++ held, lost, log⟩).Perm
      (holders ⟨c, later ++ ⟨who, call, .done a, ph⟩ :: earlier, held, lost, log⟩) := by
  refine List.Perm.trans ?_ holders_middle.symm
  simp only [holders, cargo]
  exact List.perm_append_comm_assoc _ _ _

theorem Accounts.boot (clock : Clock) : ({ core := { clock } } : System).Accounts :=
  ⟨⟨.initial clock, .refl _, fun _ h => nomatch h⟩,
    ⟨fun _ h => (nomatch h), fun _ _ h => by simp [Kernel.label, SlotTable.label] at h,
      fun q m h => by simp [Kernel.parked, Kernel.queued] at h,
      fun newer _ _ _ _ h => by simp at h, fun _ h => nomatch h⟩⟩

theorem Accounts.step {s s' : System} (contract : s.InContract) (h : s.Accounts)
    (hs : System.Step s s') : s'.Accounts := by
  -- The kernel and the log stay as they are, and the messages in their places.
  have same {s' : System} (kernel : s'.core.kernel = s.core.kernel) (log : s'.log = s.log)
      (lost : s'.lost = s.lost) (holders : s'.holders.Perm s.holders) : s'.Accounts := by
    obtain ⟨guarded, remembered⟩ := h
    refine ⟨?_, by rwa [kernel, log]⟩
    rw [kernel, lost]
    exact guarded.perm holders
  cases hs with
  | begin _ who call held may holds => exact same rfl rfl rfl (holders_begin holds)
  | reply c c' later earlier held lost log who call r next ph b may answer =>
    exact same answer.kernel_eq rfl rfl (holders_middle.trans holders_middle.symm)
  | act c c' later earlier held lost log who call a next ph b may result =>
    obtain ⟨guarded, remembered⟩ := h
    have permits := contract.permits may
    obtain ⟨order', moves⟩ := (Action.moveStep result).moves guarded.order
    have after := (guarded.perm holders_middle.symm).step order' moves permits.holds
    refine ⟨after.perm holders_middle, ?_⟩
    apply remembered.step guarded.order order' moves
    intro q m put
    exact ⟨_, call, rfl, permits.hands q m put⟩
  | unroll c later earlier held lost log who call body t next ph =>
    exact same rfl rfl rfl (holders_middle.trans holders_middle.symm)
  | finish c later earlier held lost log who call a ph =>
    have rests := (contract.sound _ (List.mem_append_right later List.mem_cons_self)).keeps
    exact same rfl rfl rfl (holders_finish rests.cargo)
  | switch _ c sp resumed result =>
    obtain ⟨guarded, remembered⟩ := h
    obtain ⟨order', moves⟩ := (Action.moveStep (a := .switch sp) result).moves guarded.order
    refine ⟨?_, remembered.step guarded.order order' moves fun _ _ h => nomatch h⟩
    have idle : s.core.kernel.Guarded (({} : Phase).cargo ++ s.holders) s.lost := guarded
    exact idle.step order' moves fun _ _ h => nomatch h
  | write _ before behind m payload holds fits =>
    obtain ⟨⟨order, places, homes⟩, remembered⟩ := h
    simp only [holders, holds] at places homes
    refine ⟨⟨order, ?_, fun x hx => ?_⟩, remembered⟩
    · simpa only [holders, List.map_append, List.map_cons] using places
    · simp only [holders, List.mem_append, List.mem_cons] at hx homes
      rcases hx with hx | hx | rfl | hx
      · exact homes x (.inl hx)
      · exact homes x (.inr (.inl hx))
      · exact homes m (.inr (.inr (.inl rfl)))
      · exact homes x (.inr (.inr (.inr hx)))
  | drop _ before behind m holds =>
    obtain ⟨⟨order, places, homes⟩, remembered⟩ := h
    simp only [holders, holds] at places homes
    refine ⟨⟨order, List.Perm.trans ?_ places, fun x hx => homes x ?_⟩, remembered⟩
    · simp only [holders, List.map_append, List.map_cons, List.append_assoc, List.cons_append]
      refine List.Perm.append_left _ (List.Perm.append_left _ ?_)
      exact List.perm_middle
    · simp only [holders, List.mem_append, List.mem_cons] at hx ⊢
      tauto
  | elapse => exact same rfl rfl rfl (.refl _)

end System

theorem Reachable.accounts {s : System} (h : Reachable s) : s.Accounts := by
  induction h with
  | boot clock => exact .boot clock
  | step hr hs ih => exact ih.step hr.inContract hs

/-- Messages are neither lost nor doubled, and everything that the slots say of them is true. -/
structure System.Conserves (s : System) : Prop where
  /-- Every slot is in one place: on one queue, with one holder of its message, or lost. -/
  places : (s.core.kernel.queuedAll ++ (s.holders.map Message.id ++ s.lost)).Perm
    s.core.kernel.slotIds
  /-- The links of a queue lead through its messages and end. -/
  chains : ∀ (q : QueueId) queue, s.core.kernel.queues[q.index]? = some queue →
    queue.Holds s.core.kernel.slots (s.core.kernel.queued q)
  apart : ∀ q q' id, id ∈ s.core.kernel.queued q → id ∈ s.core.kernel.queued q' → q = q'
  headers : ∀ (id : MessageId) slot, s.core.kernel.slots[id.index]? = some slot →
    (∃ q payload, slot.queue = some q ∧ slot.payload = some payload ∧
        id ∈ s.core.kernel.queued q) ∨
      slot.queue = none ∧ slot.next = none ∧ slot.payload = none ∧
        ∀ q, id ∉ s.core.kernel.queued q
  /-- A slot belongs to the pool that it was made for. -/
  made : ∀ p ∈ s.log, ∀ m ∈ p.outcome.made, s.core.kernel.homeOf m.id = some m.home
  born : ∀ id ∈ s.core.kernel.slotIds, ∃ p ∈ s.log, ∃ m ∈ p.outcome.made, m.id = id
  homes : ∀ m ∈ s.holders, s.core.kernel.homeOf m.id = some m.home
  /-- What goes onto a queue is what the caller handed over, at home or where it said. -/
  hands : ∀ p ∈ s.log, ∀ q m, p.outcome.put = some (q, m) →
    ∃ (α : Type) (call : KernelCall α), p.call = some ⟨α, call⟩ ∧ call.Hands q m
  /-- What comes off a queue is what was put there last, to the byte. -/
  taken : ∀ newer p older q m, s.log = newer ++ p :: older → p.outcome.taken = some (q, m) →
    LastPut older q m
  /-- A call gives its caller the messages that it has. -/
  gives : ∀ o ∈ s.calls, ∀ a, o.rest = .done a → o.phase.cargo = o.call.gives a

/-- A fault that tells of a message in the wrong place. -/
def Fault.IsMixUp : Fault → Prop
  | alreadyQueued | wrongHome .. | noBuffer _ => True
  | _ => False

theorem Fault.IsMixUp.breach {e : Fault} (h : e.IsMixUp) : e.IsBreach := by
  cases e <;> trivial

namespace System.Accounts

variable {s : System}

theorem conserved (h : s.Accounts) (contract : s.InContract) : s.Conserves := by
  obtain ⟨⟨order, places, homes⟩, ⟨made, born, -, taken, hands⟩⟩ := h
  constructor
  case places => exact (places.append_left _).trans order.perm_slotIds
  case chains => exact order.holds
  case apart => exact fun q q' id => order.apart
  case headers =>
    intro id slot found
    have label : s.core.kernel.label id = some (slot.home, slot.queue, slot.payload) := by
      rw [Kernel.label, SlotTable.label, found]
      rfl
    rcases order.labels _ _ _ _ label with ⟨hq, hp, next⟩ | ⟨q, p, hq, hp, hid⟩
    · refine .inr ⟨hq, ?_, hp, (order.of_free (hq ▸ label)).2.2⟩
      rwa [SlotTable.next, found] at next
    · exact .inl ⟨q, p, hq, hp, hid⟩
  case made => exact made
  case born =>
    intro id hid
    obtain ⟨x, label⟩ := Kernel.label_of_lt (Kernel.mem_slotIds.1 hid)
    exact born id x label
  case homes => exact homes
  case hands => exact hands
  case taken => exact taken
  case gives =>
    intro o ho a done
    have keeps := (contract.sound o ho).keeps
    rw [done] at keeps
    exact keeps.cargo

/-- A kernel whose accounts are right does not mix up messages. -/
theorem not_mixUp (h : s.Accounts) (contract : s.InContract) {e : Fault} (mixUp : e.IsMixUp) :
    ¬ s.Faults e := by
  rintro ⟨o, faults⟩
  rcases faults.breaches contract mixUp.breach with ⟨rfl, -⟩ |
    ⟨later, earlier, β, a, calls, may, permits, breaches⟩
  · exact mixUp
  -- The slot of a message that the call holds is free.
  have free {q : QueueId} {m : Message} {slot : Slot} (puts : a.puts = some (q, m))
      (found : s.core.kernel.slots[m.id.index]? = some slot) :
      slot.home = m.home ∧ slot.queue = none := by
    obtain ⟨m', hm', hid, home⟩ := permits.holds q m puts
    have held : m' ∈ s.holders := by
      refine List.mem_append_left _ (List.mem_flatMap.2 ⟨o, ?_, hm'⟩)
      rw [calls]
      exact List.mem_append_right later List.mem_cons_self
    have label := h.guarded.label held
    rw [hid, home, Kernel.label, SlotTable.label, found, Option.map_some, Slot.label] at label
    simp only [Option.some.injEq, Prod.mk.injEq] at label
    exact ⟨label.1, label.2.1⟩
  cases breaches with
  | tries r ticks resumed _ _ _ _ breaks =>
    obtain ⟨status, unsound, -⟩ := breaks
    cases unsound with
    | alreadyWaiting => exact mixUp
    | claimedWhileHeld => exact mixUp
  | alreadyQueued q m slot puts found queued => exact queued (free puts found).2
  | wrongHome q m slot puts found strange => exact strange (free puts found).1
  | vacant q _ vacant =>
    obtain ⟨queue, id, queue', slots, slot, which, pop, found, empty, -⟩ := vacant
    obtain ⟨rest, list, -, -, labels, -, -⟩ := (h.guarded.order.holds q queue which).pop pop
    obtain ⟨home, payload, label⟩ := h.guarded.order.filed q id (list ▸ List.mem_cons_self)
    have kept := (labels id).trans label
    rw [SlotTable.label, found, Option.map_some, Slot.label, empty] at kept
    simp at kept
  | miscounted => exact mixUp

end System.Accounts

theorem System.Step.homeOf {s s' : System} (accounts : s.Accounts) (h : System.Step s s')
    {id : MessageId} {home : QueueId} (hh : s.core.kernel.homeOf id = some home) :
    s'.core.kernel.homeOf id = some home := by
  cases h with
  | reply c c' later earlier held lost log who call r next ph b may answer =>
    rw [answer.kernel_eq]
    exact hh
  | act c c' later earlier held lost log who call a next ph b may result =>
    exact ((Action.moveStep result).moves accounts.guarded.order).2.homeOf_eq hh
  | switch _ c sp resumed result =>
    exact ((Action.moveStep (a := .switch sp) result).moves accounts.guarded.order).2.homeOf_eq hh
  | begin => exact hh
  | unroll => exact hh
  | finish => exact hh
  | write => exact hh
  | drop => exact hh
  | elapse => exact hh

/-- In every run messages are conserved, slots keep their homes, and no section finds a message where
it must not be. -/
theorem Reachable.conserves {s : System} (h : Reachable s) : s.Conserves ∧
    (∀ s', Relation.ReflTransGen System.Step s s' → ∀ id home,
      s.core.kernel.homeOf id = some home → s'.core.kernel.homeOf id = some home) ∧
    ¬ s.Faults .alreadyQueued ∧ (∀ i, ¬ s.Faults (.noBuffer i)) ∧
    ∀ i j, ¬ s.Faults (.wrongHome i j) := by
  have accounts := h.accounts
  have contract := h.inContract
  refine ⟨accounts.conserved contract, fun s' run id home hh => ?_,
    accounts.not_mixUp contract trivial, fun _ => accounts.not_mixUp contract trivial,
    fun _ _ => accounts.not_mixUp contract trivial⟩
  have kept : Reachable s' ∧ s'.core.kernel.homeOf id = some home := by
    induction run with
    | refl => exact ⟨h, hh⟩
    | tail _ step ih => exact ⟨ih.1.step step, step.homeOf ih.1.accounts ih.2⟩
  exact kept.2

/-- A message has gone from its pool to another queue. -/
theorem conserves_travels :
    (System.run Script.travels).core.kernel.queued ⟨0⟩ = [⟨1⟩] ∧
      (System.run Script.travels).core.kernel.queued ⟨1⟩ = [⟨0⟩] ∧
      (System.run Script.travels).Conserves ∧
      ¬ (System.run Script.travels).Faults .alreadyQueued := by
  have conserves := (System.reachable_run Script.travels).conserves
  exact ⟨by decide +kernel, by decide +kernel, conserves.1, conserves.2.2.1⟩

end Rtos
