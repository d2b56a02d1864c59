import Rtos.Proofs.Queued
import Rtos.Proofs.Unattended

/-!
# Making a pool

A pool is made in steps: a queue is added, then empty slots, then one message after the other is put
on the queue. `withPool` is the kernel with a given number of them on it, so that one put leads from
each of these kernels to the next.
-/

namespace Rtos

namespace Payload

variable {size count i : Nat} {storage : Payload}

/-- The piece of that size with number `i`, the part of the storage that starts at `i * size`. -/
def piece (size i : Nat) (storage : Payload) : Payload := (storage.drop (i * size)).take size

theorem getElem?_pieces :
    (pieces size count storage)[i]? = if i < count then some (storage.piece size i) else none := by
  induction count generalizing i storage with
  | zero => rfl
  | succ count ih =>
    cases i with
    | zero => rw [pieces, piece, Nat.zero_mul, List.drop_zero, if_pos (Nat.succ_pos count)]; rfl
    | succ i =>
      have further : size + i * size = (i + 1) * size := by rw [Nat.succ_mul, Nat.add_comm]
      rw [pieces, List.getElem?_cons_succ, ih, piece, piece, List.drop_drop, further]
      simp only [Nat.add_lt_add_iff_right]

/-- The pieces are the storage, cut up: nothing is left over, and no two of them share a byte. -/
theorem flatten_pieces (whole : storage.length = count * size) :
    (pieces size count storage).flatten = storage := by
  induction count generalizing storage with
  | zero =>
    rw [Nat.zero_mul] at whole
    rw [List.length_eq_zero_iff.1 whole]
    rfl
  | succ count ih =>
    have rest : (storage.drop size).length = count * size := by
      rw [List.length_drop, whole, Nat.succ_mul, Nat.add_sub_cancel]
    rw [pieces, List.flatten_cons, ih rest, List.take_append_drop]

theorem length_piece (whole : storage.length = count * size) (known : i < count) :
    (storage.piece size i).length = size := by
  have inside : (i + 1) * size ≤ count * size := Nat.mul_le_mul_right size known
  rw [Nat.succ_mul] at inside
  rw [piece, List.length_take, List.length_drop, whole]
  omega

end Payload

namespace QueueKind

def semaphores (name : String) (n : UInt32) : QueueKind → List Semaphore
  | task => [{ name, count := n }]
  | driver => []

def discipline (s : SemId) (n : UInt32) : QueueKind → Discipline
  | task => .task s
  | driver => .driver { count := n }

end QueueKind

namespace PoolShape

variable (shape : PoolShape) (storage : Payload) (q : QueueId) (first filled : Nat)

def slot (i : Nat) : Slot :=
  if i < filled then
    { home := q, next := if i + 1 < filled then some ⟨first + i + 1⟩ else none, queue := some q,
      payload := some (storage.piece shape.size i) }
  else { home := q }

def slots : List Slot := (List.range shape.count).map (shape.slot storage q first filled)

variable {shape storage q first filled}

theorem length_slots : (shape.slots storage q first filled).length = shape.count := by
  rw [slots, List.length_map, List.length_range]

theorem getElem?_slots {i : Nat} : (shape.slots storage q first filled)[i]? =
    if i < shape.count then some (shape.slot storage q first filled i) else none := by
  rw [slots, List.getElem?_map]
  split
  · rw [List.getElem?_range ‹_›]
    rfl
  · rw [List.getElem?_eq_none (by simpa using Nat.le_of_not_lt ‹_›)]
    rfl

def message (shape : PoolShape) (storage : Payload) (q : QueueId) (first i : Nat) : Message :=
  { id := ⟨first + i⟩, home := q, payload := storage.piece shape.size i }

theorem getElem?_freshMessages {i : Nat} {m : Message}
    (h : (Call.freshMessages q ⟨first⟩ shape storage)[i]? = some m) :
    i < shape.count ∧ m = shape.message storage q first i := by
  simp only [Call.freshMessages, List.getElem?_map, List.getElem?_zipIdx,
    Payload.getElem?_pieces] at h
  split at h
  · exact ⟨‹_›, (Option.some.inj h).symm⟩
  · exact nomatch h

theorem slots_one :
    ((shape.slots storage q first 0).set 0
        (Slot.filled { home := q } q (shape.message storage q first 0))).modify 0
      ({ · with next := none }) = shape.slots storage q first 1 := by
  refine List.ext_getElem? fun j => ?_
  simp only [List.getElem?_modify, List.getElem?_set, getElem?_slots, length_slots]
  by_cases here : 0 = j
  · subst here
    simp [slot, Slot.filled, message]
  · have later : ¬ j < 1 := by omega
    simp [here, slot, later]

theorem slots_succ {i : Nat} (more : i + 1 < shape.count) :
    (((shape.slots storage q first (i + 1)).set (i + 1)
      (Slot.filled { home := q } q (shape.message storage q first (i + 1)))).modify i
        ({ · with next := some ⟨first + (i + 1)⟩ })).modify (i + 1) ({ · with next := none }) =
      shape.slots storage q first (i + 2) := by
  refine List.ext_getElem? fun j => ?_
  simp only [List.getElem?_modify, List.getElem?_set, getElem?_slots, length_slots]
  by_cases here : i + 1 = j
  · subst here
    simp [slot, Slot.filled, message, more]
  by_cases before : i = j
  · subst before
    have known : i < shape.count := by omega
    simp [slot, known]
    omega
  · have filled : j < i + 2 ↔ j < i + 1 := by omega
    have linked : j + 1 < i + 2 ↔ j + 1 < i + 1 := by omega
    simp [here, before, slot, filled, linked]

end PoolShape

theorem Linked.range' {next : MessageId → Option MessageId} {a n : Nat}
    (links : ∀ i, a ≤ i → i < a + n → next ⟨i⟩ = if i + 1 < a + n then some ⟨i + 1⟩ else none) :
    Linked next none (if n = 0 then none else some ⟨a⟩) ((List.range' a n).map MessageId.mk) := by
  induction n generalizing a with
  | zero => exact .nil
  | succ n ih =>
    have rest := ih (a := a + 1) fun i after before => by
      rw [links i (by omega) (by omega), Nat.add_right_comm a 1 n]
      rfl
    rw [List.range'_succ, List.map_cons, if_neg (Nat.succ_ne_zero n)]
    refine .cons _ _ ?_
    rw [links a (Nat.le_refl a) (by omega)]
    by_cases last : n = 0
    · rw [if_neg (by omega)]
      rwa [if_pos last] at rest
    · rw [if_pos (by omega)]
      rwa [if_neg last] at rest

theorem modify_append_add {α : Type} {l₁ l₂ : List α} {i : Nat} {f : α → α} :
    (l₁ ++ l₂).modify (l₁.length + i) f = l₁ ++ l₂.modify i f := by
  induction l₁ with
  | nil => simp
  | cons a l ih =>
    rw [List.length_cons, Nat.add_right_comm, List.cons_append, List.modify_succ_cons, ih]
    rfl

theorem modify_append_singleton {α : Type} {l : List α} {a : α} {f : α → α} :
    (l ++ [a]).modify l.length f = l ++ [f a] := modify_append_add (i := 0)

theorem set_append_singleton {α : Type} {l : List α} {a b : α} :
    (l ++ [a]).set l.length b = l ++ [b] := by
  rw [List.set_append_right _ _ (Nat.le_refl _), Nat.sub_self, List.set_cons_zero]

namespace Kernel

variable (k : Kernel) (name : String) (kind : QueueKind) (shape : PoolShape) (storage : Payload)
  (filled : Nat)

/-- The queue that is added next, with `filled` messages of new slots on it. -/
def newQueue (pool : Option PoolShape) : Queue where
  name := name
  discipline := kind.discipline ⟨k.semaphores.length⟩ (UInt32.ofNat filled)
  first := if filled = 0 then none else some ⟨k.slots.length⟩
  last := if filled = 0 then none else some ⟨k.slots.length + (filled - 1)⟩
  pool := pool

def withNewQueue : Kernel :=
  { k with
    semaphores := k.semaphores ++ kind.semaphores name 0
    queues := k.queues ++ [k.newQueue name kind 0 none] }

/-- The kernel with a new pool that holds the first `filled` of its messages. -/
def withPool : Kernel :=
  { k with
    semaphores := k.semaphores ++ kind.semaphores name (UInt32.ofNat filled)
    queues := k.queues ++ [k.newQueue name kind filled (some shape)]
    slots := k.slots ++ shape.slots storage ⟨k.queues.length⟩ k.slots.length filled }

variable {k name kind shape storage} {i : Nat}

theorem push_withPool (more : i < shape.count) :
    (k.newQueue name kind i (some shape)).push ((k.withPool name kind shape storage i).slots.set
        (k.slots.length + i) (Slot.filled { home := ⟨k.queues.length⟩ } ⟨k.queues.length⟩
          (shape.message storage ⟨k.queues.length⟩ k.slots.length i))) ⟨k.slots.length + i⟩ =
      ({ k.newQueue name kind (i + 1) (some shape) with
          discipline := kind.discipline ⟨k.semaphores.length⟩ (UInt32.ofNat i) },
        (k.withPool name kind shape storage (i + 1)).slots) := by
  cases i with
  | zero =>
    simp only [newQueue, withPool, Queue.push, if_true,
      List.set_append_right _ _ (Nat.le_add_right _ _), Nat.add_sub_cancel_left, modify_append_add]
    rw [PoolShape.slots_one]
    rfl
  | succ i =>
    simp only [newQueue, withPool, Queue.push, Nat.succ_ne_zero, if_false, Nat.add_sub_cancel,
      List.set_append_right _ _ (Nat.le_add_right _ _), Nat.add_sub_cancel_left,
      modify_append_add]
    rw [PoolShape.slots_succ more]

theorem queueCount_withPool : (k.withPool name kind shape storage i).queueCount
    (k.newQueue name kind i (some shape)) = UInt32.ofNat i := by
  cases kind with
  | task => simp [queueCount, withPool, newQueue, QueueKind.discipline, QueueKind.semaphores]
  | driver => rfl

theorem received_withPool (more : i < shape.count) :
    (k.withPool name kind shape storage i).received ⟨k.queues.length⟩ (k.newQueue name kind i (some shape))
      { home := ⟨k.queues.length⟩ } (shape.message storage ⟨k.queues.length⟩ k.slots.length i) =
      k.withPool name kind shape storage (i + 1) := by
  have pushed := @push_withPool k name kind shape storage i more
  have next : UInt32.ofNat i + 1 = UInt32.ofNat (i + 1) := by rw [UInt32.ofNat_add]; rfl
  rw [received, queueCount_withPool, next, Kernel.pushed, withSlot]
  simp only [PoolShape.message] at pushed ⊢
  rw [pushed]
  cases kind with
  | task =>
    simp only [recounted, QueueKind.discipline, withPool, QueueKind.semaphores,
      modify_append_singleton, set_append_singleton]
    rfl
  | driver =>
    simp only [recounted, QueueKind.discipline, withPool, withQueue, set_append_singleton]
    rfl

end Kernel

theorem Limits.ofNat_ne_zero {n : Nat} (some : n ≠ 0) (bound : n ≤ Limits.slots) :
    UInt32.ofNat n ≠ 0 := by
  have bound : n ≤ 256 := bound
  intro zero
  have same := congrArg UInt32.toNat zero
  rw [UInt32.toNat_ofNat_of_lt' (Nat.lt_of_le_of_lt bound (by decide))] at same
  exact some same

namespace Kernel

variable {k : Kernel} {name : String} {kind : QueueKind} {shape : PoolShape} {storage : Payload}
  {i : Nat}

theorem addPool_withNewQueue (fits : k.slots.length + shape.count ≤ Limits.slots) :
    (k.withNewQueue name kind).addPool ⟨k.queues.length⟩ shape =
      some (⟨k.slots.length⟩, k.withPool name kind shape storage 0) := by
  have blank : shape.slots storage ⟨k.queues.length⟩ k.slots.length 0 =
      List.replicate shape.count { home := ⟨k.queues.length⟩ } := by
    refine List.ext_getElem? fun i => ?_
    rw [PoolShape.getElem?_slots, List.getElem?_replicate]
    rfl
  have room : (k.withNewQueue name kind).slotsFit shape.count := decide_eq_true fits
  rw [addPool, if_pos room, withPool, blank]
  simp only [withNewQueue, modify_append_singleton]
  rfl

theorem unattended_withPool : (k.withPool name kind shape storage i).Unattended
    (k.newQueue name kind i (some shape)).discipline := by
  cases kind with
  | task => exact ⟨{ name, count := UInt32.ofNat i }, by simp [withPool, QueueKind.semaphores], rfl⟩
  | driver => rfl

theorem holds_withPool {pool : Option PoolShape} (some : i ≤ shape.count) :
    (k.newQueue name kind i pool).Holds (k.withPool name kind shape storage i).slots
      ((List.range' k.slots.length i).map MessageId.mk) where
  strung :=
    { linked := Linked.range' fun j after before => by
        have own : j - k.slots.length < shape.count := by omega
        have filled : j - k.slots.length < i := by omega
        simp only [SlotTable.next, withPool, List.getElem?_append_right after,
          PoolShape.getElem?_slots, if_pos own, PoolShape.slot, if_pos filled, Option.bind_some]
        have next : j - k.slots.length + 1 < i ↔ j + 1 < k.slots.length + i := by omega
        have place : k.slots.length + (j - k.slots.length) + 1 = j + 1 := by omega
        simp only [next, place]
      last_eq := by
        rw [List.getLast?_map, List.getLast?_range']
        cases i <;> rfl
      nodup := (List.nodup_range').map fun _ _ same => MessageId.mk.inj same }
  known id hid := by
    obtain ⟨j, hj, rfl⟩ := List.mem_map.1 hid
    have inside := List.mem_range'_1.1 hj
    rw [withPool, List.length_append, PoolShape.length_slots]
    dsimp only
    omega

theorem getElem?_withPool (more : i < shape.count) :
    (k.withPool name kind shape storage i).slots[k.slots.length + i]? =
      some { home := ⟨k.queues.length⟩ } := by
  rw [withPool, List.getElem?_append_right (Nat.le_add_right _ _), Nat.add_sub_cancel_left,
    PoolShape.getElem?_slots, if_pos more, PoolShape.slot, if_neg (Nat.lt_irrefl i)]

end Kernel

namespace Kernel

structure HasPlaceFor (k : Kernel) (kind : QueueKind) : Prop where
  queue : k.queues.length < Limits.queues
  semaphore : kind = .task → k.semaphores.length < Limits.semaphores

/-- Whether a pool of that shape and its queue fit into the tables, and its storage into a word. -/
structure HasRoomFor (k : Kernel) (kind : QueueKind) (shape : PoolShape) : Prop
    extends HasPlaceFor k kind where
  slots : k.slots.length + shape.count ≤ Limits.slots
  storage : shape.count * shape.size < Limits.wordBound

end Kernel

namespace Program.Yields

variable {heap : Heap} {c : Core} {name : String} {kind : QueueKind} {shape : PoolShape}

theorem createSemaphore {n : UInt32} {P : Except Fault (Except Error SemId) → Core → Prop}
    (refuses : Limits.semaphores ≤ c.kernel.semaphores.length → P (.ok (.error .noMemory)) c)
    (adds : c.kernel.semaphores.length < Limits.semaphores →
      P (.ok (.ok ⟨c.kernel.semaphores.length⟩)) { c with kernel := { c.kernel with
        semaphores := c.kernel.semaphores ++ [{ name, count := n }] } }) :
    (Call.createSemaphore name n).Yields heap P c := by
  refine bind (adding rfl (fun refused => ?_) fun s k added => ?_)
  · exact bind (note (.done (refuses (Kernel.addSemaphore_eq_none refused))))
  · obtain ⟨room, rfl, rfl⟩ := Kernel.addSemaphore_eq_some added
    exact bind (note (.done (adds room)))

theorem addQueue {d : Discipline} {P : Except Fault (Option QueueId) → Core → Prop}
    (free : c.kernel.queues.length < Limits.queues)
    (h : P (.ok (some ⟨c.kernel.queues.length⟩)) { c with kernel := { c.kernel with
      queues := c.kernel.queues ++ [{ name, discipline := d }] } }) :
    (Program.critical (.addQueue name d)).Yields heap P c := by
  have room : ¬ c.kernel.queueTableIsFull := by simpa [Kernel.queueTableIsFull] using free
  refine adding rfl (fun refused => ?_) fun q k added => ?_
  · exact (room (Kernel.addQueue_eq_none refused)).elim
  · obtain ⟨-, rfl, rfl⟩ := Kernel.addQueue_eq_some added
    exact h

theorem createQueue {P : Except Fault (Except Error QueueId) → Core → Prop}
    (refuses : ¬ c.kernel.HasPlaceFor kind → P (.ok (.error .noMemory)) c)
    (adds : c.kernel.HasPlaceFor kind → P (.ok (.ok ⟨c.kernel.queues.length⟩))
      { c with kernel := c.kernel.withNewQueue name kind }) :
    (Call.createQueue name kind).Yields heap P c := by
  refine bind (reading ?_)
  change Yields heap P (if c.kernel.queueTableIsFull then _ else _) c
  by_cases full : c.kernel.queueTableIsFull
  · rw [if_pos full]
    refine bind (note (.done (refuses fun place => ?_)))
    exact Nat.not_le_of_lt place.queue (of_decide_eq_true full)
  rw [if_neg full]
  have free : c.kernel.queues.length < Limits.queues :=
    Nat.lt_of_not_le fun h => full (decide_eq_true h)
  cases kind with
  | driver =>
    have made := adds ⟨free, nofun⟩
    rw [Kernel.withNewQueue, QueueKind.semaphores, List.append_nil] at made
    exact bind (.done (bind (addQueue free (bind (note (.done made))))))
  | task =>
    refine bind (bind (createSemaphore (fun none => ?_) fun some => ?_))
    · exact .done (.done (refuses fun place => Nat.not_le_of_lt (place.semaphore rfl) none))
    · exact .done (bind (addQueue free (bind (note (.done (adds ⟨free, fun _ => some⟩))))))

theorem fillPool {k : Kernel} {storage : Payload} {P : Except Fault (Except Error QueueId) → Core → Prop}
    (new : c.kernel = k.withNewQueue name kind)
    (fits : k.slots.length + shape.count ≤ Limits.slots)
    (h : ∀ c', c.Becomes (k.withPool name kind shape storage shape.count) c' →
      P (.ok (.ok ⟨k.queues.length⟩)) c') :
    (Call.fillPool name ⟨k.queues.length⟩ shape storage).Yields heap P c := by
  have added := @Kernel.addPool_withNewQueue k name kind shape storage fits
  rw [← new] at added
  refine bind (adding rfl (fun refused => ?_) fun first k' adds => ?_)
  · cases refused.symm.trans added
  obtain ⟨rfl, rfl⟩ := Prod.mk.inj (Option.some.inj (adds.symm.trans added))
  -- After `i` puts the first `i` messages are on the pool.
  refine bind (forM (I := fun i c' => c.Becomes (k.withPool name kind shape storage i) c') ⟨_, rfl⟩
    ?_ ?_)
  · rintro i m _ next ⟨notes, rfl⟩
    obtain ⟨more, rfl⟩ := PoolShape.getElem?_freshMessages next
    have bound : i < Limits.slots := by omega
    refine put (Kernel.getElem?_withPool more) rfl rfl ?_ Kernel.unattended_withPool ?_ ?_
    · simp [Kernel.withPool]
    · rw [Kernel.queueCount_withPool, ← UInt32.ofNat_one, ← UInt32.ofNat_add]
      exact Limits.ofNat_ne_zero (Nat.succ_ne_zero i) (Nat.succ_le_of_lt bound)
    · rintro _ ⟨notes', rfl⟩
      exact ⟨rfl, notes', by rw [Kernel.received_withPool more]⟩
  · intro c' full
    rw [Call.freshMessages, List.length_map, List.length_zipIdx, Payload.length_pieces] at full
    obtain ⟨notes, rfl⟩ := full
    exact bind (note (.done (h _ ⟨notes, rfl⟩)))

theorem reserveStorage {P : Except Fault Bool → Core → Prop}
    (tooLong : Limits.wordBound ≤ shape.count * shape.size → P (.ok false) c)
    (refuses : heap.answers (shape.count * shape.size) false → P (.ok false) c)
    (grants : shape.count * shape.size < Limits.wordBound → P (.ok true) c) :
    (Call.reserveStorage name shape).Yields heap P c := by
  unfold Call.reserveStorage
  dsimp only
  split
  · exact .done (tooLong ‹_›)
  refine bind (reserve fun granted answer => ?_)
  cases granted with
  | true => exact .done (grants (Nat.lt_of_not_le ‹_›))
  | false => exact bind (note (.done (refuses answer)))

/-- What comes of making a pool: it fits and is made with all its messages on it, or nothing
happens, because it does not fit or because the heap refuses its storage. -/
theorem createPoolWith {content : PoolShape → Payload} {count size : Nat}
    {P : Except Fault (Except Error QueueId) → Core → Prop}
    (rounds : Call.roundUp size < Limits.wordBound)
    (refuses : c.kernel.HasRoomFor kind ⟨count, Call.roundUp size⟩ →
      heap.answers (count * Call.roundUp size) false → P (.ok (.error .noMemory)) c)
    (lacks : ¬ c.kernel.HasRoomFor kind ⟨count, Call.roundUp size⟩ → P (.ok (.error .noMemory)) c)
    (gains : c.kernel.HasRoomFor kind ⟨count, Call.roundUp size⟩ → ∀ c',
      c.Becomes (c.kernel.withPool name kind ⟨count, Call.roundUp size⟩
        (content ⟨count, Call.roundUp size⟩) count) c' →
      P (.ok (.ok ⟨c.kernel.queues.length⟩)) c') :
    (Call.createPoolWith content name kind count size).Yields heap P c := by
  unfold Call.createPoolWith
  dsimp only
  rw [if_neg (Nat.not_le_of_lt rounds)]
  refine bind (reading ?_)
  change Yields heap P (if c.kernel.slotsFit count then _ else _) c
  -- The heap is asked only once there are slots enough.
  by_cases fits : c.kernel.slotsFit count
  · rw [if_pos fits]
    have slots : c.kernel.slots.length + count ≤ Limits.slots := of_decide_eq_true fits
    refine bind (reserveStorage (fun tooLong => ?_) (fun refused => ?_) fun word => ?_)
    · exact .done (lacks fun room => Nat.not_le_of_lt room.storage tooLong)
    · by_cases room : c.kernel.HasRoomFor kind ⟨count, Call.roundUp size⟩
      · exact .done (refuses room refused)
      · exact .done (lacks room)
    refine bind (createQueue (fun full => ?_) fun place => ?_)
    · exact .done (lacks fun room => full room.toHasPlaceFor)
    · exact fillPool rfl slots fun c' became => gains ⟨place, slots, word⟩ c' became
  · rw [if_neg fits]
    exact bind (note (.done (lacks fun room => fits (decide_eq_true room.slots))))

end Program.Yields

namespace Kernel

/-- `k'` is `k` with a pool more, queue `q` with the slots `own`: all of them are on it, each with the
piece of the storage that starts where the one before it ends. There is nothing else that has
changed. -/
structure GainsPool (k : Kernel) (name : String) (kind : QueueKind) (shape : PoolShape)
    (storage : Payload) (q : QueueId) (queue : Queue) (own : List Slot) (k' : Kernel) : Prop where
  rest : k' = { k with
    semaphores := k.semaphores ++ kind.semaphores name (UInt32.ofNat shape.count)
    queues := k.queues ++ [queue]
    slots := k.slots ++ own }
  handle : q = ⟨k.queues.length⟩
  name_eq : queue.name = name
  discipline : queue.discipline =
    kind.discipline ⟨k.semaphores.length⟩ (UInt32.ofNat shape.count)
  pool : queue.pool = some shape
  listed : queue.toList k'.slots = (List.range' k.slots.length shape.count).map MessageId.mk
  counted : (k'.queueCount queue).toNat = shape.count
  size : own.length = shape.count
  slices : ∀ i slot, own[i]? = some slot → slot.home = q ∧ slot.queue = some q ∧
    slot.payload = some ((storage.drop (i * shape.size)).take shape.size)
  lengths : ∀ slot ∈ own, ∀ payload ∈ slot.payload, payload.length = shape.size
  /-- One behind the other, the buffers are the storage. -/
  whole : (own.filterMap Slot.payload).flatten = storage

theorem payloads_slots {shape : PoolShape} {storage : Payload} {q : QueueId} {first : Nat} :
    (shape.slots storage q first shape.count).filterMap Slot.payload =
      Payload.pieces shape.size shape.count storage := by
  have filled : (shape.slots storage q first shape.count).map Slot.payload =
      (Payload.pieces shape.size shape.count storage).map some := by
    refine List.ext_getElem? fun i => ?_
    rw [List.getElem?_map, List.getElem?_map, PoolShape.getElem?_slots, Payload.getElem?_pieces]
    split
    · next known => rw [PoolShape.slot, if_pos known]; rfl
    · rfl
  have split {l : List Slot} {payloads : List Payload} (h : l.map Slot.payload = payloads.map some) :
      l.filterMap Slot.payload = payloads := by
    rw [show l.filterMap Slot.payload = (l.map Slot.payload).filterMap id by
      rw [List.filterMap_map]; rfl, h, List.filterMap_map]
    exact List.filterMap_some
  exact split filled

theorem gainsPool (k : Kernel) (name : String) (kind : QueueKind) {shape : PoolShape}
    {storage : Payload} (bound : shape.count ≤ Limits.slots)
    (whole : storage.length = shape.count * shape.size) :
    k.GainsPool name kind shape storage ⟨k.queues.length⟩
      (k.newQueue name kind shape.count (some shape))
      (shape.slots storage ⟨k.queues.length⟩ k.slots.length shape.count)
      (k.withPool name kind shape storage shape.count) where
  rest := rfl
  handle := rfl
  name_eq := rfl
  discipline := rfl
  pool := rfl
  listed := (holds_withPool (Nat.le_refl _)).toList_eq
  counted := by
    rw [queueCount_withPool]
    exact UInt32.toNat_ofNat_of_lt' (Nat.lt_of_le_of_lt bound (by decide))
  size := PoolShape.length_slots
  slices i slot hi := by
    rw [PoolShape.getElem?_slots] at hi
    split at hi
    · next known =>
      cases hi
      rw [PoolShape.slot, if_pos known]
      exact ⟨rfl, rfl, rfl⟩
    · cases hi
  lengths slot hs payload filled := by
    obtain ⟨i, hi, rfl⟩ := List.mem_map.1 hs
    have known := List.mem_range.1 hi
    rw [PoolShape.slot, if_pos known] at filled
    cases filled
    exact Payload.length_piece whole known
  whole := by rw [payloads_slots, Payload.flatten_pieces whole]

end Kernel

/-- What comes of making a pool of that shape in a storage with that content, in a core that has
or lacks the room for it. -/
def Core.MakesPool (c : Core) (name : String) (kind : QueueKind) (shape : PoolShape)
    (storage : Payload) (r : Except Fault (Except Error QueueId)) (c' : Core) : Prop :=
  (∃ q queue own, r = .ok (.ok q) ∧ c.kernel.HasRoomFor kind shape ∧
    c.kernel.GainsPool name kind shape storage q queue own c'.kernel ∧ c.Becomes c'.kernel c') ∨
  r = .ok (.error .noMemory) ∧ ¬ c.kernel.HasRoomFor kind shape ∧ c' = c

/-- Unless its size cannot be rounded up, a pool is made if and only if it fits, on every heap that
grants its storage. Made alone, it holds all its messages; one that does not fit leaves no trace.
Each slot gets its own part of the storage, which is blank: in a storage with any other content,
the slots would show where their parts of it begin and end. -/
theorem KernelCall.makesPool {heap : Heap} {c : Core} {name : String} {kind : QueueKind}
    {count size : Nat} (rounds : Call.roundUp size < Limits.wordBound)
    (granted : count * Call.roundUp size < Limits.wordBound →
      heap.Grants (count * Call.roundUp size)) :
    (KernelCall.createPool name kind count size).program.Yields heap
      (c.MakesPool name kind ⟨count, Call.roundUp size⟩
        (List.replicate (count * Call.roundUp size) 0)) c ∧
    ∀ content : PoolShape → Payload,
      (content ⟨count, Call.roundUp size⟩).length = count * Call.roundUp size →
      (Call.createPoolWith content name kind count size).Yields heap
        (c.MakesPool name kind ⟨count, Call.roundUp size⟩ (content ⟨count, Call.roundUp size⟩)) c := by
  have made (content : PoolShape → Payload)
      (whole : (content ⟨count, Call.roundUp size⟩).length = count * Call.roundUp size) :
      (Call.createPoolWith content name kind count size).Yields heap
        (c.MakesPool name kind ⟨count, Call.roundUp size⟩ (content ⟨count, Call.roundUp size⟩)) c := by
    refine .createPoolWith rounds (fun room refused => ?_) (fun crowded => .inr ⟨rfl, crowded, rfl⟩)
      fun room c' became => ?_
    · exact (granted room.storage refused).elim
    · obtain ⟨notes, rfl⟩ := became
      have bound : count ≤ Limits.slots := Nat.le_trans (Nat.le_add_left _ _) room.slots
      exact .inl ⟨_, _, _, rfl, room, Kernel.gainsPool c.kernel name kind bound whole, notes, rfl⟩
  exact ⟨made Call.blankStorage List.length_replicate, made⟩

/-- Two messages of six bytes, on a task queue, in a kernel where nothing has been made yet, from a
heap with blocks of up to 64 bytes. In a storage of numbered bytes each slot would have its own. -/
theorem makesPool_two : Call.roundUp 6 < Limits.wordBound ∧
    (Heap.upTo 64 (by decide)).Grants (2 * Call.roundUp 6) ∧
    (KernelCall.createPool "rx" .task 2 6).program.Yields (.upTo 64 (by decide))
      (fun r c' => r = .ok (.ok ⟨0⟩) ∧ c'.kernel.semaphores.map Semaphore.count = [2] ∧
        c'.kernel.slots.map Slot.payload =
          [some (List.replicate 8 0), some (List.replicate 8 0)]) {} ∧
    (Call.createPoolWith (fun _ => (List.range 16).map UInt8.ofNat) "rx" .task 2 6).Yields
      (.upTo 64 (by decide)) (fun _ c' => c'.kernel.slots.map Slot.payload =
        [some [0, 1, 2, 3, 4, 5, 6, 7], some [8, 9, 10, 11, 12, 13, 14, 15]]) {} := by
  have rounds : Call.roundUp 6 < Limits.wordBound := by decide
  have granted : (Heap.upTo 64 (by decide)).Grants (2 * Call.roundUp 6) := fun h => nomatch h
  have room : ({} : Core).kernel.HasRoomFor .task ⟨2, Call.roundUp 6⟩ :=
    ⟨⟨by decide, fun _ => by decide⟩, by decide, by decide⟩
  have pools {storage : Payload} {r : Except Fault (Except Error QueueId)} {c' : Core}
      (made : ({} : Core).MakesPool "rx" .task ⟨2, Call.roundUp 6⟩ storage r c') :
      r = .ok (.ok ⟨0⟩) ∧ c'.kernel.semaphores.map Semaphore.count = [2] ∧
        c'.kernel.slots.map Slot.payload =
          [some ((storage.drop 0).take 8), some ((storage.drop 8).take 8)] := by
    rcases made with ⟨q, queue, own, rfl, -, gains, -⟩ | ⟨-, crowded, -⟩
    · obtain ⟨first, second, rfl⟩ := List.length_eq_two.1 gains.size
      have payload := (gains.slices 0 first rfl).2.2
      have payload' := (gains.slices 1 second rfl).2.2
      rw [gains.rest, gains.handle]
      exact ⟨rfl, rfl, congrArg₂ (fun p p' => [p, p']) payload payload'⟩
    · exact absurd room crowded
  obtain ⟨blank, any⟩ := @KernelCall.makesPool _ {} "rx" .task 2 6 rounds fun _ => granted
  exact ⟨rounds, granted, blank.imp fun _ _ => pools, (any _ rfl).imp fun _ _ made => (pools made).2.2⟩

end Rtos
