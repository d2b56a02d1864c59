import Rtos.Proofs.Shelves

/-!
# Polls of either kind of queue

Puts and polls of unattended queues are answered from what lies on the shelves, so they do not tell
a task queue from a driver queue. The same script of polls, run on queues of other kinds, gets the
same answers, and the scheduler has no part in it.
-/

namespace Rtos

/-- Nothing has changed but the semaphores, the queues and their slots; there may be more notes. -/
def Core.Untouched (c c' : Core) : Prop :=
  ∃ semaphores queues slots notes,
    c' = { c with kernel := { c.kernel with semaphores, queues, slots }, notes }

namespace Core.Untouched

variable {c c₁ c₂ : Core}

theorem refl (c : Core) : c.Untouched c := ⟨_, _, _, _, rfl⟩

theorem trans (h₁ : c.Untouched c₁) (h₂ : c₁.Untouched c₂) : c.Untouched c₂ := by
  obtain ⟨semaphores, queues, slots, notes, rfl⟩ := h₁
  obtain ⟨semaphores', queues', slots', notes', rfl⟩ := h₂
  exact ⟨_, _, _, _, rfl⟩

theorem moved (c : Core) (q : QueueId) (queue : Queue) (slots : List Slot) (n : UInt32)
    (notes : Array Note) :
    c.Untouched { c with kernel := c.kernel.moved q queue slots n, notes } := by
  unfold Kernel.moved Kernel.recounted
  split <;> exact ⟨_, _, _, _, rfl⟩

end Core.Untouched

def Program.onward {ι α β : Type} (f : α → Program ι (Option β)) : Option α → Program ι (Option β)
  | some a => f a
  | none => .done none

/-- Programs that may be refused, and else come to the same from every kernel with these shelves:
the same result, with the same shelves left. -/
def Determined {ι α : Type} (refusable : Prop) (Q : QueueId → Prop) (s : Kernel)
    (p : ι → Program Unit (Option α)) : Prop :=
  ∃ (r : Except Fault (Option α)) (s' : Kernel), ∀ (heap : Heap) i (c : Core),
    c.kernel.Shelved Q → c.kernel.shelves = s → (p i).Yields heap (fun r' c' => c.Untouched c' ∧
      (refusable ∧ r' = .ok none ∨
        r' = r ∧ ∀ a, r = .ok (some a) → c'.kernel.Shelved Q ∧ c'.kernel.shelves = s')) c

namespace Determined

variable {ι κ α β : Type} {refusable refusable' : Prop} {Q : QueueId → Prop} {s : Kernel}

theorem of_index {p : ι → Program Unit (Option α)} (h : Determined refusable Q s p) (f : κ → ι) :
    Determined refusable Q s fun k => p (f k) := by
  obtain ⟨r, s', h⟩ := h
  exact ⟨r, s', fun heap k => h heap (f k)⟩

theorem mono {p : ι → Program Unit (Option α)} (h : Determined refusable Q s p)
    (more : refusable → refusable') : Determined refusable' Q s p := by
  obtain ⟨r, s', h⟩ := h
  exact ⟨r, s', fun heap i c shelved same => (h heap i c shelved same).imp fun r' c' ends =>
    ⟨ends.1, ends.2.imp_left fun refused => ⟨more refused.1, refused.2⟩⟩⟩

theorem done (a : α) : Determined (ι := ι) refusable Q s fun _ => .done (some a) :=
  ⟨.ok (some a), s, fun _ _ c shelved same => .done
    ⟨.refl c, .inr ⟨rfl, fun _ _ => ⟨shelved, same⟩⟩⟩⟩

theorem andThen {p : ι → Program Unit (Option α)} {f : α → ι → Program Unit (Option β)}
    (hp : Determined refusable Q s p) (hf : ∀ a s', Determined refusable Q s' (f a)) :
    Determined refusable Q s fun i => (p i).bind (Program.onward fun a => f a i) := by
  obtain ⟨r, s', hp⟩ := hp
  cases r with
  | error e =>
    refine ⟨.error e, s', fun heap i c shelved same =>
        .bind ((hp heap i c shelved same).imp ?_)⟩
    rintro _ c' ⟨untouched, ⟨may, rfl⟩ | ⟨rfl, -⟩⟩
    · exact .done ⟨untouched, .inl ⟨may, rfl⟩⟩
    · exact ⟨untouched, .inr ⟨rfl, fun _ h => nomatch h⟩⟩
  | ok a =>
    cases a with
    | none =>
      refine ⟨.ok none, s', fun heap i c shelved same =>
        .bind ((hp heap i c shelved same).imp ?_)⟩
      rintro _ c' ⟨untouched, ⟨may, rfl⟩ | ⟨rfl, -⟩⟩
      · exact .done ⟨untouched, .inl ⟨may, rfl⟩⟩
      · exact .done ⟨untouched, .inr ⟨rfl, fun _ h => nomatch h⟩⟩
    | some a =>
      obtain ⟨r, s'', hf⟩ := hf a s'
      refine ⟨r, s'', fun heap i c shelved same =>
        .bind ((hp heap i c shelved same).imp ?_)⟩
      rintro _ c' ⟨untouched, ⟨may, rfl⟩ | ⟨rfl, kept⟩⟩
      · exact .done ⟨untouched, .inl ⟨may, rfl⟩⟩
      · obtain ⟨shelved, same⟩ := kept a rfl
        exact (hf heap i c' shelved same).imp fun r' c'' ends => ⟨untouched.trans ends.1, ends.2⟩

theorem reading {f : Kernel → Except Fault α} {out : α → β} (seen : Except Fault α)
    (shows : ∀ k, k.Shelved Q → k.shelves = s → f k = seen) :
    Determined (ι := ι) refusable Q s fun _ =>
      (Program.reading f).bind fun a => .done (some (out a)) := by
  refine ⟨seen.map fun a => some (out a), s, fun _ _ c shelved same => .bind (.reading ?_)⟩
  rw [shows c.kernel shelved same]
  cases seen with
  | ok a => exact .done ⟨.refl c, .inr ⟨rfl, fun _ _ => ⟨shelved, same⟩⟩⟩
  | error e => exact ⟨.refl c, .inr ⟨rfl, fun _ h => nomatch h⟩⟩

theorem fails {p : ι → Program Unit (Option α)} (f : Fault)
    (h : ∀ heap i c, c.kernel.Shelved Q → c.kernel.shelves = s →
      (p i).Yields heap (fun r c' => c.Untouched c' ∧ r = .error f) c) : Determined refusable Q s p :=
  ⟨.error f, s, fun heap i c shelved same => (h heap i c shelved same).imp fun _ _ ends =>
    ⟨ends.1, .inr ⟨ends.2, fun _ h => nomatch h⟩⟩⟩

end Determined

/-- A call of a script: a put, a poll or a look at what a queue holds. A script may also make queues
and pools, a pool from the number of its messages and their size. -/
inductive Poll
  | create (name : String) (pool : Option (Nat × Nat))
  | put (q : QueueId) (m : Message)
  | get (q : QueueId)
  | count (q : QueueId)
  | messages (q : QueueId)

inductive Poll.Answer
  | made (q : QueueId)
  | put
  | got (m : Option Message)
  | count (n : UInt32)
  | messages (rows : List MessageRow)

namespace Poll

/-- The queue that has to be there for the call. -/
def on : Poll → Option QueueId
  | create .. => none
  | put q _ | get q | count q | messages q => some q

def isCreation : Poll → Bool
  | create .. => true
  | _ => false

def program (kind : QueueKind) : Poll → Program Unit (Option Answer)
  | create name none => do return (← Call.createQueue name kind).toOption.map .made
  | create name (some (n, size)) => do
    return (← Call.createPool name kind n size).toOption.map .made
  | put q m => do
    Call.put q m
    return some .put
  | get q => do return some (.got (← Call.receive q noWait))
  | count q => do return some (.count (← Call.count q))
  | messages q => do return some (.messages (← Call.queueMessages q))

def run (kinds : Nat → QueueKind) : List Poll → Program Unit (Option (List Answer))
  | [] => .done (some [])
  | p :: ps => (p.program (kinds 0)).bind <| Program.onward fun a =>
    (run (fun i => kinds (i + 1)) ps).bind <| Program.onward fun as => .done (some (a :: as))

end Poll

theorem entry_map {α β : Type} {f : α → β} {l : List α} {i : Nat} :
    entry (l.map f) i = (entry l i).map f := by
  rw [entry, entry, List.getElem?_map, List.length_map]
  cases l[i]? <;> rfl

theorem entry_eq_error {α : Type} {l : List α} {i : Nat} (absent : l[i]? = none) :
    entry l i = .error (.badIndex l.length i) := by
  rw [entry, absent]

namespace Kernel

variable {k : Kernel} {Q : QueueId → Prop} {s : Kernel} {q : QueueId}

theorem queue_shelves : k.shelves.queue q = (k.queue q).map Queue.bare := entry_map

theorem queued_shelves : k.shelves.queued q = k.queued q := by
  rw [queued, queued, shelves, List.getElem?_map]
  cases k.queues[q.index]? <;> rfl

theorem absent_of_shelves (absent : k.shelves.queues[q.index]? = none) :
    k.queues[q.index]? = none ∧ k.shelves.queues.length = k.queues.length := by
  rw [shelves, List.getElem?_map, Option.map_eq_none_iff] at absent
  exact ⟨absent, List.length_map ..⟩

theorem found_of_shelves {bare : Queue} (found : k.shelves.queues[q.index]? = some bare) :
    ∃ queue, k.queues[q.index]? = some queue ∧ queue.bare = bare := by
  rw [shelves, List.getElem?_map] at found
  exact Option.map_eq_some_iff.1 found

theorem messageRow_shelves {id : MessageId} {slot : Slot} :
    k.shelves.messageRow id slot = k.messageRow id slot := by
  rw [messageRow, messageRow, queue_shelves]
  cases k.queue slot.home with
  | error e => rfl
  | ok home =>
    cases slot.queue with
    | none => rfl
    | some q =>
      simp only [Option.mapM_some, queue_shelves]
      cases k.queue q <;> rfl

theorem queueMessages_shelves : (do k.shelves.queueMessages (← k.shelves.queue q)) =
    (do k.queueMessages (← k.queue q)) := by
  rw [queue_shelves]
  cases k.queue q with
  | error e => rfl
  | ok queue =>
    simp only [Except.map, bind, Except.bind, queueMessages, messageRow_shelves]
    rfl

end Kernel

namespace Section

variable {c : Core} {q : QueueId} {m : Message} {slot : Slot}

theorem enqueue_absent_slot (absent : c.kernel.slots[m.id.index]? = none) :
    enqueue q m c = .error (.badIndex c.kernel.slots.length m.id.index) c :=
  bind_eq_error.2 (.inl (reading_eq_error.2 ⟨entry_eq_error absent, rfl⟩))

theorem enqueue_queued (found : c.kernel.slots[m.id.index]? = some slot)
    (queued : slot.queue.isSome) : enqueue q m c = .error .alreadyQueued c := by
  refine bind_eq_error.2 (.inr ⟨slot, c, slot_eq_ok.2 ⟨found, rfl⟩, ?_⟩)
  rw [if_pos queued]
  rfl

theorem enqueue_stray (found : c.kernel.slots[m.id.index]? = some slot)
    (free : ¬ slot.queue.isSome) (stray : slot.home ≠ m.home) :
    enqueue q m c = .error (.wrongHome slot.home.index m.home.index) c := by
  refine bind_eq_error.2 (.inr ⟨slot, c, slot_eq_ok.2 ⟨found, rfl⟩, ?_⟩)
  rw [if_neg free, if_pos stray]
  rfl

theorem enqueue_absent_queue (found : c.kernel.slots[m.id.index]? = some slot)
    (free : ¬ slot.queue.isSome) (home : slot.home = m.home)
    (absent : c.kernel.queues[q.index]? = none) :
    enqueue q m c = .error (.badIndex c.kernel.queues.length q.index)
      { c with kernel := c.kernel.withSlot m.id (slot.filled q m) } := by
  refine bind_eq_error.2 (.inr ⟨slot, c, slot_eq_ok.2 ⟨found, rfl⟩, ?_⟩)
  rw [if_neg free, if_neg (not_not.2 home)]
  refine bind_eq_error.2 (.inr ⟨(), _, rfl, bind_eq_error.2 (.inl ?_)⟩)
  exact reading_eq_error.2 ⟨entry_eq_error absent, rfl⟩

end Section

namespace Determined

variable {ι : Type} {refusable : Prop} {Q : QueueId → Prop} {s : Kernel} {q : QueueId} {m : Message}

theorem count (hq : Q q) : Determined (ι := ι) refusable Q s fun _ =>
    (Call.count q).bind fun n => .done (some (Poll.Answer.count n)) := by
  refine reading ((s.queue q).map fun _ => UInt32.ofNat (s.queued q).length) ?_
  rintro k shelved rfl
  rw [Kernel.queue_shelves, Kernel.queued_shelves]
  cases found : k.queue q with
  | error e => rfl
  | ok queue =>
    have counted := shelved.counted q queue hq (Section.entry_eq_ok.1 found)
    rw [← counted, UInt32.ofNat_toNat]
    rfl

theorem messages : Determined (ι := ι) refusable Q s fun _ =>
    (Call.queueMessages q).bind fun rows => .done (some (Poll.Answer.messages rows)) := by
  refine reading (do s.queueMessages (← s.queue q)) ?_
  rintro k shelved rfl
  exact Kernel.queueMessages_shelves.symm

theorem put (hq : Q q) : Determined (ι := ι) refusable Q s fun _ =>
    (Call.put q m).bind fun _ => .done (some Poll.Answer.put) := by
  have misuse (f : Fault) (h : ∀ c : Core, c.kernel.Shelved Q → c.kernel.shelves = s →
      ∃ c', Section.enqueue q m c = .error f c' ∧ c.Untouched c') :
      Determined (ι := ι) refusable Q s fun _ =>
        (Call.put q m).bind fun _ => .done (some Poll.Answer.put) := by
    refine fails f fun _ _ c shelved same => .bind (.bind ?_)
    obtain ⟨c', result, untouched⟩ := h c shelved same
    exact .critical_fails (a := .enqueue q m) result ⟨untouched, rfl⟩
  cases found : s.slots[m.id.index]? with
  | none =>
    refine misuse (.badIndex s.slots.length m.id.index) fun c _ same => ?_
    subst same
    exact ⟨c, Section.enqueue_absent_slot found, .refl c⟩
  | some slot =>
    by_cases queued : slot.queue.isSome
    · refine misuse .alreadyQueued fun c _ same => ?_
      subst same
      exact ⟨c, Section.enqueue_queued found queued, .refl c⟩
    by_cases home : slot.home = m.home
    · cases which : s.queues[q.index]? with
      | none =>
        refine misuse (.badIndex s.queues.length q.index) fun c _ same => ?_
        subst same
        obtain ⟨absent, size⟩ := Kernel.absent_of_shelves which
        rw [size]
        exact ⟨_, Section.enqueue_absent_queue found queued home absent, _, _, _, _, rfl⟩
      | some bare =>
        let after := bare.push (s.slots.set m.id.index (slot.filled q m)) m.id
        refine ⟨.ok (some .put), { slots := after.2, queues := s.queues.set q.index after.1 },
          fun _ _ c shelved same => .bind ?_⟩
        subst same
        obtain ⟨queue, its, rfl⟩ := Kernel.found_of_shelves which
        have free : slot.queue = none := by simpa using queued
        refine .put found free home its (shelved.unattended q queue hq its)
          (shelved.room hq its) ?_
        rintro _ ⟨notes, rfl⟩
        refine .done ⟨.moved .., .inr ⟨rfl, fun _ _ => ⟨shelved.received hq its found free, ?_⟩⟩⟩
        rw [show after = _ from Queue.push_bare]
        exact Kernel.shelves_moved
    · refine misuse (.wrongHome slot.home.index m.home.index) fun c _ same => ?_
      subst same
      exact ⟨c, Section.enqueue_stray found queued home, .refl c⟩

theorem get (hq : Q q) : Determined (ι := ι) refusable Q s fun _ =>
    (Call.receive q noWait).bind fun m => .done (some (Poll.Answer.got m)) := by
  cases which : s.queues[q.index]? with
  | none =>
    refine fails (.badIndex s.queues.length q.index) fun _ _ c _ same =>
      .bind (.bind (.reading ?_))
    subst same
    obtain ⟨absent, size⟩ := Kernel.absent_of_shelves which
    have missing : c.kernel.queue q = .error (.badIndex c.kernel.queues.length q.index) :=
      entry_eq_error absent
    rw [size, Kernel.queueSemaphore, missing]
    exact ⟨.refl c, rfl⟩
  | some bare =>
    cases popped : bare.pop s.slots with
    | none =>
      refine ⟨.ok (some (.got none)), s, fun _ _ c shelved same => .bind ?_⟩
      subst same
      obtain ⟨queue, its, rfl⟩ := Kernel.found_of_shelves which
      rw [Queue.pop_bare, Option.map_eq_none_iff] at popped
      have known {sem : SemId} := (shelved.unattended q queue hq its).known (s := sem)
      refine .receive its (fun _ kind => ⟨rfl, known kind⟩) (fun _ => ?_) fun units => ?_
      · rintro _ ⟨notes, rfl⟩
        exact .done ⟨⟨_, _, _, _, rfl⟩, .inr ⟨rfl, fun _ _ => ⟨shelved, rfl⟩⟩⟩
      · obtain ⟨_, _, _, _, _, found, -⟩ := shelved.pop_of_units hq its units
        cases popped.symm.trans found
    | some taken =>
      obtain ⟨id, left, slots⟩ := taken
      -- What is first on a shelved queue has a payload.
      have kept (c : Core) (shelved : c.kernel.Shelved Q) (same : c.kernel.shelves = s) :
          ∃ queue queue' slot payload, c.kernel.queues[q.index]? = some queue ∧
            queue'.bare = left ∧ c.kernel.queueCount queue ≠ 0 ∧
            queue.pop c.kernel.slots = some (id, queue', slots) ∧ slots[id.index]? = some slot ∧
            slot.payload = some payload := by
        subst same
        obtain ⟨queue, its, rfl⟩ := Kernel.found_of_shelves which
        rw [Queue.pop_bare] at popped
        obtain ⟨⟨_, queue', _⟩, found, is⟩ := Option.map_eq_some_iff.1 popped
        obtain ⟨rfl, rfl, rfl⟩ : _ ∧ _ ∧ _ := by simpa only [Prod.mk.injEq] using is
        have units : c.kernel.queueCount queue ≠ 0 := fun empty =>
          absurd (found.symm.trans (shelved.pop_of_empty hq its empty)) (Option.some_ne_none _)
        obtain ⟨_, _, _, slot, payload, found', held, some⟩ := shelved.pop_of_units hq its units
        obtain ⟨rfl, rfl, rfl⟩ : _ ∧ _ ∧ _ := by
          simpa only [Option.some.injEq, Prod.mk.injEq] using found.symm.trans found'
        exact ⟨queue, queue', slot, payload, its, rfl, units, found, held, some⟩
      cases held : slots[id.index]?.bind fun slot => slot.payload.map (slot, ·) with
      | none =>
        refine fails .taskQueueCount fun _ _ c shelved same => ?_
        obtain ⟨_, _, slot, payload, -, -, -, -, found, some⟩ := kept c shelved same
        rw [found, Option.bind_some, some] at held
        cases held
      | some both =>
        obtain ⟨slot, payload⟩ := both
        refine ⟨.ok (some (.got (some { id, home := slot.home, payload }))),
          { slots := slots.set id.index slot.emptied, queues := s.queues.set q.index left },
          fun _ _ c shelved same => .bind ?_⟩
        obtain ⟨queue, queue', slot', payload', its, rfl, units, found, stored, some⟩ :=
          kept c shelved same
        rw [stored, Option.bind_some, some] at held
        obtain ⟨rfl, rfl⟩ : slot' = slot ∧ payload' = payload := by simpa using held
        have known {sem : SemId} := (shelved.unattended q queue hq its).known (s := sem)
        refine .receive its (fun _ kind => ⟨rfl, known kind⟩) (fun empty => absurd empty units)
          fun _ => ⟨id, queue', slots, slot', payload', found, stored, some, ?_⟩
        rintro _ ⟨notes, rfl⟩
        refine .done ⟨.moved .., .inr ⟨rfl, fun _ _ =>
          ⟨shelved.relieved hq its found stored some units, ?_⟩⟩⟩
        rw [← same]
        exact (congrArg Kernel.shelves Kernel.relieved_eq).trans Kernel.shelves_moved

/-- A new queue or pool gets the same handle and the same place on the shelves, of whatever kind it
is. -/
theorem create (name : String) (pool : Option (Nat × Nat)) :
    Determined (Poll.create name pool).isCreation Q s fun kind =>
      (Poll.create name pool).program kind := by
  cases pool with
  | none =>
    refine ⟨.ok (some (.made ⟨s.queues.length⟩)), (s.withNewQueue name .driver).shelves,
      fun _ kind c shelved same => .bind (.createQueue (fun _ => ?_) fun _ => ?_)⟩
    · exact .done ⟨.refl c, .inl ⟨rfl, rfl⟩⟩
    · subst same
      rw [Kernel.shelves, List.length_map]
      refine .done ⟨⟨_, _, _, _, rfl⟩, .inr ⟨rfl, fun _ _ => ⟨shelved.withNewQueue, ?_⟩⟩⟩
      exact Kernel.shelves_withNewQueue
  | some pool =>
    obtain ⟨n, size⟩ := pool
    by_cases rounds : Call.roundUp size < Limits.wordBound
    · refine ⟨.ok (some (.made ⟨s.queues.length⟩)),
        (s.withPool name .driver ⟨n, Call.roundUp size⟩ (Call.blankStorage ⟨n, Call.roundUp size⟩)
          n).shelves,
        fun _ kind c shelved same =>
          .bind (.createPoolWith rounds (fun _ _ => ?_) (fun _ => ?_) fun room c' became => ?_)⟩
      · exact .done ⟨.refl c, .inl ⟨rfl, rfl⟩⟩
      · exact .done ⟨.refl c, .inl ⟨rfl, rfl⟩⟩
      · subst same
        obtain ⟨notes, rfl⟩ := became
        rw [Kernel.shelves, List.length_map]
        refine .done ⟨⟨_, _, _, _, rfl⟩, .inr ⟨rfl, fun _ _ => ⟨shelved.withPool room.slots, ?_⟩⟩⟩
        exact Kernel.shelves_withPool
    · refine fails .addOverflow fun _ kind c _ _ => .bind ?_
      rw [Call.createPool, Call.createPoolWith, if_pos (Nat.le_of_not_lt rounds)]
      exact .fault ⟨.refl c, rfl⟩

end Determined

namespace Poll

variable {Q : QueueId → Prop} {s : Kernel}

theorem determined {p : Poll} (on : ∀ q, p.on = some q → Q q) :
    Determined p.isCreation Q s fun kind => p.program kind := by
  cases p with
  | create name pool => exact .create name pool
  | put q m => exact .put (on q rfl)
  | get q => exact .get (on q rfl)
  | count q => exact .count (on q rfl)
  | messages q => exact .messages

theorem run_determined {ps : List Poll} (on : ∀ p ∈ ps, ∀ q, p.on = some q → Q q) :
    Determined (∃ p ∈ ps, p.isCreation) Q s fun kinds => run kinds ps := by
  induction ps generalizing s with
  | nil => exact .done []
  | cons p ps ih =>
    obtain ⟨first, rest⟩ := List.forall_mem_cons.1 on
    have head : Determined (∃ p' ∈ p :: ps, p'.isCreation) Q s
        fun kinds : Nat → QueueKind => p.program (kinds 0) := by
      have first := (determined (s := s) first).of_index fun kinds : Nat → QueueKind => kinds 0
      exact first.mono fun may => ⟨p, List.mem_cons_self, may⟩
    have tail (s' : Kernel) : Determined (∃ p' ∈ p :: ps, p'.isCreation) Q s'
        fun kinds : Nat → QueueKind => run (fun i => kinds (i + 1)) ps := by
      have rest := (ih (s := s') rest).of_index fun (kinds : Nat → QueueKind) i => kinds (i + 1)
      refine rest.mono ?_
      rintro ⟨p', later, may⟩
      exact ⟨p', List.mem_cons_of_mem p later, may⟩
    exact head.andThen fun a s' => (tail s').andThen fun as s'' => .done (a :: as)

/-- A script of polls gets the same answers from queues of any kinds, unless one of them cannot be
made. It leaves everything alone but the queues, so the scheduler, the tasks and the current one,
if there is one, are as they were. -/
theorem agrees {heap₁ heap₂ : Heap} {c₁ c₂ : Core}
    (shelved₁ : c₁.kernel.Shelved Q) (shelved₂ : c₂.kernel.Shelved Q)
    (alike : c₁.kernel.shelves = c₂.kernel.shelves) {ps : List Poll}
    (on : ∀ p ∈ ps, ∀ q, p.on = some q → Q q) (kinds₁ kinds₂ : Nat → QueueKind) :
    ∃ answers : Except Fault (Option (List Answer)),
      (run kinds₁ ps).Yields heap₁ (fun r c => c₁.Untouched c ∧
        (r = answers ∨ (∃ p ∈ ps, p.isCreation) ∧ r = .ok none)) c₁ ∧
      (run kinds₂ ps).Yields heap₂ (fun r c => c₂.Untouched c ∧
        (r = answers ∨ (∃ p ∈ ps, p.isCreation) ∧ r = .ok none)) c₂ := by
  obtain ⟨answers, s', comes⟩ := run_determined (s := c₁.kernel.shelves) on
  have ends {heap : Heap} {c : Core} {kinds : Nat → QueueKind} (shelved : c.kernel.Shelved Q)
      (same : c.kernel.shelves = c₁.kernel.shelves) :
      (run kinds ps).Yields heap (fun r c' => c.Untouched c' ∧
        (r = answers ∨ (∃ p ∈ ps, p.isCreation) ∧ r = .ok none)) c :=
    (comes heap kinds c shelved same).imp fun r c' h =>
      ⟨h.1, h.2.elim .inr fun is => .inl is.1⟩
  exact ⟨answers, ends shelved₁ rfl, ends shelved₂ alike.symm⟩

def stocked (kind : QueueKind) : Core :=
  { kernel := (({} : Kernel).withPool "free" kind ⟨1, 4⟩ [0, 0, 0, 0] 1).withNewQueue "out" kind }

theorem shelved_stocked {kind : QueueKind} : (stocked kind).kernel.Shelved fun _ => True :=
  have fits : (0 : Nat) + 1 ≤ Limits.slots := by decide
  ((Kernel.Shelved.initial _ {}).withPool fits).withNewQueue

theorem shelves_stocked {kind : QueueKind} :
    (stocked kind).kernel.shelves = (stocked .driver).kernel.shelves := by
  simp only [stocked]
  rw [Kernel.shelves_withNewQueue, Kernel.shelves_withPool]
  rfl

/-- One message goes from its pool to a queue and is polled for twice there. The pool and the queue
are there already, as task queues or as driver queues, or the script makes them. -/
theorem agrees_twoPolls :
    let moves := [get ⟨0⟩, put ⟨1⟩ ⟨⟨0⟩, ⟨0⟩, [1, 2, 3, 4]⟩, count ⟨1⟩, messages ⟨1⟩, get ⟨1⟩, get ⟨1⟩]
    let script := create "free" (some (1, 4)) :: create "out" none :: moves
    ((stocked .task).kernel.Shelved (fun _ => True) ∧ (stocked .driver).kernel.Shelved (fun _ => True) ∧
      (stocked .task).kernel.shelves = (stocked .driver).kernel.shelves ∧
      ∃ answers : Except Fault (Option (List Answer)),
        (run (fun _ => .task) moves).Yields .any
          (fun r c => (stocked .task).Untouched c ∧ r = answers) (stocked .task) ∧
        (run (fun _ => .driver) moves).Yields .any
          (fun r c => (stocked .driver).Untouched c ∧ r = answers) (stocked .driver)) ∧
    ({} : Core).kernel.Shelved (fun _ => True) ∧
    ∃ answers : Except Fault (Option (List Answer)),
      (run (fun _ => .task) script).Yields .any (fun r c => ({} : Core).Untouched c ∧
        (r = answers ∨ (∃ p ∈ script, p.isCreation) ∧ r = .ok none)) {} ∧
      (run (fun _ => .driver) script).Yields .any (fun r c => ({} : Core).Untouched c ∧
        (r = answers ∨ (∃ p ∈ script, p.isCreation) ∧ r = .ok none)) {} := by
  intro moves script
  have shelved : ({} : Core).kernel.Shelved fun _ => True := .initial _ _
  refine ⟨⟨shelved_stocked, shelved_stocked, shelves_stocked, ?_⟩, shelved,
    agrees shelved shelved rfl (fun _ _ _ _ => trivial) _ _⟩
  obtain ⟨answers, task, driver⟩ := @agrees _ .any .any _ _ shelved_stocked shelved_stocked
    shelves_stocked moves (fun _ _ _ _ => trivial) (fun _ => .task) fun _ => .driver
  have makesNone : ¬ ∃ p ∈ moves, p.isCreation := by decide
  exact ⟨answers, task.imp fun r c ends => ⟨ends.1, ends.2.resolve_right fun h => makesNone h.1⟩,
    driver.imp fun r c ends => ⟨ends.1, ends.2.resolve_right fun h => makesNone h.1⟩⟩

end Poll

end Rtos
