import Rtos.Proofs.Quiet

/-!
# What sections do to messages

The effect of the sections that put messages on queues and take them off, as equations between
kernels. All other sections but those that add a queue or a pool are still.
-/

namespace Rtos

namespace Kernel

variable (k : Kernel)

def pushed (q : QueueId) (queue : Queue) (id : MessageId) : Kernel :=
  { k with
    slots := (queue.push k.slots id).2
    queues := k.queues.set q.index (queue.push k.slots id).1 }

def withSlot (id : MessageId) (slot : Slot) : Kernel :=
  { k with slots := k.slots.set id.index slot }

def withQueue (q : QueueId) (queue : Queue) : Kernel :=
  { k with queues := k.queues.set q.index queue }

end Kernel

def Queue.counting (queue : Queue) (d : Driver) (count : UInt32) : Queue :=
  { queue with discipline := .driver { d with count } }

namespace Section

variable {c c' : Core} {q : QueueId}

theorem push_discipline (queue : Queue) (slots : List Slot) (id : MessageId) :
    (queue.push slots id).1.discipline = queue.discipline := by
  unfold Queue.push
  split <;> rfl

/-- What a put does: it fills the slot, links it, and tells the consumers. -/
theorem enqueue_ok {m : Message} {b : Option (PutRoutine × UInt64)}
    (h : enqueue q m c = .ok b c') :
    ∃ slot queue, c.kernel.slots[m.id.index]? = some slot ∧ slot.queue = none ∧
      slot.home = m.home ∧ c.kernel.queues[q.index]? = some queue ∧
      let k := (c.kernel.withSlot m.id
        { slot with queue := some q, payload := some m.payload }).pushed q queue m.id
      (∃ s x, queue.discipline = .task s ∧ b = none ∧ k.semaphores[s.index]? = some x ∧
          x.count + 1 ≠ 0 ∧ ((k.posted s).woken (.semaphore s)).Rescheduled c'.kernel) ∨
        ∃ d, queue.discipline = .driver d ∧ d.count + 1 ≠ 0 ∧
          c'.kernel = k.withQueue q ((queue.push (c.kernel.withSlot m.id
            { slot with queue := some q, payload := some m.payload }).slots m.id).1.counting d
              (d.count + 1)) := by
  simp only [enqueue, bind_eq_ok, slot_eq_ok] at h
  obtain ⟨slot, c₁, ⟨hslot, rfl⟩, h⟩ := h
  split at h
  · exact (throw_eq_ok.1 h).elim
  next free =>
  split at h
  · exact (throw_eq_ok.1 h).elim
  next home =>
  simp only [bind_eq_ok, setSlot, setQueue, modifyKernel_eq_ok, queue_eq_ok, kernel_eq_ok] at h
  obtain ⟨_, c₁, rfl, queue, c₂, ⟨hq, rfl⟩, k, c₃, ⟨rfl, rfl⟩, _, c₄, rfl, _, c₅, rfl, h⟩ := h
  refine ⟨slot, queue, hslot, by simpa using free, Decidable.not_not.1 home, hq, ?_⟩
  rw [push_discipline] at h
  cases hd : queue.discipline with
  | task s =>
    simp only [hd, bind_eq_ok, pure_eq_ok] at h
    obtain ⟨_, c₁, hp, rfl, rfl⟩ := h
    obtain ⟨x, hx, hn, after⟩ := post_ok hp
    exact .inl ⟨s, x, rfl, rfl, hx, hn, after⟩
  | driver d =>
    simp only [hd, bind_eq_ok, increment_eq_ok, modifyKernel_eq_ok, note_eq_ok, pure_eq_ok] at h
    obtain ⟨n, c₁, ⟨hn, rfl, rfl⟩, _, c₂, rfl, _, c₃, rfl, -, rfl⟩ := h
    exact .inr ⟨d, rfl, hn, rfl⟩

/-- What a take does. An empty queue stays as it is. -/
theorem dequeue_ok {b : Option Message} (h : dequeue q c = .ok b c') :
    ∃ queue, c.kernel.queues[q.index]? = some queue ∧
      (queue.first = none ∧ b = none ∧ c' = c ∨
        ∃ id queue' slots slot payload, queue.pop c.kernel.slots = some (id, queue', slots) ∧
          slots[id.index]? = some slot ∧ slot.payload = some payload ∧
          b = some { id, home := slot.home, payload } ∧
          c'.kernel = ({ c.kernel with slots }.withQueue q queue').withSlot id
            { slot with queue := none, payload := none }) := by
  simp only [dequeue, bind_eq_ok, queue_eq_ok, kernel_eq_ok] at h
  obtain ⟨queue, c₁, ⟨hq, rfl⟩, k, c₂, ⟨rfl, rfl⟩, h⟩ := h
  refine ⟨queue, hq, ?_⟩
  cases hp : queue.pop c.kernel.slots with
  | none =>
    simp only [hp, pure_eq_ok] at h
    have first : queue.first = none := by
      unfold Queue.pop at hp
      split at hp
      · next hf => exact hf
      · exact nomatch hp
    exact .inl ⟨first, h.1.symm, h.2.symm⟩
  | some x =>
    obtain ⟨id, queue', slots⟩ := x
    simp only [hp, bind_eq_ok, setSlot, setQueue, modifyKernel_eq_ok, slot_eq_ok] at h
    obtain ⟨_, c₁, rfl, _, c₂, rfl, slot, c₃, ⟨hs, rfl⟩, _, c₄, rfl, h⟩ := h
    cases hpay : slot.payload with
    | none =>
      simp only [hpay, throw_eq_ok] at h
    | some payload =>
      simp only [hpay, pure_eq_ok] at h
      obtain ⟨rfl, rfl⟩ := h
      exact .inr ⟨id, queue', slots, slot, payload, rfl, hs, hpay, rfl, rfl⟩

/-- A poll leaves a task queue and an empty driver queue as they are. -/
theorem pollDriver_ok {b : Option Message} (h : pollDriver q c = .ok b c') :
    ∃ queue, c.kernel.queues[q.index]? = some queue ∧
      (b = none ∧ c'.kernel = c.kernel ∧ (∀ d, queue.discipline = .driver d → d.count = 0) ∨
        ∃ d m c₁, queue.discipline = .driver d ∧ d.count ≠ 0 ∧ b = some m ∧
          dequeue q { c with kernel := c.kernel.withQueue q (queue.counting d (d.count - 1)) } =
            .ok (some m) c₁ ∧ c'.kernel = c₁.kernel) := by
  simp only [pollDriver, bind_eq_ok, queue_eq_ok] at h
  obtain ⟨queue, c₁, ⟨hq, rfl⟩, h⟩ := h
  refine ⟨queue, hq, ?_⟩
  cases hd : queue.discipline with
  | task s =>
    simp only [hd, pure_eq_ok] at h
    obtain ⟨rfl, rfl⟩ := h
    exact .inl ⟨rfl, rfl, fun d h => nomatch h⟩
  | driver d =>
    simp only [hd] at h
    split at h
    · next h0 =>
      simp only [bind_eq_ok, note_eq_ok, pure_eq_ok] at h
      obtain ⟨_, c₁, rfl, rfl, rfl⟩ := h
      refine .inl ⟨rfl, rfl, ?_⟩
      rintro _ ⟨⟩
      exact h0
    · next h0 =>
      simp only [bind_eq_ok, setQueue, modifyKernel_eq_ok] at h
      obtain ⟨_, c₁, rfl, m, c₂, hm, h⟩ := h
      cases m with
      | none => exact (throw_eq_ok.1 h).elim
      | some m =>
        simp only [bind_eq_ok, note_eq_ok, pure_eq_ok] at h
        obtain ⟨_, c₁, rfl, rfl, rfl⟩ := h
        exact .inr ⟨d, m, c₂, rfl, h0, rfl, hm, rfl⟩

theorem setRoutines_ok {put : Option PutRoutine} {control : Option ControlRoutine}
    {data : UInt64} {b : Except Error Unit} (h : setRoutines q put control data c = .ok b c') :
    c'.kernel = c.kernel ∨ ∃ queue d, c.kernel.queues[q.index]? = some queue ∧
      queue.discipline = .driver d ∧
      c'.kernel = c.kernel.withQueue q
        { queue with discipline := .driver { d with put, control, data } } := by
  simp only [setRoutines, bind_eq_ok, queue_eq_ok] at h
  obtain ⟨queue, c₁, ⟨hq, rfl⟩, h⟩ := h
  cases hd : queue.discipline with
  | task s =>
    simp only [hd, pure_eq_ok] at h
    exact .inl (by rw [← h.2])
  | driver d =>
    simp only [hd, bind_eq_ok, setQueue, modifyKernel_eq_ok, pure_eq_ok] at h
    obtain ⟨_, c₁, rfl, -, rfl⟩ := h
    exact .inr ⟨queue, d, hq, hd, rfl⟩

theorem adding_eq_ok {α : Type} {f : Kernel → Option (α × Kernel)} {b : Option α}
    (h : adding f c = .ok b c') :
    b = none ∧ f c.kernel = none ∧ c' = c ∨
      ∃ a k, b = some a ∧ f c.kernel = some (a, k) ∧ c' = { c with kernel := k } := by
  simp only [adding, bind_eq_ok, kernel_eq_ok] at h
  obtain ⟨_, _, ⟨rfl, rfl⟩, h⟩ := h
  cases added : f c.kernel with
  | none =>
    simp only [added, pure_eq_ok] at h
    exact .inl ⟨h.1.symm, rfl, h.2.symm⟩
  | some x =>
    obtain ⟨a, k⟩ := x
    simp only [added, bind_eq_ok, setKernel_eq_ok, pure_eq_ok] at h
    obtain ⟨_, _, rfl, rfl, rfl⟩ := h
    exact .inr ⟨a, k, rfl, rfl, rfl⟩

theorem adding_ok {α : Type} {f : Kernel → Option (α × Kernel)} {b : Option α}
    (h : adding f c = .ok b c') :
    b = none ∧ c' = c ∨ ∃ a, b = some a ∧ f c.kernel = some (a, c'.kernel) := by
  rcases adding_eq_ok h with ⟨refused, -, same⟩ | ⟨a, k, made, added, rfl⟩
  · exact .inl ⟨refused, same⟩
  · exact .inr ⟨a, made, added⟩

end Section

end Rtos
