import Rtos.Action

/-!
# How sections end

A section ends in a result or in a fault. The rules here take a section apart along its steps, in
either case, and say what the steps do that all sections are made of.
-/

namespace Rtos

theorem UInt32.toNat_add_one {n : UInt32} (h : n + 1 ≠ 0) : (n + 1).toNat = n.toNat + 1 := by
  have := n.toNat_lt
  rw [ne_eq, ← UInt32.toNat_inj, UInt32.toNat_add] at h
  simp at h ⊢
  omega

theorem UInt32.toNat_sub_one {n : UInt32} (h : n ≠ 0) : (n - 1).toNat + 1 = n.toNat := by
  have := n.toNat_lt
  rw [ne_eq, ← UInt32.toNat_inj] at h
  rw [UInt32.toNat_sub]
  simp at h ⊢
  omega

end Rtos

namespace Rtos.Section

variable {α β : Type} {c c' : Core} {e : Fault}

theorem throw_apply : (throw e : Section α) c = .error e c := rfl

theorem kernel_apply : kernel c = .ok c.kernel c := rfl

theorem modify_apply (f : Core → Core) : (modify f : Section Unit) c = .ok () (f c) := rfl

theorem now_apply : now c = .ok c.clock.now
    { c with clock := { c.clock with now := c.clock.now + c.clock.step } } := rfl

theorem bind_eq_ok {x : Section α} {f : α → Section β} {b : β} :
    (x >>= f) c = .ok b c' ↔ ∃ a c₁, x c = .ok a c₁ ∧ f a c₁ = .ok b c' := by
  constructor
  · intro h
    cases hx : x c with
    | ok a c₁ => exact ⟨a, c₁, rfl, by simpa only [bind, EStateM.bind, hx] using h⟩
    | error e c₁ => simp only [bind, EStateM.bind, hx, reduceCtorEq] at h
  · rintro ⟨a, c₁, hx, hf⟩
    simpa only [bind, EStateM.bind, hx] using hf

theorem pure_eq_ok {a b : α} : (pure a : Section α) c = .ok b c' ↔ a = b ∧ c = c' := by
  simp [pure, EStateM.pure]

theorem throw_eq_ok {b : α} : (throw e : Section α) c = .ok b c' ↔ False := by
  simp [throw_apply]

theorem kernel_eq_ok {k : Kernel} : kernel c = .ok k c' ↔ c.kernel = k ∧ c = c' := by
  simp [kernel_apply]

theorem modify_eq_ok {f : Core → Core} {u : Unit} :
    (modify f : Section Unit) c = .ok u c' ↔ f c = c' := by
  simp [modify_apply]

theorem setKernel_eq_ok {k : Kernel} {u : Unit} :
    setKernel k c = .ok u c' ↔ { c with kernel := k } = c' := modify_eq_ok

theorem modifyKernel_eq_ok {f : Kernel → Kernel} {u : Unit} :
    modifyKernel f c = .ok u c' ↔ { c with kernel := f c.kernel } = c' := modify_eq_ok

theorem note_eq_ok {n : Note} {u : Unit} : note n c = .ok u c' ↔ c.addNote n = c' := modify_eq_ok

theorem requestSwitch_eq_ok {u : Unit} :
    requestSwitch c = .ok u c' ↔ c.requestSwitch = c' := modify_eq_ok

theorem now_eq_ok {n : UInt32} : now c = .ok n c' ↔
    c.clock.now = n ∧ { c with clock := { c.clock with now := c.clock.now + c.clock.step } } = c' := by
  simp [now_apply]

theorem reading_eq_ok {f : Kernel → Except Fault α} {a : α} :
    reading f c = .ok a c' ↔ f c.kernel = .ok a ∧ c = c' := by
  rw [reading, bind_eq_ok]
  constructor
  · rintro ⟨k, c₁, hk, h⟩
    obtain ⟨rfl, rfl⟩ := kernel_eq_ok.1 hk
    cases hf : f c.kernel with
    | ok b => simpa only [hf, pure_eq_ok, Except.ok.injEq] using h
    | error e => simp only [hf, throw_eq_ok] at h
  · rintro ⟨hf, rfl⟩
    exact ⟨c.kernel, c, kernel_eq_ok.2 ⟨rfl, rfl⟩, by simp only [hf, pure_eq_ok, and_self]⟩

theorem entry_eq_ok {table : List α} {i : Nat} {a : α} :
    entry table i = .ok a ↔ table[i]? = some a := by
  unfold entry
  cases table[i]? <;> simp

theorem currentTask_eq_ok {t : TaskId} :
    currentTask c = .ok t c' ↔ c.kernel.current = some t ∧ c = c' := by
  rw [currentTask, reading_eq_ok, Kernel.currentTask]
  cases c.kernel.current <;> simp

theorem task_eq_ok {id : TaskId} {t : Task} :
    task id c = .ok t c' ↔ c.kernel.tasks[id.index]? = some t ∧ c = c' := by
  rw [task, reading_eq_ok, Kernel.task, entry_eq_ok]

theorem semaphore_eq_ok {s : SemId} {sem : Semaphore} :
    semaphore s c = .ok sem c' ↔ c.kernel.semaphores[s.index]? = some sem ∧ c = c' := by
  rw [semaphore, reading_eq_ok, Kernel.semaphore, entry_eq_ok]

theorem mutex_eq_ok {m : MutexId} {mutex : Mutex} :
    Section.mutex m c = .ok mutex c' ↔ c.kernel.mutexes[m.index]? = some mutex ∧ c = c' := by
  rw [Section.mutex, reading_eq_ok, Kernel.mutex, entry_eq_ok]

theorem queue_eq_ok {q : QueueId} {queue : Queue} :
    Section.queue q c = .ok queue c' ↔ c.kernel.queues[q.index]? = some queue ∧ c = c' := by
  rw [Section.queue, reading_eq_ok, Kernel.queue, entry_eq_ok]

theorem slot_eq_ok {id : MessageId} {slot : Slot} :
    Section.slot id c = .ok slot c' ↔ c.kernel.slots[id.index]? = some slot ∧ c = c' := by
  rw [Section.slot, reading_eq_ok, Kernel.slot, entry_eq_ok]

theorem increment_eq_ok {n m : UInt32} :
    increment n c = .ok m c' ↔ n + 1 ≠ 0 ∧ n + 1 = m ∧ c = c' := by
  unfold increment
  split <;> simp_all [throw_eq_ok, pure_eq_ok]

theorem decrement_eq_ok {n m : UInt32} :
    decrement n c = .ok m c' ↔ n ≠ 0 ∧ n - 1 = m ∧ c = c' := by
  unfold decrement
  split <;> simp_all [throw_eq_ok, pure_eq_ok]

theorem bind_eq_error {x : Section α} {f : α → Section β} :
    (x >>= f) c = .error e c' ↔
      x c = .error e c' ∨ ∃ a c₁, x c = .ok a c₁ ∧ f a c₁ = .error e c' := by
  constructor
  · intro h
    cases hx : x c with
    | ok a c₁ => exact .inr ⟨a, c₁, rfl, by simpa only [bind, EStateM.bind, hx] using h⟩
    | error e₁ c₁ =>
      simp only [bind, EStateM.bind, hx, EStateM.Result.error.injEq] at h
      exact .inl (by rw [h.1, h.2])
  · rintro (hx | ⟨a, c₁, hx, hf⟩)
    · simp only [bind, EStateM.bind, hx]
    · simpa only [bind, EStateM.bind, hx] using hf

theorem pure_eq_error {a : α} : (pure a : Section α) c = .error e c' ↔ False := by
  simp [pure, EStateM.pure]

theorem throw_eq_error {e' : Fault} :
    (throw e' : Section α) c = .error e c' ↔ e' = e ∧ c = c' := by
  simp [throw_apply]

theorem kernel_eq_error : kernel c = .error e c' ↔ False := by
  simp [kernel_apply]

theorem modify_eq_error {f : Core → Core} :
    (modify f : Section Unit) c = .error e c' ↔ False := by
  simp [modify_apply]

theorem reading_eq_error {f : Kernel → Except Fault α} :
    reading f c = .error e c' ↔ f c.kernel = .error e ∧ c = c' := by
  rw [reading, bind_eq_error]
  constructor
  · rintro (hk | ⟨k, c₁, hk, h⟩)
    · exact (kernel_eq_error.1 hk).elim
    obtain ⟨rfl, rfl⟩ := kernel_eq_ok.1 hk
    cases hf : f c.kernel with
    | ok b => simp only [hf, pure_eq_error] at h
    | error e => simpa only [hf, throw_eq_error, Except.error.injEq] using h
  · rintro ⟨hf, rfl⟩
    exact .inr ⟨c.kernel, c, kernel_eq_ok.2 ⟨rfl, rfl⟩, by simp only [hf, throw_eq_error, and_self]⟩

/-- Every fault that the section may meet is one of `P`. -/
def Raises (P : Fault → Prop) (x : Section α) : Prop :=
  ∀ c e c', x c = .error e c' → P e

namespace Raises

variable {P : Fault → Prop}

theorem bind {x : Section α} {f : α → Section β} (hx : Raises P x) (hf : ∀ a, Raises P (f a)) :
    Raises P (x >>= f) := by
  intro c e c' h
  rcases bind_eq_error.1 h with h | ⟨a, c₁, -, h⟩
  · exact hx c e c' h
  · exact hf a c₁ e c' h

theorem pure (a : α) : Raises P (pure a : Section α) := fun _ _ _ h => (pure_eq_error.1 h).elim

theorem throw (he : P e) : Raises P (throw e : Section α) := by
  intro c e' c' h
  obtain ⟨rfl, -⟩ := throw_eq_error.1 h
  exact he

theorem modify (f : Core → Core) : Raises P (modify f : Section Unit) :=
  fun _ _ _ h => (modify_eq_error.1 h).elim

theorem reading {f : Kernel → Except Fault α} (hf : ∀ k e, f k = .error e → P e) :
    Raises P (reading f) :=
  fun c e _ h => hf c.kernel e (reading_eq_error.1 h).1

theorem kernel : Raises P kernel := fun _ _ _ h => (kernel_eq_error.1 h).elim

theorem ite {p : Prop} [Decidable p] {x y : Section α} (hx : Raises P x) (hy : Raises P y) :
    Raises P (if p then x else y) := by
  split
  · exact hx
  · exact hy

end Raises

end Rtos.Section
