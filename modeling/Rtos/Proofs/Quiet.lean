import Rtos.Proofs.Effect

/-!
# Sections that leave the waiting alone

Most sections neither queue a task nor take one off a list, and add no unit to an object that there
is. At most they wake tasks whose time has run out. `Calm` says so of two kernels, and `Still` that
no message moved; a section that is `Quiet` does neither.
-/

namespace Rtos

/-- What time, force and the creation of tasks may do to the standing of a task. -/
inductive Drifts : Option (TaskState × TaskStatus) → Option (TaskState × TaskStatus) → Prop
  | same (x : Option (TaskState × TaskStatus)) : Drifts x x
  | roused (status : TaskStatus) : Drifts (some (.sleep, status)) (some (.run, .timeout))
  | created : Drifts none (some (.run, .ok))

theorem Drifts.trans {x y z : Option (TaskState × TaskStatus)} (h₁ : Drifts x y)
    (h₂ : Drifts y z) : Drifts x z := by
  cases h₁ with
  | same => exact h₂
  | roused status =>
    cases h₂ with
    | same => exact .roused status
  | created =>
    cases h₂ with
    | same => exact .created

structure Kernel.Calm (k k' : Kernel) : Prop where
  lists : ∀ w, k'.waitersOf w = k.waitersOf w
  links : ∀ t, TaskTable.nextWaiter k'.tasks t = TaskTable.nextWaiter k.tasks t
  size : k.tasks.length ≤ k'.tasks.length
  has : ∀ w, k.Has w → k'.Has w
  units : ∀ w, k.Has w → k'.units w = k.units w
  standing : ∀ t, Drifts (k.standing t) (k'.standing t)
  current : ∀ t, k'.current = some t → k.current = some t ∨ t.index < k'.tasks.length

structure Kernel.Still (k k' : Kernel) : Prop where
  queues : k'.queues = k.queues
  slots : k'.slots = k.slots

structure Kernel.Quiet (k k' : Kernel) : Prop where
  calm : k.Calm k'
  still : k.Still k'

namespace Kernel

variable {k k₁ k' : Kernel}

theorem Calm.trans (h₁ : k.Calm k₁) (h₂ : k₁.Calm k') : k.Calm k' where
  lists w := (h₂.lists w).trans (h₁.lists w)
  links t := (h₂.links t).trans (h₁.links t)
  size := Nat.le_trans h₁.size h₂.size
  has w hw := h₂.has w (h₁.has w hw)
  units w hw := (h₂.units w (h₁.has w hw)).trans (h₁.units w hw)
  standing t := (h₁.standing t).trans (h₂.standing t)
  current t ht := by
    rcases h₂.current t ht with ht | ht
    · exact (h₁.current t ht).imp_right fun ht => Nat.lt_of_lt_of_le ht h₂.size
    · exact .inr ht

theorem Still.trans (h₁ : k.Still k₁) (h₂ : k₁.Still k') : k.Still k' :=
  ⟨h₂.queues.trans h₁.queues, h₂.slots.trans h₁.slots⟩

theorem Still.of_same (h : k₁.Still k') (queues : k₁.queues = k.queues) (slots : k₁.slots = k.slots) :
    k.Still k' := ⟨h.queues.trans queues, h.slots.trans slots⟩

theorem Quiet.trans (h₁ : k.Quiet k₁) (h₂ : k₁.Quiet k') : k.Quiet k' :=
  ⟨h₁.calm.trans h₂.calm, h₁.still.trans h₂.still⟩

theorem Calm.of_tasks (hs : k'.semaphores = k.semaphores) (hm : k'.mutexes = k.mutexes)
    (hc : k'.current = k.current) (size : k.tasks.length ≤ k'.tasks.length)
    (links : ∀ t, TaskTable.nextWaiter k'.tasks t = TaskTable.nextWaiter k.tasks t)
    (standing : ∀ t, Drifts (k.standing t) (k'.standing t)) : k.Calm k' where
  lists w := by cases w <;> simp only [waitersOf, hs, hm]
  links := links
  size := size
  has w hw := by
    cases w with
    | semaphore s => rwa [Kernel.Has, hs]
    | mutex m => rwa [Kernel.Has, hm]
  units w _ := by cases w <;> simp only [Kernel.units, hs, hm]
  standing := standing
  current t ht := .inl (hc ▸ ht)

theorem Calm.of_same (hs : k'.semaphores = k.semaphores) (hm : k'.mutexes = k.mutexes)
    (hc : k'.current = k.current) (ht : k'.tasks = k.tasks) : k.Calm k' :=
  .of_tasks hs hm hc (Nat.le_of_eq (by rw [ht])) (fun t => by rw [ht])
    fun t => by rw [Kernel.standing, Kernel.standing, ht]; exact .same _

theorem Calm.rfl : k.Calm k := .of_same (Eq.refl _) (Eq.refl _) (Eq.refl _) (Eq.refl _)

theorem Still.rfl : k.Still k := ⟨Eq.refl _, Eq.refl _⟩

theorem Quiet.rfl : k.Quiet k := ⟨.rfl, .rfl⟩

theorem Rescheduled.still (h : k.Rescheduled k') : k.Still k' := by
  obtain ⟨next, stats, rfl⟩ := h
  exact ⟨Eq.refl _, Eq.refl _⟩

theorem Rescheduled.quiet (h : k.Rescheduled k') : k.Quiet k' := by
  refine ⟨?_, h.still⟩
  obtain ⟨next, stats, rfl⟩ := h
  exact .of_same (Eq.refl _) (Eq.refl _) (Eq.refl _) (Eq.refl _)

theorem Calm.of_map {f : Nat → Task → Task} (hs : k'.semaphores = k.semaphores)
    (hm : k'.mutexes = k.mutexes) (hc : k'.current = k.current)
    (ht : ∀ i, k'.tasks[i]? = k.tasks[i]?.map (f i))
    (link : ∀ i x, (f i x).nextWaiter = x.nextWaiter)
    (drift : ∀ i x, k.tasks[i]? = some x →
      Drifts (some (x.state, x.status)) (some ((f i x).state, (f i x).status))) : k.Calm k' := by
  have size : k.tasks.length ≤ k'.tasks.length := by
    have h := ht k'.tasks.length
    rw [List.getElem?_eq_none (Nat.le_refl _), eq_comm, Option.map_eq_none_iff,
      List.getElem?_eq_none_iff] at h
    exact h
  refine .of_tasks hs hm hc size (fun t => ?_) fun t => ?_
  · rw [TaskTable.nextWaiter, TaskTable.nextWaiter, ht]
    cases k.tasks[t.index]? <;> simp [link]
  · rw [Kernel.standing, Kernel.standing, TaskTable.standing, TaskTable.standing, ht]
    cases hx : k.tasks[t.index]? with
    | none => exact .same _
    | some x => exact drift _ x hx

theorem getElem?_updateTask (t : TaskId) (f : Task → Task) (i : Nat) :
    (k.updateTask t f).tasks[i]? =
      k.tasks[i]?.map fun x => if t.index = i then f x else x := by
  simp only [updateTask, TaskTable.update, List.getElem?_modify]
  rfl

theorem quiet_updateTask {t : TaskId} {f : Task → Task} (link : ∀ x, (f x).nextWaiter = x.nextWaiter)
    (drift : ∀ x, k.tasks[t.index]? = some x →
      Drifts (some (x.state, x.status)) (some ((f x).state, (f x).status))) :
    k.Quiet (k.updateTask t f) := by
  refine ⟨.of_map (Eq.refl _) (Eq.refl _) (Eq.refl _) (getElem?_updateTask t f) (fun i x => ?_)
    fun i x hx => ?_, Eq.refl _, Eq.refl _⟩
  · split
    · exact link x
    · rfl
  · split
    · next hi => exact drift x (hi ▸ hx)
    · exact .same _

theorem quiet_countTick : k.Quiet k.countTick := by
  refine ⟨.of_map (f := fun _ => Task.tick) (Eq.refl _) (Eq.refl _) (Eq.refl _) (fun i => ?_)
    (fun i x => ?_) fun i x _ => ?_, Eq.refl _, Eq.refl _⟩
  · simp only [countTick, List.getElem?_map]
  · simp only [Task.tick]
    split
    · split <;> rfl
    · rfl
  · simp only [Task.tick]
    split
    · next h =>
      split
      · simp only [Task.wake, h.1]
        exact .roused _
      · exact .same _
    · exact .same _

theorem quiet_append {x : Task} (link : x.nextWaiter = none) (state : x.state = .run)
    (status : x.status = .ok) : k.Quiet { k with tasks := k.tasks ++ [x] } := by
  refine ⟨.of_tasks (Eq.refl _) (Eq.refl _) (Eq.refl _) (by simp) (fun t => ?_) fun t => ?_, Eq.refl _,
    Eq.refl _⟩
  · simp only [TaskTable.nextWaiter, List.getElem?_append]
    split
    · rfl
    · next ht =>
      rw [List.getElem?_eq_none (Nat.not_lt.1 ht)]
      cases t.index - k.tasks.length <;> simp [link]
  · simp only [Kernel.standing, TaskTable.standing, List.getElem?_append]
    split
    · exact .same _
    · next ht =>
      rw [List.getElem?_eq_none (Nat.not_lt.1 ht)]
      cases t.index - k.tasks.length with
      | zero =>
        simp only [List.getElem?_cons_zero, Option.map_some, Option.map_none, state, status]
        exact .created
      | succ n => exact .same _

theorem quiet_insert {id : TaskId} :
    k.Quiet { k with
      tasks := (ReadyList.insert k.tasks k.ready id).1
      ready := (ReadyList.insert k.tasks k.ready id).2 } := by
  have quiet (k : Kernel) (t : TaskId) (next ready : Option TaskId) :
      k.Quiet { k with tasks := TaskTable.update k.tasks t ({ · with next := next }), ready } :=
    (quiet_updateTask (f := ({ · with next := next })) (fun _ => rfl) fun _ _ => .same _).trans
      ⟨.of_same (Eq.refl _) (Eq.refl _) (Eq.refl _) (Eq.refl _), Eq.refl _, Eq.refl _⟩
  simp only [ReadyList.insert]
  split
  · exact (quiet k id _ k.ready).trans (quiet _ _ _ _)
  · exact quiet k id _ _

theorem quiet_addTask {name : String} {priority : UInt8} {sp : StackPointer} {stackBytes : Nat}
    {id : TaskId} (h : k.addTask name priority sp stackBytes = some (id, k')) : k.Quiet k' := by
  obtain ⟨-, rfl, rfl⟩ := addTask_eq_some h
  exact (quiet_append (x := .fresh name priority sp stackBytes) rfl rfl rfl).trans quiet_insert

theorem quiet_addSemaphore {name : String} {count : UInt32} {s : SemId}
    (h : k.addSemaphore name count = some (s, k')) : k.Quiet k' := by
  obtain ⟨-, -, rfl⟩ := addSemaphore_eq_some h
  refine ⟨⟨fun w => ?_, fun _ => rfl, Nat.le_refl _, fun w hw => ?_, fun w hw => ?_,
    fun _ => .same _, fun _ => .inl⟩, Eq.refl _, Eq.refl _⟩
  · cases w with
    | mutex m => rfl
    | semaphore s =>
      simp only [waitersOf, List.getElem?_append]
      split
      · rfl
      · next hs =>
        rw [List.getElem?_eq_none (Nat.not_lt.1 hs)]
        cases s.index - k.semaphores.length <;> rfl
  · cases w with
    | mutex m => exact hw
    | semaphore s => simpa [Has] using Nat.lt_succ_of_lt hw
  · cases w with
    | mutex m => rfl
    | semaphore s => simp only [units, List.getElem?_append_left hw]

theorem quiet_addMutex {name : String} {m : MutexId}
    (h : k.addMutex name = some (m, k')) : k.Quiet k' := by
  obtain ⟨-, -, rfl⟩ := addMutex_eq_some h
  refine ⟨⟨fun w => ?_, fun _ => rfl, Nat.le_refl _, fun w hw => ?_, fun w hw => ?_,
    fun _ => .same _, fun _ => .inl⟩, Eq.refl _, Eq.refl _⟩
  · cases w with
    | semaphore s => rfl
    | mutex m =>
      simp only [waitersOf, List.getElem?_append]
      split
      · rfl
      · next hs =>
        rw [List.getElem?_eq_none (Nat.not_lt.1 hs)]
        cases m.index - k.mutexes.length <;> rfl
  · cases w with
    | semaphore s => exact hw
    | mutex m => simpa [Has] using Nat.lt_succ_of_lt hw
  · cases w with
    | semaphore s => rfl
    | mutex m => simp only [units, List.getElem?_append_left hw]

section

variable {s : SemId} {m : MutexId} {w : Waitable}

theorem waitersOf_modifySemaphore {f : Semaphore → Semaphore}
    (hf : ∀ x, (f x).waiters = x.waiters) :
    ({ k with semaphores := k.semaphores.modify s.index f }).waitersOf w = k.waitersOf w := by
  cases w with
  | mutex m => rfl
  | semaphore s' =>
    simp only [waitersOf, List.getElem?_modify]
    cases k.semaphores[s'.index]? with
    | none => simp
    | some x => by_cases h : s.index = s'.index <;> simp [h, hf]

theorem waitersOf_modifyMutex {f : Mutex → Mutex} (hf : ∀ x, (f x).waiters = x.waiters) :
    ({ k with mutexes := k.mutexes.modify m.index f }).waitersOf w = k.waitersOf w := by
  cases w with
  | semaphore s => rfl
  | mutex m' =>
    simp only [waitersOf, List.getElem?_modify]
    cases k.mutexes[m'.index]? with
    | none => simp
    | some x => by_cases h : m.index = m'.index <;> simp [h, hf]

theorem has_modifySemaphore {f : Semaphore → Semaphore} :
    ({ k with semaphores := k.semaphores.modify s.index f }).Has w ↔ k.Has w := by
  cases w <;> simp [Has]

theorem has_modifyMutex {f : Mutex → Mutex} :
    ({ k with mutexes := k.mutexes.modify m.index f }).Has w ↔ k.Has w := by
  cases w <;> simp [Has]

theorem units_modifySemaphore {f : Semaphore → Semaphore} {x : Semaphore}
    (hx : k.semaphores[s.index]? = some x) :
    ({ k with semaphores := k.semaphores.modify s.index f }).units w =
      if w = .semaphore s then (f x).count.toNat else k.units w := by
  cases w with
  | mutex m => rfl
  | semaphore s' =>
    simp only [units, List.getElem?_modify, Waitable.semaphore.injEq]
    by_cases h : s' = s
    · simp [h, hx]
    · have hi : s.index ≠ s'.index := fun hi => h (by cases s; cases s'; simp_all)
      simp [h, hi]

theorem units_modifyMutex {f : Mutex → Mutex} {x : Mutex}
    (hx : k.mutexes[m.index]? = some x) :
    ({ k with mutexes := k.mutexes.modify m.index f }).units w =
      if w = .mutex m then (if (f x).depth = 0 then 1 else 0) else k.units w := by
  cases w with
  | semaphore s => rfl
  | mutex m' =>
    simp only [units, List.getElem?_modify, Waitable.mutex.injEq]
    by_cases h : m' = m
    · simp [h, hx]
    · have hi : m.index ≠ m'.index := fun hi => h (by cases m; cases m'; simp_all)
      simp [h, hi]

end

/-- A mutex that stays locked by its owner is of no use to others, however deep it is locked. -/
theorem quiet_withDepth {m : MutexId} {x : Mutex} {depth : UInt32}
    (hx : k.mutexes[m.index]? = some x) (before : x.depth ≠ 0) (after : depth ≠ 0) :
    k.Quiet (k.withDepth m depth) := by
  refine ⟨⟨fun w => waitersOf_modifyMutex fun _ => Eq.refl _, fun _ => Eq.refl _, Nat.le_refl _,
    fun w hw => has_modifyMutex.2 hw, fun w hw => ?_, fun _ => .same _, fun _ => .inl⟩, Eq.refl _,
    Eq.refl _⟩
  rw [withDepth, units_modifyMutex hx, if_neg after]
  split
  · next h =>
    subst h
    simp [units, hx, before]
  · exact Eq.refl _

end Kernel

namespace Section

variable {α β : Type}

/-- The section is quiet wherever it ends in a result. -/
def Quiets (x : Section α) : Prop := ∀ c a c', x c = .ok a c' → c.kernel.Quiet c'.kernel

namespace Quiets

theorem bind {x : Section α} {f : α → Section β} (hx : Quiets x) (hf : ∀ a, Quiets (f a)) :
    Quiets (x >>= f) := by
  intro c b c' h
  obtain ⟨a, c₁, h₁, h₂⟩ := bind_eq_ok.1 h
  exact (hx c a c₁ h₁).trans (hf a c₁ b c' h₂)

theorem pure (a : α) : Quiets (pure a : Section α) := by
  intro c b c' h
  obtain ⟨-, rfl⟩ := pure_eq_ok.1 h
  exact .rfl

theorem throw (e : Fault) : Quiets (throw e : Section α) :=
  fun _ _ _ h => (throw_eq_ok.1 h).elim

theorem reading (f : Kernel → Except Fault α) : Quiets (reading f) := by
  intro c a c' h
  obtain ⟨-, rfl⟩ := reading_eq_ok.1 h
  exact .rfl

theorem now : Quiets now := by
  intro c n c' h
  obtain ⟨-, rfl⟩ := now_eq_ok.1 h
  exact .rfl

theorem note (n : Note) : Quiets (note n) := by
  intro c u c' h
  obtain rfl := note_eq_ok.1 h
  exact .rfl

theorem modifyKernel {f : Kernel → Kernel} (hf : ∀ k : Kernel, k.Quiet (f k)) :
    Quiets (modifyKernel f) := by
  intro c u c' h
  obtain rfl := modifyKernel_eq_ok.1 h
  exact hf c.kernel

theorem schedule : Quiets schedule := fun _ _ _ h => (schedule_ok h).quiet

theorem updateTask {t : TaskId} {f : Task → Task} (link : ∀ x, (f x).nextWaiter = x.nextWaiter)
    (standing : ∀ x, (f x).state = x.state ∧ (f x).status = x.status) :
    Quiets (Section.modifyKernel (·.updateTask t f)) :=
  modifyKernel fun k => Kernel.quiet_updateTask link fun x _ => by
    rw [(standing x).1, (standing x).2]
    exact .same _

theorem tick : Quiets tick :=
  .bind (.modifyKernel fun _ => Kernel.quiet_countTick) fun _ => .schedule

theorem quiet_current {k : Kernel} {t : TaskId} {next : Option TaskId} {stats : SchedulerStats}
    (known : t.index < k.tasks.length) : k.Quiet { k with current := some t, next, stats } := by
  refine ⟨⟨fun _ => rfl, fun _ => rfl, Nat.le_refl _, fun _ => id, fun _ _ => rfl,
    fun _ => .same _, ?_⟩, rfl, rfl⟩
  rintro _ ⟨⟩
  exact .inr known

/-- Taking a switch moves the stack pointer, the run times and the current task only. -/
theorem switch (sp : StackPointer) : Quiets (switch sp) := by
  intro c a c' h
  unfold Section.switch at h
  obtain ⟨k, c₁, hk, h⟩ := bind_eq_ok.1 h
  obtain ⟨rfl, rfl⟩ := kernel_eq_ok.1 hk
  cases hn : c.kernel.next with
  | none =>
    rw [hn] at h
    exact Quiets.pure sp c a c' h
  | some target =>
    rw [hn] at h
    obtain ⟨_, c₁, hs, h⟩ := bind_eq_ok.1 h
    obtain rfl := setKernel_eq_ok.1 hs
    have cleared : c.kernel.Quiet { c.kernel with next := none } :=
      ⟨.of_same rfl rfl rfl rfl, rfl, rfl⟩
    apply cleared.trans
    refine Quiets.bind .now (fun t => .bind (.reading _) fun x => ?_) _ a c' h
    have resume : Quiets do
        Section.modifyKernel (·.updateTask target ({ · with start := t }))
        let resumed := (← task target).stackPointer
        Section.modifyKernel fun k => { k with current := some target, stats := k.stats.addSwitch }
        return resumed := by
      refine .bind (.updateTask (fun _ => rfl) fun _ => ⟨rfl, rfl⟩) fun _ c a c' h => ?_
      simp only [bind_eq_ok, task_eq_ok, modifyKernel_eq_ok, pure_eq_ok] at h
      obtain ⟨y, c₁, ⟨hy, rfl⟩, _, c₂, rfl, -, rfl⟩ := h
      exact quiet_current (List.getElem?_eq_some_iff.1 hy).1
    dsimp only
    split
    · exact resume
    · exact .bind (.updateTask (fun _ => rfl) fun _ => ⟨rfl, rfl⟩) fun _ =>
        .bind (.reading _) fun y => .bind (.note _) fun _ => resume

theorem startWith (idle : TaskId) : Quiets (startWith idle) := by
  intro c a c' h
  obtain ⟨y, hy, -, kernel⟩ := startWith_ok h
  exact kernel ▸ quiet_current (List.getElem?_eq_some_iff.1 hy).1

theorem wake (id : TaskId) : Quiets (wake id) := by
  intro c u c' h
  obtain ⟨t, found, ⟨asleep, h⟩ | ⟨-, rfl⟩⟩ := wake_ok h
  · refine Kernel.Quiet.trans (Kernel.quiet_updateTask (f := Task.wake .timeout) (fun _ => rfl)
      fun x hx => ?_) (schedule_ok h).quiet
    obtain rfl : t = x := Option.some.inj (found.symm.trans hx)
    rw [asleep]
    exact .roused _
  · exact .rfl

theorem setLocalWord (n : Nat) (value : UInt64) : Quiets (setLocalWord n value) := by
  refine .bind (.reading _) fun me => ?_
  split
  · exact .updateTask (fun _ => rfl) fun _ => ⟨rfl, rfl⟩
  · exact .throw _

theorem resetTimes : Quiets resetTimes := by
  refine .modifyKernel fun k => ⟨.of_map (f := fun _ x => { x with time := 0 }) rfl rfl rfl
    (fun i => ?_) (fun _ _ => rfl) fun _ _ _ => .same _, rfl, rfl⟩
  simp only [List.getElem?_map]

theorem adding {f : Kernel → Option (α × Kernel)}
    (hf : ∀ (k : Kernel) a k', f k = some (a, k') → k.Quiet k') :
    Quiets (adding f) := by
  intro c a c' h
  obtain ⟨k, c₁, hk, h⟩ := bind_eq_ok.1 h
  obtain ⟨rfl, rfl⟩ := kernel_eq_ok.1 hk
  cases hx : f c.kernel with
  | none =>
    rw [hx] at h
    exact Quiets.pure none c a c' h
  | some x =>
    rw [hx] at h
    obtain ⟨_, c₁, hs, h⟩ := bind_eq_ok.1 h
    obtain rfl := setKernel_eq_ok.1 hs
    obtain ⟨-, rfl⟩ := pure_eq_ok.1 h
    exact hf _ _ _ hx

end Quiets

variable {c c' : Core} {u : Unit}

theorem delay_ok {ticks : Int32} (h : delay ticks c = .ok u c') :
    ticks = 0 ∧ c' = c ∨ ticks ≠ 0 ∧ ∃ me, c.kernel.current = some me ∧
      (c.kernel.updateTask me (Task.block ticks)).Rescheduled c'.kernel := by
  unfold delay at h
  split at h
  · next ht =>
    simp only [bind_eq_ok, currentTask_eq_ok, modifyKernel_eq_ok] at h
    obtain ⟨me, c₁, ⟨hme, rfl⟩, _, c₂, rfl, h⟩ := h
    exact .inr ⟨ht, me, hme, schedule_ok h⟩
  · next ht => exact .inl ⟨Decidable.not_not.1 ht, (pure_eq_ok.1 h).2.symm⟩

theorem exit_ok (h : exit c = .ok u c') : ∃ me, c.kernel.current = some me ∧
    (c.kernel.updateTask me ({ · with state := .exit })).Rescheduled c'.kernel := by
  simp only [exit, bind_eq_ok, currentTask_eq_ok, modifyKernel_eq_ok, task_eq_ok, note_eq_ok] at h
  obtain ⟨me, c₁, ⟨hme, rfl⟩, _, c₂, rfl, x, c₃, ⟨-, rfl⟩, _, c₄, rfl, h⟩ := h
  exact ⟨me, hme, schedule_ok h⟩

end Section

end Rtos
