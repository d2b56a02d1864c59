import Rtos.Proofs.TaskStep

/-!
# Elections request a switch

A section that elects another task than before requests a switch, as long as it does not start the
scheduler. Requests are never taken back.
-/

namespace Rtos

/-- Whoever is elected now was elected before, or a switch was requested. -/
structure Core.Asks (c c' : Core) : Prop where
  grows : c.requests ≤ c'.requests
  elects : c.requests < c'.requests ∨ ∀ t, c'.kernel.next = some t → c.kernel.next = some t

namespace Core.Asks

variable {c c₁ c' : Core}

theorem of_same (requests : c'.requests = c.requests) (next : c'.kernel.next = c.kernel.next) :
    c.Asks c' := ⟨Nat.le_of_eq requests.symm, .inr fun _ h => next ▸ h⟩

theorem trans (h₁ : c.Asks c₁) (h₂ : c₁.Asks c') : c.Asks c' where
  grows := Nat.le_trans h₁.grows h₂.grows
  elects := by
    rcases h₁.elects with more | same
    · exact .inl (Nat.lt_of_lt_of_le more h₂.grows)
    · rcases h₂.elects with more | same'
      · exact .inl (Nat.lt_of_le_of_lt h₁.grows more)
      · exact .inr fun t ht => same t (same' t ht)

end Core.Asks

namespace Section

variable {α β : Type}

/-- The section asks for a switch if it elects another task. -/
def Asks (x : Section α) : Prop := ∀ c a c', x c = .ok a c' → c.Asks c'

namespace Asks

theorem bind {x : Section α} {f : α → Section β} (hx : Asks x) (hf : ∀ a, Asks (f a)) :
    Asks (x >>= f) := by
  intro c b c' h
  obtain ⟨a, c₁, h₁, h₂⟩ := bind_eq_ok.1 h
  exact (hx c a c₁ h₁).trans (hf a c₁ b c' h₂)

theorem pure (a : α) : Asks (pure a : Section α) := by
  intro c b c' h
  obtain ⟨-, rfl⟩ := pure_eq_ok.1 h
  exact .of_same rfl rfl

theorem throw (e : Fault) : Asks (throw e : Section α) := fun _ _ _ h => (throw_eq_ok.1 h).elim

theorem reading (f : Kernel → Except Fault α) : Asks (reading f) := by
  intro c a c' h
  obtain ⟨-, rfl⟩ := reading_eq_ok.1 h
  exact .of_same rfl rfl

theorem kernel : Asks kernel := by
  intro c k c' h
  obtain ⟨-, rfl⟩ := kernel_eq_ok.1 h
  exact .of_same rfl rfl

theorem note (n : Note) : Asks (note n) := by
  intro c u c' h
  obtain rfl := note_eq_ok.1 h
  exact .of_same rfl rfl

theorem increment (n : UInt32) : Asks (increment n) := by
  intro c m c' h
  obtain ⟨-, -, rfl⟩ := increment_eq_ok.1 h
  exact .of_same rfl rfl

theorem decrement (n : UInt32) : Asks (decrement n) := by
  intro c m c' h
  obtain ⟨-, -, rfl⟩ := decrement_eq_ok.1 h
  exact .of_same rfl rfl

theorem modifyKernel {f : Kernel → Kernel} (hf : ∀ k, (f k).next = k.next) :
    Asks (modifyKernel f) := by
  intro c u c' h
  obtain rfl := modifyKernel_eq_ok.1 h
  exact .of_same rfl (hf _)

theorem updateTask (t : TaskId) (f : Task → Task) : Asks (Section.modifyKernel (·.updateTask t f)) :=
  .modifyKernel fun _ => rfl

theorem setSemaphore (s : SemId) (x : Semaphore) : Asks (setSemaphore s x) :=
  .modifyKernel fun _ => rfl

theorem setMutex (m : MutexId) (x : Mutex) : Asks (setMutex m x) := .modifyKernel fun _ => rfl

theorem setQueue (q : QueueId) (x : Queue) : Asks (setQueue q x) := .modifyKernel fun _ => rfl

theorem setSlot (id : MessageId) (x : Slot) : Asks (setSlot id x) := .modifyKernel fun _ => rfl

theorem setSlots (slots : List Slot) : Asks (Section.modifyKernel ({ · with slots })) :=
  .modifyKernel fun _ => rfl

theorem schedule : Asks schedule := by
  intro c u c' h
  cases schedule_decision h with
  | nobody stats _ kernel requests => exact .of_same requests (by rw [kernel])
  | stays t stats _ _ kernel requests =>
    refine ⟨Nat.le_of_eq requests.symm, .inr ?_⟩
    rw [kernel]
    rintro _ ⟨⟩
  | elects t stats _ _ kernel requests =>
    have more : c.requests < c'.requests := requests ▸ Nat.lt_succ_self _
    exact ⟨Nat.le_of_lt more, .inl more⟩

theorem switch (sp : StackPointer) : Asks (switch sp) := by
  have clears {k : Kernel} : Asks (setKernel { k with next := none }) := by
    intro c u c' h
    obtain rfl := setKernel_eq_ok.1 h
    exact ⟨Nat.le_refl _, .inr (by rintro _ ⟨⟩)⟩
  have now : Asks now := by
    intro c n c' h
    obtain ⟨-, rfl⟩ := now_eq_ok.1 h
    exact .of_same rfl rfl
  refine .bind .kernel fun k => ?_
  split
  · exact .pure _
  have resume (target : TaskId) (start : UInt32) : Asks do
      Section.modifyKernel (·.updateTask target ({ · with start }))
      let resumed := (← task target).stackPointer
      Section.modifyKernel fun k => { k with current := some target, stats := k.stats.addSwitch }
      return resumed :=
    .bind (.updateTask _ _) fun _ => .bind (.reading _) fun _ =>
      .bind (.modifyKernel fun _ => rfl) fun _ => .pure _
  refine .bind clears fun _ => .bind now fun t => .bind (.reading _) fun _ => ?_
  split
  · exact resume _ t
  · exact .bind (.updateTask _ _) fun _ => .bind (.reading _) fun _ => .bind (.note _) fun _ => resume _ t

theorem tick : Asks tick := .bind (.modifyKernel fun _ => rfl) fun _ => schedule

theorem delay (ticks : Int32) : Asks (delay ticks) := by
  unfold Section.delay
  split
  · exact .bind (.reading _) fun _ => .bind (.updateTask _ _) fun _ => schedule
  · exact .pure _

theorem wake (t : TaskId) : Asks (wake t) := by
  refine .bind (.reading _) fun x => ?_
  split
  · exact .bind (.updateTask _ _) fun _ => schedule
  · exact .pure _

theorem exit : Asks exit :=
  .bind (.reading _) fun _ => .bind (.updateTask _ _) fun _ => .bind (.reading _) fun _ =>
    .bind (.note _) fun _ => schedule

theorem setLocalWord (n : Nat) (value : UInt64) : Asks (setLocalWord n value) := by
  refine .bind (.reading _) fun me => ?_
  split
  · exact .updateTask _ _
  · exact .throw _

theorem adding {f : Kernel → Option (α × Kernel)}
    (hf : ∀ (k : Kernel) a k', f k = some (a, k') → k'.next = k.next) : Asks (adding f) := by
  intro c a c' h
  simp only [Section.adding, bind_eq_ok, kernel_eq_ok] at h
  obtain ⟨k, c₁, ⟨rfl, rfl⟩, h⟩ := h
  cases hk : f c.kernel with
  | none =>
    simp only [hk, pure_eq_ok] at h
    exact h.2 ▸ .of_same rfl rfl
  | some x =>
    simp only [hk, bind_eq_ok, setKernel_eq_ok, pure_eq_ok] at h
    obtain ⟨_, _, rfl, -, rfl⟩ := h
    exact .of_same rfl (hf _ _ _ hk)

theorem waiters (r : Resource) : Asks (waiters r) := by
  cases r <;> exact .bind (.reading _) fun _ => .pure _

theorem setWaiters (r : Resource) (w : WaitList) (tasks : List Task) :
    Asks (setWaiters r w tasks) := by
  refine .bind (.modifyKernel fun _ => rfl) fun _ => ?_
  cases r with
  | semaphore s => exact .bind (.reading _) fun _ => .setSemaphore _ _
  | mutex m => exact .bind (.reading _) fun _ => .setMutex _ _

theorem wakeFirst (r : Resource) : Asks (wakeFirst r) := by
  refine .bind (.waiters r) fun w => .bind .kernel fun k => ?_
  split
  · exact .pure _
  · exact .bind (.setWaiters r _ _) fun _ => schedule

theorem claim (r : Resource) : Asks (claim r) := by
  cases r with
  | semaphore s => exact .bind (.reading _) fun _ => .bind (.decrement _) fun _ => .setSemaphore _ _
  | mutex m locker =>
    refine .bind (.reading _) fun x => ?_
    split
    · exact .setMutex _ _
    · exact .throw _

theorem attempt (r : Resource) (ticks : Int32) (status : TaskStatus) :
    Asks (attempt r ticks status) := by
  have available : Asks (isAvailable r) := by
    cases r <;> exact .bind (.reading _) fun _ => .pure _
  have remove (t : TaskId) : Asks (removeWaiter r t) :=
    .bind (.waiters r) fun _ => .bind .kernel fun _ => .setWaiters r _ _
  have add (t : TaskId) : Asks (addWaiter r t ticks) := by
    refine .bind (.waiters r) fun w => .bind .kernel fun k => ?_
    dsimp only
    split
    · exact .throw _
    · exact .setWaiters r _ _
  refine .bind available fun free => ?_
  split
  · exact .bind (.reading _) fun _ => .bind (remove _) fun _ => .pure _
  split
  · exact .bind (.claim r) fun _ => .pure _
  split
  · exact .pure _
  · exact .bind (.reading _) fun _ => .bind (add _) fun _ => .bind schedule fun _ => .pure _

theorem reattempt (r : Resource) (ticks : Int32) (t : TaskId) : Asks (reattempt r ticks t) := by
  refine .bind (.reading _) fun x => ?_
  split
  · exact .pure _
  · exact .attempt r ticks _

theorem post (s : SemId) : Asks (post s) :=
  .bind (.reading _) fun _ => .bind (.increment _) fun _ => .bind (.setSemaphore _ _) fun _ =>
    .bind (.note _) fun _ => .wakeFirst _

theorem noteWaitEnd (s : SemId) (v : Verdict) : Asks (noteWaitEnd s v) := by
  cases v with
  | asleep t => exact .pure _
  | _ => exact .bind (.reading _) fun _ => .note _

theorem beginWait (s : SemId) (ticks : Int32) : Asks (beginWait s ticks) :=
  .bind (.reading _) fun _ => .bind (.note _) fun _ => .bind (.attempt _ _ _) fun v =>
    .bind (.noteWaitEnd s v) fun _ => .pure _

theorem resumeWait (s : SemId) (ticks : Int32) (t : TaskId) : Asks (resumeWait s ticks t) :=
  .bind (.reattempt _ _ _) fun v => .bind (.noteWaitEnd s v) fun _ => .pure _

theorem beginLock (m : MutexId) (ticks : Int32) : Asks (beginLock m ticks) := by
  refine .bind (.reading _) fun me => .bind (.reading _) fun x => ?_
  split
  · exact .bind (.increment _) fun _ => .bind (.setMutex _ _) fun _ => .pure _
  · exact .bind (.attempt _ _ _) fun _ => .pure _

theorem unlock (m : MutexId) : Asks (unlock m) := by
  refine .bind (.reading _) fun me => .bind (.reading _) fun x => ?_
  split
  · exact .throw _
  split
  · exact .throw _
  split
  · exact .bind (.setMutex _ _) fun _ => .wakeFirst _
  · exact .setMutex _ _

theorem enqueue (q : QueueId) (m : Message) : Asks (enqueue q m) := by
  refine .bind (.reading _) fun slot => ?_
  split
  · exact .throw _
  split
  · exact .throw _
  refine .bind (.setSlot _ _) fun _ => .bind (.reading _) fun queue => .bind .kernel fun k =>
    .bind (.setSlots _) fun _ => .bind (.setQueue _ _) fun _ => ?_
  split
  · exact .bind (.post _) fun _ => .pure _
  · exact .bind (.increment _) fun _ => .bind (.setQueue _ _) fun _ => .bind (.note _) fun _ => .pure _

theorem dequeue (q : QueueId) : Asks (dequeue q) := by
  refine .bind (.reading _) fun queue => .bind .kernel fun k => ?_
  split
  · exact .pure _
  refine .bind (.setSlots _) fun _ => .bind (.setQueue _ _) fun _ => .bind (.reading _) fun slot =>
    .bind (.setSlot _ _) fun _ => ?_
  split
  · exact .throw _
  · exact .pure _

theorem pollDriver (q : QueueId) : Asks (pollDriver q) := by
  refine .bind (.reading _) fun queue => ?_
  split
  · exact .pure _
  split
  · exact .bind (.note _) fun _ => .pure _
  refine .bind (.setQueue _ _) fun _ => .bind (.dequeue q) fun m => ?_
  split
  · exact .throw _
  · exact .bind (.note _) fun _ => .pure _

theorem setRoutines (q : QueueId) (put : Option PutRoutine) (control : Option ControlRoutine)
    (data : UInt64) : Asks (setRoutines q put control data) := by
  refine .bind (.reading _) fun queue => ?_
  split
  · exact .pure _
  · exact .bind (.setQueue _ _) fun _ => .pure _

end Asks

end Section

open Section in
/-- Every section but the start of the scheduler asks for a switch if it elects another task. -/
theorem Action.asks {β : Type} {a : Action β} {b : β} {c c' : Core}
    (result : a.toSection c = .ok b c') (starts : a.starts = false) : c.Asks c' := by
  have added {α : Type} {f : Kernel → Option (α × Kernel)} {b : Option α}
      (h : Section.adding f c = .ok b c')
      (hf : ∀ (k : Kernel) a k', f k = some (a, k') → k'.next = k.next) : c.Asks c' :=
    Asks.adding hf c b c' h
  cases a with
  | read f => exact Asks.reading f c b c' result
  | schedule => exact Asks.schedule c b c' result
  | tick => exact Asks.tick c b c' result
  | switch sp => exact Asks.switch sp c b c' result
  | startWith => cases starts
  | delay ticks => exact Asks.delay ticks c b c' result
  | wake t => exact Asks.wake t c b c' result
  | exit => exact Asks.exit c b c' result
  | setLocalWord n value => exact Asks.setLocalWord n value c b c' result
  | resetTimes => exact (Asks.modifyKernel fun _ => rfl : Asks Section.resetTimes) c b c' result
  | addTask name priority sp stackBytes =>
    refine added result fun k t k' h => ?_
    rw [(Kernel.addTask_eq_some h).2.2]
  | addSemaphore name count =>
    refine added result fun k s k' h => ?_
    rw [(Kernel.addSemaphore_eq_some h).2.2]
  | addMutex name =>
    refine added result fun k m k' h => ?_
    rw [(Kernel.addMutex_eq_some h).2.2]
  | addQueue name d =>
    refine added result fun k q k' h => ?_
    rw [(Kernel.addQueue_eq_some h).2.2]
  | addPool q shape =>
    refine added result fun k first k' h => ?_
    rw [(Kernel.addPool_eq_some h).2.2]
  | post s => exact Asks.post s c b c' result
  | beginWait s ticks => exact Asks.beginWait s ticks c b c' result
  | resumeWait s ticks t => exact Asks.resumeWait s ticks t c b c' result
  | beginLock m ticks => exact Asks.beginLock m ticks c b c' result
  | resumeLock m l ticks t => exact Asks.reattempt (.mutex m l) ticks t c b c' result
  | unlock m => exact Asks.unlock m c b c' result
  | enqueue q m => exact Asks.enqueue q m c b c' result
  | dequeue q => exact Asks.dequeue q c b c' result
  | pollDriver q => exact Asks.pollDriver q c b c' result
  | setRoutines q put control data => exact Asks.setRoutines q put control data c b c' result

open Section in
theorem Action.requests_le {β : Type} {a : Action β} {b : β} {c c' : Core}
    (result : a.toSection c = .ok b c') : c.requests ≤ c'.requests := by
  by_cases starts : a.starts
  · cases a with
    | startWith idle =>
      have result : Section.startWith idle c = .ok b c' := result
      simp only [Section.startWith, bind_eq_ok, modifyKernel_eq_ok, task_eq_ok,
        pure_eq_ok] at result
      obtain ⟨_, c₁, rfl, x, c₂, ⟨-, rfl⟩, -, rfl⟩ := result
      exact Nat.le_refl _
    | _ => cases starts
  · exact (Action.asks result (Bool.eq_false_iff.2 starts)).grows

end Rtos
