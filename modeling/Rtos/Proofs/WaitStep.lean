import Rtos.Proofs.Moving
import Rtos.Proofs.Waiting

/-!
# What an action does to the waiting

There are only six things that an action can do to the tasks and the lists of waiters: nothing but
what time does, putting the current task to sleep, ending it, trying for an object, and adding a
unit to one. `Action.waitStep` says so of all actions, so what is proved about waiting is proved
about these.
-/

namespace Rtos

namespace Action

variable {β : Type}

def tries : Action β → Option Waitable
  | beginWait s _ | resumeWait s _ _ => some (.semaphore s)
  | beginLock m _ | resumeLock m _ _ _ => some (.mutex m)
  | _ => none

/-- What the section tried to claim, and what came of it. -/
def tried : {β : Type} → Action β → β → Option (Waitable × Verdict)
  | _, beginWait s _, v | _, resumeWait s _ _, v => some (.semaphore s, v)
  | _, beginLock m _, (_, v) => some (.mutex m, v)
  | _, resumeLock m _ _ _, v => some (.mutex m, v)
  | _, _, _ => none

theorem tries_of_tried {a : Action β} {b : β} {w : Waitable} {v : Verdict}
    (h : a.tried b = some (w, v)) : a.tries = some w := by
  cases a <;> simp_all [tried, tries]

def resumes : Action β → Option (Waitable × TaskId)
  | resumeWait s _ t => some (.semaphore s, t)
  | resumeLock m _ _ t => some (.mutex m, t)
  | _ => none

theorem resumes_of_tried {a : Action β} {b : β} (h : a.tried b = none) : a.resumes = none := by
  cases a <;> first | rfl | exact nomatch h

/-- Whether the section may take the processor from the current task. -/
def suspends : Action β → Prop
  | exit | resumeWait .. | resumeLock .. => True
  | delay ticks | beginWait _ ticks | beginLock _ ticks => ticks ≠ 0
  | _ => False

theorem suspends_of_resumes {a : Action β} {x : Waitable × TaskId} (h : a.resumes = some x) :
    a.suspends := by
  cases a <;> trivial

def exits : Action β → Bool
  | exit => true
  | _ => false

theorem suspends_of_exits {a : Action β} (h : a.exits) : a.suspends := by
  cases a <;> trivial

def claims (a : Action β) (b : β) : Option Waitable :=
  match a.tried b with
  | some (w, .claimed) => some w
  | _ => none

theorem claims_eq_some {a : Action β} {b : β} {w : Waitable} :
    a.claims b = some w ↔ a.tried b = some (w, .claimed) := by
  unfold claims
  split <;> simp_all

/-- The object that gets a unit: a semaphore that is posted, directly or by a put, or a mutex whose
owner undoes its last lock. -/
def releases (k : Kernel) : Action β → Option Waitable
  | post s => some (.semaphore s)
  | unlock m =>
    if (k.mutexes[m.index]?.map Mutex.depth) = some 1 then some (.mutex m) else none
  | enqueue q _ =>
    match k.queueSemaphore q with
    | .ok (some s) => some (.semaphore s)
    | _ => none
  | _ => none

theorem releases_of_resumes {a : Action β} {x : Waitable × TaskId} {k : Kernel}
    (h : a.resumes = some x) : a.releases k = none := by
  cases a <;> first | rfl | exact nomatch h

end Action

structure Kernel.Frees (k : Kernel) (w : Waitable) (k' : Kernel) : Prop where
  lists : ∀ w', k'.waitersOf w' = k.waitersOf w'
  tasks : k'.tasks = k.tasks
  current : k'.current = k.current
  has : ∀ w', k'.Has w' ↔ k.Has w'
  found : k.Has w
  units : ∀ w', k'.units w' = k.units w' + if w' = w then 1 else 0

/-- What an action did to the waiting. -/
inductive WaitStep {β : Type} (a : Action β) (b : β) (k k' : Kernel) : Prop
  | calm (tried : a.tried b = none) (stays : a.exits = false) (releases : a.releases k = none)
      (after : k.Calm k')
  | delays (me : TaskId) (ticks : Int32) (tried : a.tried b = none) (stays : a.exits = false)
      (releases : a.releases k = none) (suspends : a.suspends) (current : k.current = some me)
      (after : (k.updateTask me (Task.block ticks)).Rescheduled k')
  | exits (me : TaskId) (tried : a.tried b = none) (exits : a.exits = true)
      (releases : a.releases k = none) (suspends : a.suspends) (current : k.current = some me)
      (after : (k.updateTask me ({ · with state := .exit })).Rescheduled k')
  | tries (r : Resource) (ticks : Int32) (resumed : Option TaskId) (v : Verdict)
      (tried : a.tried b = some (r.waitable, v)) (stays : a.exits = false)
      (releases : a.releases k = none) (resumes : a.resumes = resumed.map (r.waitable, ·))
      (suspends : ticks ≠ 0 ∨ resumed ≠ none → a.suspends) (came : Tries r ticks resumed k v k')
  | releases (w : Waitable) (k₁ : Kernel) (tried : a.tried b = none) (stays : a.exits = false)
      (releases : a.releases k = some w) (frees : k.Frees w k₁)
      (after : (k₁.woken w).Rescheduled k')

namespace Kernel

variable {k k' : Kernel}

theorem Frees.posted {s : SemId} {x : Semaphore} (hx : k.semaphores[s.index]? = some x)
    (bound : x.count + 1 ≠ 0) : k.Frees (.semaphore s) (k.posted s) where
  lists w := waitersOf_modifySemaphore fun _ => rfl
  tasks := rfl
  current := rfl
  has w := has_modifySemaphore
  found := (List.getElem?_eq_some_iff.1 hx).1
  units w := by
    have hn := UInt32.toNat_add_one bound
    rw [Kernel.posted, units_modifySemaphore hx]
    split
    · next h =>
      subst h
      simp [Kernel.units, hx, hn]
    · rfl

theorem Frees.freed {m : MutexId} {x : Mutex} (hx : k.mutexes[m.index]? = some x)
    (held : x.depth ≠ 0) : k.Frees (.mutex m) (k.freed m) where
  lists w := waitersOf_modifyMutex fun _ => rfl
  tasks := rfl
  current := rfl
  has w := has_modifyMutex
  found := (List.getElem?_eq_some_iff.1 hx).1
  units w := by
    rw [Kernel.freed, units_modifyMutex hx]
    split
    · next h =>
      subst h
      simp [Kernel.units, hx, held]
    · rfl

theorem Frees.of_same {k₁ : Kernel} {w : Waitable} (h : k₁.Frees w k')
    (hs : k₁.semaphores = k.semaphores) (hm : k₁.mutexes = k.mutexes)
    (hc : k₁.current = k.current) (ht : k₁.tasks = k.tasks) : k.Frees w k' := by
  have calm : k.Calm k₁ := .of_same hs hm hc ht
  have back : k₁.Calm k := .of_same hs.symm hm.symm hc.symm ht.symm
  have has (w' : Waitable) : k₁.Has w' ↔ k.Has w' := ⟨back.has w', calm.has w'⟩
  refine ⟨fun w' => (h.lists w').trans (calm.lists w'), h.tasks.trans ht, h.current.trans hc,
    fun w' => (h.has w').trans (has w'), (has w).1 h.found, fun w' => ?_⟩
  rw [h.units]
  cases w' <;> simp only [Kernel.units, hs, hm]

theorem calm_addQueue {name : String} {d : Discipline} {q : QueueId}
    (h : k.addQueue name d = some (q, k')) : k.Calm k' := by
  obtain ⟨-, -, rfl⟩ := addQueue_eq_some h
  exact .of_same rfl rfl rfl rfl

theorem calm_addPool {q : QueueId} {shape : PoolShape} {first : MessageId}
    (h : k.addPool q shape = some (first, k')) : k.Calm k' := by
  obtain ⟨-, -, rfl⟩ := addPool_eq_some h
  exact .of_same rfl rfl rfl rfl

end Kernel

namespace Section

variable {c c' : Core} {q : QueueId}

theorem dequeue_calm {b : Option Message} (h : dequeue q c = .ok b c') :
    c.kernel.Calm c'.kernel := by
  obtain ⟨queue, -, ⟨-, -, rfl⟩ | ⟨id, queue', slots, slot, payload, -, -, -, -, hk⟩⟩ := dequeue_ok h
  · exact .rfl
  · rw [hk]
    exact .of_same rfl rfl rfl rfl

theorem pollDriver_calm {b : Option Message} (h : pollDriver q c = .ok b c') :
    c.kernel.Calm c'.kernel := by
  obtain ⟨queue, -, ⟨-, hk, -⟩ | ⟨d, m, c₁, -, -, -, hd, hk⟩⟩ := pollDriver_ok h
  · rw [hk]
    exact .rfl
  · rw [hk]
    apply Kernel.Calm.trans _ (dequeue_calm hd)
    exact .of_same rfl rfl rfl rfl

theorem setRoutines_calm {put : Option PutRoutine} {control : Option ControlRoutine}
    {data : UInt64} {b : Except Error Unit} (h : setRoutines q put control data c = .ok b c') :
    c.kernel.Calm c'.kernel := by
  rcases setRoutines_ok h with hk | ⟨queue, d, -, -, hk⟩
  · rw [hk]
    exact .rfl
  · rw [hk]
    exact .of_same rfl rfl rfl rfl

theorem adding_calm {α : Type} {f : Kernel → Option (α × Kernel)} {b : Option α}
    (hf : ∀ (k : Kernel) a k', f k = some (a, k') → k.Calm k') (h : adding f c = .ok b c') :
    c.kernel.Calm c'.kernel := by
  rcases adding_ok h with ⟨-, rfl⟩ | ⟨a, -, hk⟩
  · exact .rfl
  · exact hf _ a _ hk

end Section

theorem Kernel.queueSemaphore_eq {k : Kernel} {q : QueueId} {queue : Queue}
    (hq : k.queues[q.index]? = some queue) : k.queueSemaphore q =
      .ok (match queue.discipline with | .task s => some s | .driver _ => none) := by
  have hq : k.queue q = .ok queue := Section.entry_eq_ok.2 hq
  simp only [queueSemaphore, hq, bind, Except.bind]
  cases queue.discipline <;> rfl

namespace WaitStep

open Section

variable {c c' : Core}

theorem of_unlock {m : MutexId} {b : Unit} (h : unlock m c = .ok b c') :
    WaitStep (.unlock m) b c.kernel c'.kernel := by
  obtain ⟨me, x, -, hx, -, held, ⟨h1, after⟩ | ⟨h1, after⟩⟩ := unlock_ok h
  · apply WaitStep.releases (.mutex m) (c.kernel.freed m) rfl rfl _ (.freed hx held) after
    simp [Action.releases, hx, h1]
  · have left : x.depth - 1 ≠ 0 := by
      intro h0
      apply h1
      have := congrArg (· + 1) h0
      simpa using this
    apply WaitStep.calm rfl rfl _ (after ▸ (Kernel.quiet_withDepth hx held left).calm)
    simp [Action.releases, hx, h1]

theorem of_enqueue {q : QueueId} {m : Message} {b : Option (PutRoutine × UInt64)}
    (h : enqueue q m c = .ok b c') : WaitStep (.enqueue q m) b c.kernel c'.kernel := by
  obtain ⟨slot, queue, -, -, -, hq, ⟨s, x, hd, -, hx, hn, after⟩ | ⟨d, hd, -, after⟩⟩ := enqueue_ok h
  · refine .releases (.semaphore s) _ rfl rfl ?_
      ((Kernel.Frees.posted hx hn).of_same rfl rfl rfl rfl) after
    simp only [Action.releases, Kernel.queueSemaphore_eq hq, hd]
  · apply WaitStep.calm rfl rfl _ (after ▸ .of_same rfl rfl rfl rfl)
    simp only [Action.releases, Kernel.queueSemaphore_eq hq, hd]

end WaitStep

open Section in
theorem Action.waitStep {β : Type} {a : Action β} {b : β} {c c' : Core}
    (h : a.toSection c = .ok b c') : WaitStep a b c.kernel c'.kernel := by
  cases a with
  | read f => exact .calm rfl rfl rfl (Quiets.reading f c b c' h).calm
  | schedule => exact .calm rfl rfl rfl (Quiets.schedule c b c' h).calm
  | tick => exact .calm rfl rfl rfl (Quiets.tick c b c' h).calm
  | switch sp => exact .calm rfl rfl rfl (Quiets.switch sp c b c' h).calm
  | startWith idle => exact .calm rfl rfl rfl (Quiets.startWith idle c b c' h).calm
  | delay ticks =>
    rcases delay_ok h with ⟨-, rfl⟩ | ⟨ht, me, current, after⟩
    · exact .calm rfl rfl rfl .rfl
    · exact .delays me ticks rfl rfl rfl ht current after
  | wake t => exact .calm rfl rfl rfl (Quiets.wake t c b c' h).calm
  | exit =>
    obtain ⟨me, current, after⟩ := exit_ok h
    exact .exits me rfl rfl rfl trivial current after
  | setLocalWord n value => exact .calm rfl rfl rfl (Quiets.setLocalWord n value c b c' h).calm
  | resetTimes => exact .calm rfl rfl rfl (Quiets.resetTimes c b c' h).calm
  | addTask name priority sp stackBytes =>
    exact .calm rfl rfl rfl (Quiets.adding (fun _ _ _ => Kernel.quiet_addTask) c b c' h).calm
  | addSemaphore name count =>
    exact .calm rfl rfl rfl (Quiets.adding (fun _ _ _ => Kernel.quiet_addSemaphore) c b c' h).calm
  | addMutex name =>
    exact .calm rfl rfl rfl (Quiets.adding (fun _ _ _ => Kernel.quiet_addMutex) c b c' h).calm
  | addQueue name d =>
    exact .calm rfl rfl rfl (adding_calm (fun _ _ _ => Kernel.calm_addQueue) h)
  | addPool q shape =>
    exact .calm rfl rfl rfl (adding_calm (fun _ _ _ => Kernel.calm_addPool) h)
  | post s =>
    obtain ⟨x, hx, hn, after⟩ := post_ok h
    exact .releases _ _ rfl rfl rfl (.posted hx hn) after
  | beginWait s ticks =>
    exact .tries (.semaphore s) ticks none b rfl rfl rfl rfl (·.resolve_right (· rfl))
      (beginWait_ok h)
  | resumeWait s ticks t =>
    exact .tries (.semaphore s) ticks (some t) b rfl rfl rfl rfl (fun _ => trivial)
      (resumeWait_ok h)
  | beginLock m ticks =>
    obtain ⟨me, v⟩ := b
    exact .tries (.mutex m me) ticks none v rfl rfl rfl rfl (·.resolve_right (· rfl))
      (beginLock_ok h).2
  | resumeLock m l ticks t =>
    exact .tries (.mutex m l) ticks (some t) b rfl rfl rfl rfl (fun _ => trivial)
      (resumeLock_ok h)
  | unlock m => exact .of_unlock h
  | enqueue q m => exact .of_enqueue h
  | dequeue q => exact .calm rfl rfl rfl (dequeue_calm h)
  | pollDriver q => exact .calm rfl rfl rfl (pollDriver_calm h)
  | setRoutines q put control data => exact .calm rfl rfl rfl (setRoutines_calm h)

namespace Kernel

variable {k k' : Kernel} {w : Waitable}

theorem Rescheduled.units (h : k.Rescheduled k') : k'.units w = k.units w := by
  obtain ⟨next, stats, rfl⟩ := h
  cases w <;> rfl

theorem units_claimed {r : Resource} (free : 0 < k.units r.waitable) :
    (k.claimed r).units w + (if r.waitable = w then 1 else 0) = k.units w := by
  cases r with
  | semaphore s =>
    cases hx : k.semaphores[s.index]? with
    | none => simp [Kernel.units, Resource.waitable, hx] at free
    | some x =>
      rw [Kernel.claimed, units_modifySemaphore hx]
      simp only [Kernel.units, Resource.waitable, hx, Option.map_some, Option.getD_some] at free
      have hn := UInt32.toNat_sub_one (UInt32.toNat_inj.ne.1 (Nat.ne_of_gt free))
      by_cases h : w = .semaphore s
      · subst h
        simp only [Resource.waitable, ↓reduceIte, Kernel.units, hx, Option.map_some,
          Option.getD_some]
        omega
      · simp [Resource.waitable, h, Ne.symm h]
  | mutex m l =>
    cases hx : k.mutexes[m.index]? with
    | none => simp [Kernel.units, Resource.waitable, hx] at free
    | some x =>
      rw [Kernel.claimed, units_modifyMutex hx]
      simp only [Kernel.units, Resource.waitable, hx, Option.map_some, Option.getD_some] at free
      by_cases h : w = .mutex m
      · subst h
        simp only [Resource.waitable, ↓reduceIte, Kernel.units, hx, Option.map_some,
          Option.getD_some]
        split at free <;> simp_all
      · simp [Resource.waitable, h, Ne.symm h]

end Kernel

theorem WaitStep.has {β : Type} {a : Action β} {b : β} {k k' : Kernel} {w : Waitable}
    (h : WaitStep a b k k') (hw : k.Has w) : k'.Has w := by
  have rescheduled {k₁ : Kernel} (hk : k₁.Rescheduled k') (hw : k₁.Has w) : k'.Has w := by
    obtain ⟨next, stats, rfl⟩ := hk
    cases w <;> exact hw
  cases h with
  | calm _ _ _ after => exact after.has w hw
  | delays me ticks _ _ _ _ _ after => exact rescheduled after (by cases w <;> exact hw)
  | exits me _ _ _ _ _ after => exact rescheduled after (by cases w <;> exact hw)
  | tries r ticks resumed v _ _ _ _ _ came =>
    cases came with
    | sleepsOn => exact hw
    | timedOut => exact Kernel.has_withWaiters.2 hw
    | deeper => exact Kernel.has_modifyMutex.2 hw
    | claimed =>
      cases r with
      | semaphore s => exact Kernel.has_modifySemaphore.2 hw
      | mutex m l => exact Kernel.has_modifyMutex.2 hw
    | polled => exact hw
    | asleep _ _ _ _ _ _ _ _ after => exact rescheduled after (Kernel.has_withWaiters.2 hw)
  | releases w' k₁ _ _ _ frees after =>
    exact rescheduled after (Kernel.has_woken.2 ((frees.has w).2 hw))

/-- The units of an object are accounted for: one less for each claim, one more for each release. Only
an owner that locks its mutex once more claims what nobody can. -/
theorem WaitStep.units {β : Type} {a : Action β} {b : β} {k k' : Kernel} {w : Waitable}
    (h : WaitStep a b k k') (hw : k.Has w) :
    k'.units w + (if a.claims b = some w then 1 else 0) =
        k.units w + (if a.releases k = some w then 1 else 0) ∨
      (∃ m, w = .mutex m) ∧ k'.units w = 0 := by
  cases h with
  | calm tried _ releases after => simp [Action.claims, tried, releases, after.units w hw]
  | delays me ticks tried _ releases _ _ after =>
    rw [after.units]
    cases w <;> simp [Action.claims, tried, releases, Kernel.updateTask, Kernel.units]
  | exits me tried _ releases _ _ after =>
    rw [after.units]
    cases w <;> simp [Action.claims, tried, releases, Kernel.updateTask, Kernel.units]
  | tries r ticks resumed v tried _ releases _ _ came =>
    rw [releases]
    cases came with
    | sleepsOn => simp [Action.claims, tried]
    | timedOut =>
      rw [Kernel.unlisted, Kernel.units_withWaiters]
      simp [Action.claims, tried]
    | deeper m me x _ what found _ bound =>
      subst what
      rw [Kernel.withDepth, Kernel.units_modifyMutex found]
      by_cases hm : w = .mutex m
      · exact .inr ⟨⟨m, hm⟩, by simp [hm, bound]⟩
      · simp [Action.claims, tried, Resource.waitable, hm, Ne.symm hm]
    | claimed _ free =>
      have units := Kernel.units_claimed (w := w) free
      simpa [Action.claims, tried] using .inl units
    | polled => simp [Action.claims, tried]
    | asleep me _ _ _ _ _ _ _ after =>
      rw [after.units, Kernel.enlisted, Kernel.units_withWaiters]
      simp [Action.claims, tried]
  | releases w' k₁ tried _ releases frees after =>
    rw [after.units, Kernel.units_woken, frees.units]
    simp [Action.claims, tried, releases, eq_comm]

end Rtos
