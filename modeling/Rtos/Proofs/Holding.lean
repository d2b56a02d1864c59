import Rtos.Proofs.TaskStep
import Rtos.Proofs.WaitStep

/-!
# What an action does to semaphores and mutexes

A mutex is held by its owner, as deep as its locks go. Only a claim and an unlock change this, and
only a creation adds to the table of semaphores: `Action.objectStep` says so of all actions.
-/

namespace Rtos

def Action.unlocks {β : Type} : Action β → Option MutexId
  | unlock m => some m
  | _ => none

def Action.locker {β : Type} : Action β → Option TaskId
  | resumeLock _ l _ _ => some l
  | _ => none

/-- The semaphore that the section made, with its first count. -/
def Action.creates : {β : Type} → Action β → β → Option (SemId × UInt32)
  | _, addSemaphore _ n, some s => some (s, n)
  | _, _, _ => none

namespace Kernel

variable (k : Kernel)

/-- Who owns the mutex, and how many of the owner's locks have not been undone. -/
def hold (m : MutexId) : Option TaskId × UInt32 :=
  (k.mutexes[m.index]?.map fun x => (x.owner, x.depth)).getD (none, 0)

/-- Every mutex is held as before, and there are as many semaphores. -/
structure Alike (k' : Kernel) : Prop where
  holds : ∀ m, k'.hold m = k.hold m
  semaphores : k'.semaphores.length = k.semaphores.length

end Kernel

/-- What an action did to semaphores and mutexes. -/
inductive ObjectStep {β : Type} (a : Action β) (b : β) (k k' : Kernel) : Prop
  | alike (claims : ∀ m, a.claims b ≠ some (.mutex m)) (unlocks : a.unlocks = none)
      (creates : a.creates b = none) (alike : k.Alike k')
  | creates (s : SemId) (x : Semaphore) (claims : a.claims b = none) (unlocks : a.unlocks = none)
      (creates : a.creates b = some (s, x.count)) (new : s.index = k.semaphores.length)
      (semaphores : k'.semaphores = k.semaphores ++ [x]) (mutexes : k'.mutexes = k.mutexes)
  | locks (m : MutexId) (me : TaskId) (claims : a.claims b = some (.mutex m))
      (unlocks : a.unlocks = none) (creates : a.creates b = none)
      (who : k.current = some me ∨ a.locker = some me)
      (free : (k.hold m).2 = 0 ∨ (k.hold m).1 = some me) (room : (k.hold m).2 + 1 ≠ 0)
      (after : k'.hold m = (some me, (k.hold m).2 + 1))
      (others : ∀ m', m' ≠ m → k'.hold m' = k.hold m')
      (semaphores : k'.semaphores.length = k.semaphores.length)
  | unlocks (m : MutexId) (me : TaskId) (claims : a.claims b = none) (unlocks : a.unlocks = some m)
      (creates : a.creates b = none) (current : k.current = some me)
      (owner : (k.hold m).1 = some me) (held : (k.hold m).2 ≠ 0)
      (after : k'.hold m = (if (k.hold m).2 = 1 then none else some me, (k.hold m).2 - 1))
      (others : ∀ m', m' ≠ m → k'.hold m' = k.hold m')
      (semaphores : k'.semaphores.length = k.semaphores.length)

namespace Kernel

variable {k k₁ k' : Kernel} {w : Waitable} {m m' : MutexId}

theorem Alike.of_same (mutexes : k'.mutexes = k.mutexes)
    (semaphores : k'.semaphores = k.semaphores) : k.Alike k' :=
  ⟨fun m => by rw [hold, hold, mutexes], by rw [semaphores]⟩

theorem Alike.rfl : k.Alike k := .of_same (Eq.refl _) (Eq.refl _)

theorem Alike.trans (h₁ : k.Alike k₁) (h₂ : k₁.Alike k') : k.Alike k' :=
  ⟨fun m => (h₂.holds m).trans (h₁.holds m), h₂.semaphores.trans h₁.semaphores⟩

theorem Alike.after (h : k₁.Alike k') (mutexes : k₁.mutexes = k.mutexes)
    (semaphores : k₁.semaphores = k.semaphores) : k.Alike k' :=
  (Alike.of_same mutexes semaphores).trans h

theorem Rescheduled.alike (h : k.Rescheduled k') : k.Alike k' := by
  obtain ⟨next, stats, rfl⟩ := h
  exact .of_same (Eq.refl _) (Eq.refl _)

theorem hold_modify {f : Mutex → Mutex} :
    ({ k with mutexes := k.mutexes.modify m.index f }).hold m' =
      if m' = m then (k.mutexes[m.index]?.map fun x => ((f x).owner, (f x).depth)).getD (none, 0)
      else k.hold m' := by
  simp only [hold, List.getElem?_modify]
  by_cases h : m' = m
  · subst h
    cases k.mutexes[m'.index]? <;> simp
  · have hi : m.index ≠ m'.index := fun hi => h (by cases m; cases m'; simp_all)
    simp [h, hi]

theorem alike_withWaiters {l : WaitList} {tasks : List Task} :
    k.Alike (k.withWaiters w l tasks) := by
  cases w with
  | semaphore s => exact ⟨fun _ => Eq.refl _, List.length_modify ..⟩
  | mutex m =>
    refine ⟨fun m' => ?_, Eq.refl _⟩
    rw [withWaiters]
    refine (hold_modify (k := { k with tasks })).trans ?_
    split
    · next h =>
      subst h
      rfl
    · rfl

theorem alike_woken : k.Alike (k.woken w) := by
  unfold woken
  split
  · exact .rfl
  · exact alike_withWaiters

theorem alike_posted {s : SemId} : k.Alike (k.posted s) :=
  ⟨fun _ => Eq.refl _, List.length_modify ..⟩

theorem alike_addTask {name : String} {priority : UInt8} {sp : StackPointer} {stackBytes : Nat}
    {t : TaskId} (h : k.addTask name priority sp stackBytes = some (t, k')) : k.Alike k' := by
  obtain ⟨-, -, rfl⟩ := addTask_eq_some h
  exact .of_same (Eq.refl _) (Eq.refl _)

theorem alike_addQueue {name : String} {d : Discipline} {q : QueueId}
    (h : k.addQueue name d = some (q, k')) : k.Alike k' := by
  obtain ⟨-, -, rfl⟩ := addQueue_eq_some h
  exact .of_same (Eq.refl _) (Eq.refl _)

theorem alike_addPool {q : QueueId} {shape : PoolShape} {first : MessageId}
    (h : k.addPool q shape = some (first, k')) : k.Alike k' := by
  obtain ⟨-, -, rfl⟩ := addPool_eq_some h
  exact .of_same (Eq.refl _) (Eq.refl _)

theorem alike_addMutex {name : String} (h : k.addMutex name = some (m, k')) : k.Alike k' := by
  obtain ⟨-, -, rfl⟩ := addMutex_eq_some h
  refine ⟨fun m => ?_, Eq.refl _⟩
  simp only [hold, List.getElem?_append]
  split
  · rfl
  · next hm =>
    rw [List.getElem?_eq_none (Nat.not_lt.1 hm)]
    cases m.index - k.mutexes.length <;> rfl

theorem hold_of_found {x : Mutex} (h : k.mutexes[m.index]? = some x) :
    k.hold m = (x.owner, x.depth) := by
  simp [hold, h]

theorem depth_of_units (h : 0 < k.units (.mutex m)) :
    (∃ x, k.mutexes[m.index]? = some x) ∧ (k.hold m).2 = 0 := by
  cases hx : k.mutexes[m.index]? with
  | none => simp [units, hx] at h
  | some x =>
    have free : x.depth = 0 := by
      by_contra held
      simp [units, hx, held] at h
    exact ⟨⟨x, rfl⟩, by simp [hold, hx, free]⟩

end Kernel

namespace Tries

open Kernel

variable {r : Resource} {ticks : Int32} {resumed : Option TaskId} {k k' : Kernel} {v : Verdict}

/-- A try that does not claim a mutex changes nobody's hold. -/
theorem alike (h : Tries r ticks resumed k v k') (other : ∀ m l, r = .mutex m l → v ≠ .claimed) :
    k.Alike k' := by
  cases h with
  | sleepsOn => exact .rfl
  | timedOut => exact alike_withWaiters
  | deeper m me x _ what => exact (other m me what rfl).elim
  | claimed =>
    cases r with
    | semaphore s => exact ⟨fun _ => rfl, List.length_modify ..⟩
    | mutex m l => exact (other m l rfl rfl).elim
  | polled => exact .rfl
  | asleep _ _ _ _ _ _ _ _ after => exact alike_withWaiters.trans after.alike

/-- A claim of a mutex locks it, if it is free, or locks it once more. -/
theorem locks {m : MutexId} {l : TaskId} (h : Tries (.mutex m l) ticks resumed k .claimed k') :
    ((k.hold m).2 = 0 ∨ (k.hold m).1 = some l) ∧ (k.hold m).2 + 1 ≠ 0 ∧
      k'.hold m = (some l, (k.hold m).2 + 1) ∧ (∀ m', m' ≠ m → k'.hold m' = k.hold m') ∧
      k'.semaphores.length = k.semaphores.length := by
  cases h with
  | deeper m' me x _ what found owns bound =>
    cases what
    have hold := hold_of_found found
    refine ⟨.inr ?_, ?_, ?_, fun m' hm => ?_, rfl⟩
    · rw [hold, owns]
    · rw [hold]
      exact bound
    · rw [withDepth, hold_modify, if_pos rfl, found, hold]
      exact congrArg (·, x.depth + 1) owns
    · rw [withDepth, hold_modify, if_neg hm]
  | claimed _ free =>
    obtain ⟨⟨x, found⟩, depth⟩ := depth_of_units free
    refine ⟨.inl depth, by rw [depth]; decide, ?_, fun m' hm => ?_, rfl⟩
    · rw [Kernel.claimed, hold_modify, if_pos rfl, found, depth]
      rfl
    · rw [Kernel.claimed, hold_modify, if_neg hm]

end Tries

namespace ObjectStep

open Section Kernel

variable {c c' : Core}

theorem idle {β : Type} {a : Action β} {b : β} {k k' : Kernel} (tried : a.tried b = none)
    (unlocks : a.unlocks = none) (creates : a.creates b = none) (alike : k.Alike k') :
    ObjectStep a b k k' := by
  refine .alike (fun m claims => ?_) unlocks creates alike
  cases tried.symm.trans (Action.claims_eq_some.1 claims)

theorem of_tries {β : Type} {a : Action β} {b : β} {r : Resource} {ticks : Int32}
    {resumed : Option TaskId} {v : Verdict} {k k' : Kernel} (came : Tries r ticks resumed k v k')
    (tried : a.tried b = some (r.waitable, v)) (unlocks : a.unlocks = none)
    (creates : a.creates b = none)
    (who : ∀ m l, r = .mutex m l → k.current = some l ∨ a.locker = some l) :
    ObjectStep a b k k' := by
  by_cases claims : ∃ m l, r = .mutex m l ∧ v = .claimed
  · obtain ⟨m, l, rfl, rfl⟩ := claims
    obtain ⟨free, room, after, others, semaphores⟩ := came.locks
    exact .locks m l (Action.claims_eq_some.2 tried) unlocks creates (who m l rfl) free room after
      others semaphores
  · refine .alike (fun m hm => claims ?_) unlocks creates
      (came.alike fun m l hr hv => claims ⟨m, l, hr, hv⟩)
    have same := tried.symm.trans (Action.claims_eq_some.1 hm)
    cases r with
    | semaphore s => cases same
    | mutex m' l => exact ⟨m', l, rfl, (Prod.mk.inj (Option.some.inj same)).2⟩

theorem of_unlock {m : MutexId} {b : Unit} (h : unlock m c = .ok b c') :
    ObjectStep (.unlock m) b c.kernel c'.kernel := by
  obtain ⟨me, x, current, found, owner, held, after⟩ := unlock_ok h
  have hold := hold_of_found found
  refine .unlocks m me rfl rfl rfl current (by rw [hold, owner]) (by rwa [hold]) ?_ ?_ ?_
  · rcases after with ⟨one, after⟩ | ⟨more, after⟩
    · rw [after.alike.holds, alike_woken.holds, freed, hold_modify, if_pos rfl, found, hold,
        if_pos one, one, UInt32.sub_self]
      rfl
    · rw [after, withDepth, hold_modify, if_pos rfl, found, hold, if_neg more]
      exact congrArg (·, x.depth - 1) owner
  · rcases after with ⟨one, after⟩ | ⟨more, after⟩ <;> intro m' hm
    · rw [after.alike.holds, alike_woken.holds, freed, hold_modify, if_neg hm]
    · rw [after, withDepth, hold_modify, if_neg hm]
  · rcases after with ⟨one, after⟩ | ⟨more, after⟩
    · rw [after.alike.semaphores, alike_woken.semaphores]
      rfl
    · rw [after]
      rfl

theorem of_enqueue {q : QueueId} {m : Message} {b : Option (PutRoutine × UInt64)}
    (h : enqueue q m c = .ok b c') : ObjectStep (.enqueue q m) b c.kernel c'.kernel := by
  refine .idle rfl rfl rfl ?_
  obtain ⟨slot, queue, -, -, -, -, ⟨s, x, -, -, -, -, after⟩ | ⟨d, -, -, after⟩⟩ := enqueue_ok h
  · exact (alike_posted.trans (alike_woken.trans after.alike)).after rfl rfl
  · exact after ▸ .of_same rfl rfl

end ObjectStep

open Section in
theorem Section.dequeue_alike {c c' : Core} {q : QueueId} {b : Option Message}
    (h : dequeue q c = .ok b c') : c.kernel.Alike c'.kernel := by
  obtain ⟨queue, -, ⟨-, -, rfl⟩ | ⟨id, queue', slots, slot, payload, -, -, -, -, same⟩⟩ :=
    dequeue_ok h
  · exact .rfl
  · exact same ▸ .of_same rfl rfl

open Section Kernel in
theorem Action.objectStep {β : Type} {a : Action β} {b : β} {c c' : Core}
    (h : a.toSection c = .ok b c') : ObjectStep a b c.kernel c'.kernel := by
  cases a with
  | read f =>
    obtain ⟨-, rfl⟩ := reading_eq_ok.1 h
    exact .idle rfl rfl rfl .rfl
  | schedule => exact .idle rfl rfl rfl (schedule_ok h).alike
  | tick =>
    exact .idle rfl rfl rfl ((schedule_ok (tick_ok h)).alike.after rfl rfl)
  | switch sp =>
    rcases switch_ok h with ⟨-, -, rfl⟩ | ⟨target, took⟩
    · exact .idle rfl rfl rfl .rfl
    · exact .idle rfl rfl rfl (.of_same took.mutexes took.semaphores)
  | startWith idle =>
    obtain ⟨_, -, -, kernel⟩ := startWith_ok h
    exact .idle rfl rfl rfl (kernel ▸ .of_same rfl rfl)
  | delay ticks =>
    rcases delay_ok h with ⟨-, rfl⟩ | ⟨-, me, -, after⟩
    · exact .idle rfl rfl rfl .rfl
    · exact .idle rfl rfl rfl (after.alike.after rfl rfl)
  | wake t =>
    obtain ⟨x, -, ⟨-, after⟩ | ⟨-, rfl⟩⟩ := wake_ok h
    · exact .idle rfl rfl rfl ((schedule_ok after).alike.after rfl rfl)
    · exact .idle rfl rfl rfl .rfl
  | exit =>
    obtain ⟨me, -, after⟩ := exit_ok h
    exact .idle rfl rfl rfl (after.alike.after rfl rfl)
  | setLocalWord n value =>
    obtain ⟨me, -, kernel⟩ := setLocalWord_ok h
    exact .idle rfl rfl rfl (kernel ▸ .of_same rfl rfl)
  | resetTimes =>
    simp only [toSection, Section.resetTimes, modifyKernel_eq_ok] at h
    subst h
    exact .idle rfl rfl rfl (.of_same rfl rfl)
  | addTask name priority sp stackBytes =>
    refine .idle rfl rfl rfl ?_
    rcases adding_ok h with ⟨-, rfl⟩ | ⟨t, -, hk⟩
    · exact .rfl
    · exact alike_addTask hk
  | addSemaphore name n =>
    rcases adding_ok h with ⟨rfl, rfl⟩ | ⟨s, rfl, hk⟩
    · exact .idle rfl rfl rfl .rfl
    · obtain ⟨-, rfl, kernel⟩ := addSemaphore_eq_some hk
      exact .creates _ { name, count := n } rfl rfl rfl rfl (by rw [kernel]) (by rw [kernel])
  | addMutex name =>
    refine .idle rfl rfl rfl ?_
    rcases adding_ok h with ⟨-, rfl⟩ | ⟨m, -, hk⟩
    · exact .rfl
    · exact alike_addMutex hk
  | addQueue name d =>
    refine .idle rfl rfl rfl ?_
    rcases adding_ok h with ⟨-, rfl⟩ | ⟨q, -, hk⟩
    · exact .rfl
    · exact alike_addQueue hk
  | addPool q shape =>
    refine .idle rfl rfl rfl ?_
    rcases adding_ok h with ⟨-, rfl⟩ | ⟨first, -, hk⟩
    · exact .rfl
    · exact alike_addPool hk
  | post s =>
    obtain ⟨x, -, -, after⟩ := post_ok h
    exact .idle rfl rfl rfl (alike_posted.trans (alike_woken.trans after.alike))
  | beginWait s ticks => exact .of_tries (beginWait_ok h) rfl rfl rfl (by rintro _ _ ⟨⟩)
  | resumeWait s ticks t => exact .of_tries (resumeWait_ok h) rfl rfl rfl (by rintro _ _ ⟨⟩)
  | beginLock m ticks =>
    obtain ⟨me, v⟩ := b
    obtain ⟨current, came⟩ := beginLock_ok h
    exact .of_tries came rfl rfl rfl (by rintro _ _ ⟨⟩; exact .inl current)
  | resumeLock m l ticks t =>
    exact .of_tries (resumeLock_ok h) rfl rfl rfl (by rintro _ _ ⟨⟩; exact .inr rfl)
  | unlock m => exact .of_unlock h
  | enqueue q m => exact .of_enqueue h
  | dequeue q => exact .idle rfl rfl rfl (dequeue_alike h)
  | pollDriver q =>
    refine .idle rfl rfl rfl ?_
    obtain ⟨queue, -, ⟨-, same, -⟩ | ⟨d, m, c₁, -, -, -, took, same⟩⟩ := pollDriver_ok h
    · exact same ▸ .rfl
    · exact same ▸ (dequeue_alike took).after rfl rfl
  | setRoutines q put control data =>
    refine .idle rfl rfl rfl ?_
    rcases setRoutines_ok h with same | ⟨queue, d, -, -, same⟩
    · exact same ▸ .rfl
    · exact same ▸ .of_same rfl rfl

end Rtos
