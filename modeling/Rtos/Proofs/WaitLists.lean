import Rtos.Proofs.Breach
import Rtos.Proofs.Coherence
import Rtos.Proofs.Script

/-!
# Lists of waiters in every run

What holds of the lists of waiters and of the tasks on them whatever tasks, handlers and the port
do, as one structure, `System.Orderly`. The lists are chains that end, so whoever goes through one
comes to its end, and nobody is queued twice.
-/

namespace Rtos

namespace Kernel

variable {k k' : Kernel} {w : Waitable} {t me : TaskId} {ticks : Int32} {status : TaskStatus}

theorem ended_of_enlisted (waits : ticks ≠ 0)
    (h : (k.enlisted w me ticks).standing t = some (.exit, status)) :
    k.standing t = some (.exit, status) := by
  rw [standing, enlisted, tasks_withWaiters, WaitList.add] at h
  simp only [waits, ↓reduceIte] at h
  split at h <;> rw [TaskTable.standing_update] at h <;> split at h
  · rw [Option.map_map, Option.map_eq_some_iff] at h
    obtain ⟨x, -, hx⟩ := h
    simp [Task.block] at hx
  · rw [TaskTable.standing_update_same] at h
    · exact h
    · intro _
      exact ⟨rfl, rfl⟩
  · rw [Option.map_map, Option.map_eq_some_iff] at h
    obtain ⟨x, -, hx⟩ := h
    simp [Task.block] at hx
  · exact h

end Kernel

theorem WaitStep.ended {β : Type} {a : Action β} {b : β} {k k' : Kernel} {t : TaskId}
    {status : TaskStatus} (h : WaitStep a b k k') (order : k.WaitsInOrder)
    (ended : k'.standing t = some (.exit, status)) :
    k.standing t = some (.exit, status) ∨
      a.exits ∧ k.current = some t ∧ k.status t = some status := by
  have rescheduled {k₁ : Kernel} (hk : k₁.Rescheduled k') : k₁.standing t = k'.standing t := by
    obtain ⟨next, stats, rfl⟩ := hk
    rfl
  cases h with
  | calm _ _ _ after =>
    have drift := after.standing t
    rw [ended] at drift
    generalize k.standing t = x at drift
    cases drift with
    | same => exact .inl rfl
  | delays me ticks _ _ _ _ _ after =>
    rw [← rescheduled after, Kernel.standing_updateTask] at ended
    split at ended
    · rw [Option.map_map, Option.map_eq_some_iff] at ended
      obtain ⟨x, -, hx⟩ := ended
      cases (Prod.mk.inj hx).1
    · exact .inl ended
  | exits me _ exits _ _ current after =>
    rw [← rescheduled after, Kernel.standing_updateTask] at ended
    split at ended
    · next ht =>
      rw [Option.map_map, Option.map_eq_some_iff] at ended
      obtain ⟨x, found, hx⟩ := ended
      refine .inr ⟨exits, ht ▸ current, ?_⟩
      rw [Kernel.status, Kernel.standing, TaskTable.standing, ht, found]
      exact congrArg some (Prod.mk.inj hx).2
    · exact .inl ended
  | tries r ticks resumed v _ _ _ _ _ came =>
    refine .inl ?_
    cases came with
    | sleepsOn => exact ended
    | timedOut => rwa [Kernel.standing_unlisted] at ended
    | deeper => exact ended
    | claimed => cases r <;> exact ended
    | polled => exact ended
    | asleep me _ _ _ waits _ _ _ after =>
      rw [← rescheduled after] at ended
      exact Kernel.ended_of_enlisted waits ended
  | releases w k₁ _ _ _ frees after =>
    refine .inl ?_
    have stands : k₁.standing t = k.standing t := by
      rw [Kernel.standing, Kernel.standing, frees.tasks]
    obtain ⟨order, -⟩ := order.congr frees.lists (fun t => by rw [frees.tasks])
      (Nat.le_of_eq (by rw [frees.tasks]))
    rw [← rescheduled after] at ended
    cases (order.woken ((frees.has w).2 frees.found)).2 with
    | nobody same _ => rwa [same, stands] at ended
    | first u rest status' _ _ _ woken =>
      rw [woken] at ended
      split at ended
      · cases ended
      · rwa [stands] at ended

def Record.Ends (p : Record) (t : TaskId) (status : TaskStatus) : Prop :=
  p.outcome.action.exits ∧ p.kernel.current = some t ∧ p.kernel.status t = some status

/-- A task that has ended did so itself, and keeps the wake-up that it had at that time. -/
theorem Reachable.ended {s : System} (h : Reachable s) {t : TaskId} {status : TaskStatus}
    (ended : s.core.kernel.standing t = some (.exit, status)) : ∃ p ∈ s.log, p.Ends t status := by
  induction h with
  | boot clock => exact nomatch ended
  | step hr hs ih =>
    cases hs with
    | begin => exact ih ended
    | reply c c' later earlier held lost log who call r next ph b may answer =>
      rw [answer.kernel_eq] at ended
      exact ih ended
    | act c c' later earlier held lost log who call a next ph b may result =>
      rcases (Action.waitStep result).ended hr.coheres.order ended with before | ends
      · obtain ⟨p, hp, ends⟩ := ih before
        exact ⟨p, List.mem_cons_of_mem _ hp, ends⟩
      · exact ⟨_, List.mem_cons_self, ends⟩
    | unroll => exact ih ended
    | finish => exact ih ended
    | switch s c sp resumed result =>
      rcases (Action.waitStep (a := .switch sp) result).ended hr.coheres.order ended with
        before | ⟨exits, -⟩
      · obtain ⟨p, hp, ends⟩ := ih before
        exact ⟨p, List.mem_cons_of_mem _ hp, ends⟩
      · exact nomatch exits
    | write => exact ih ended
    | drop => exact ih ended
    | elapse => exact ih ended

/-- The lists of waiters and the tasks on them are in order. -/
structure System.Orderly (s : System) : Prop where
  /-- The links of a list lead through its members and end. -/
  linked : ∀ w, Linked (TaskTable.nextWaiter s.core.kernel.tasks) none
    (s.core.kernel.waitersOf w).first (s.core.kernel.waiting w)
  last : ∀ w, (s.core.kernel.waitersOf w).last = (s.core.kernel.waiting w).getLast?
  nodup : ∀ w, (s.core.kernel.waiting w).Nodup
  apart : ∀ w w' t, t ∈ s.core.kernel.waiting w → t ∈ s.core.kernel.waiting w' → w = w'
  loose : ∀ t, (∀ w, t ∉ s.core.kernel.waiting w) →
    TaskTable.nextWaiter s.core.kernel.tasks t = none
  invalid_iff : ∀ t state status, s.core.kernel.standing t = some (state, status) →
    state ≠ .exit → (status = .invalid ↔ state = .sleep)
  /-- A task on a list is inside a call that waits for that object. -/
  inside : ∀ w t, t ∈ s.core.kernel.waiting w → ∃ o ∈ s.calls, o.caller = .thread (some t) ∧
    o.call.Awaits s.core.kernel w ∧ o.phase.blocked = some (w, t)
  /-- It is blocked on nothing else. -/
  only : ∀ w t, t ∈ s.core.kernel.waiting w →
    ∀ o ∈ s.calls, ∀ w', o.phase.blocked = some (w', t) → w' = w
  listed : ∀ w t, t ∈ s.core.kernel.waiting w →
    s.core.kernel.standing t = some (.sleep, .invalid) ∨
      s.core.kernel.standing t = some (.run, .timeout)
  /-- A task that is inside a wait and on no list any more was woken by a post or an unlock. -/
  roused : ∀ o ∈ s.calls, ∀ w t, o.phase.blocked = some (w, t) →
    (∀ w', t ∉ s.core.kernel.waiting w') → s.core.kernel.standing t = some (.run, .ok)
  ended : ∀ t status, s.core.kernel.standing t = some (.exit, status) →
    (∀ w, t ∉ s.core.kernel.waiting w) ∧ ∃ p ∈ s.log, p.Ends t status

theorem System.InContract.awaits {s : System} (h : s.InContract) {o : OpenCall} (ho : o ∈ s.calls)
    {w : Waitable} {t : TaskId} (blocked : o.phase.blocked = some (w, t)) :
    o.caller = .thread (some t) ∧ o.call.Awaits s.core.kernel w := by
  refine ⟨(h.sound o ho).sleeper w t blocked, (h.sound o ho).awaits w (.asleep t) ?_⟩
  unfold Phase.blocked at blocked
  split at blocked
  · next tried =>
    cases blocked
    exact tried
  · exact nomatch blocked

theorem System.InContract.not_alreadyWaiting {s : System} (contract : s.InContract)
    (coheres : s.Coheres) : ¬ s.Faults .alreadyWaiting := by
  rintro ⟨o, faults⟩
  rcases faults.breaches contract trivial with ⟨he, -⟩ |
    ⟨later, earlier, β, a, calls, may, permits, breaches⟩
  · exact nomatch he
  cases breaches with
  | vacant q _ vacant =>
    obtain ⟨_, _, _, _, _, _, _, _, _, he⟩ := vacant
    exact nomatch he
  | tries r ticks resumed _ _ resumes suspends breaks =>
    obtain ⟨status, unsound, back⟩ := breaks
    cases unsound with
    | alreadyWaiting me inTime waits current listed =>
      obtain ⟨x, hx, blocked⟩ := coheres.inside _ me listed
      have own := permits.own (suspends waits)
      rw [current] at own
      -- The call in which the task waits is the one that is about to try.
      rw [calls] at hx
      rcases mem_middle.1 hx with hx | rfl
      · obtain ⟨c, _, held, lost, log⟩ := s
        obtain rfl : _ = later ++ o :: earlier := calls
        exact contract.other_thread may ⟨x, hx, blocked⟩ own
      · have slept := resumes.symm.trans (permits.resumes.trans blocked)
        rw [Option.map_eq_some_iff] at slept
        obtain ⟨t, rfl, he⟩ := slept
        obtain ⟨found, valid⟩ := back t rfl
        rw [(Prod.mk.inj he).2, Kernel.status] at found
        rcases coheres.listed _ me listed with hs | hs <;> rw [hs] at found <;> cases found
        · exact valid rfl
        · exact inTime rfl

/-- In every run the lists of waiters are in order, and no task is ever queued a second time. -/
theorem Reachable.orderly {s : System} (h : Reachable s) : s.Orderly ∧ ¬ s.Faults .alreadyWaiting := by
  have coheres := h.coheres
  have contract := h.inContract
  refine ⟨?_, contract.not_alreadyWaiting coheres⟩
  constructor
  case linked => exact fun w => (coheres.order.holds w).strung.linked
  case last => exact fun w => (coheres.order.holds w).strung.last_eq
  case nodup => exact fun w => (coheres.order.holds w).strung.nodup
  case apart => exact coheres.order.apart
  case loose => exact coheres.order.loose
  case invalid_iff =>
    intro t state status stands alive
    cases state with
    | exit => exact (alive rfl).elim
    | run => exact ⟨fun h => (coheres.running t status stands h).elim, fun h => nomatch h⟩
    | sleep => exact ⟨fun _ => rfl, fun _ => coheres.asleep t status stands⟩
  case inside =>
    intro w t listed
    obtain ⟨o, ho, blocked⟩ := coheres.inside w t listed
    obtain ⟨caller, awaits⟩ := contract.awaits ho blocked
    exact ⟨o, ho, caller, awaits, blocked⟩
  case only =>
    intro w t listed o ho w' blocked
    obtain ⟨x, hx, blocked'⟩ := coheres.inside w t listed
    exact contract.blocked_unique ho hx blocked blocked'
  case listed => exact coheres.listed
  case roused =>
    intro o ho w t blocked unlisted
    exact coheres.roused w t ⟨o, ho, blocked⟩ (unlisted w)
  case ended =>
    intro t status stands
    refine ⟨fun w listed => ?_, h.ended stands⟩
    rcases coheres.listed w t listed with hs | hs
    · exact nomatch hs.symm.trans stands
    · exact nomatch hs.symm.trans stands

/-- Two tasks wait in line, one of them although its time is over. -/
theorem orderly_twoWaiters :
    (System.run Script.twoWaiters).core.kernel.waiting (.semaphore ⟨0⟩) = [⟨0⟩, ⟨1⟩] ∧
      (System.run Script.twoWaiters).core.kernel.standing ⟨0⟩ = some (.run, .timeout) ∧
      (System.run Script.twoWaiters).Orderly ∧
      ¬ (System.run Script.twoWaiters).Faults .alreadyWaiting :=
  ⟨by decide +kernel, by decide +kernel, (System.reachable_run Script.twoWaiters).orderly⟩

/-- A task that ends itself while it sleeps has an invalid wake-up without being asleep. -/
theorem not_invalid_iff_asleep : ¬ ∀ s, Reachable s → ∀ t state status,
    s.core.kernel.standing t = some (state, status) → (status = .invalid ↔ state = .sleep) := by
  intro h
  have ended : (System.run Script.endsAsleep).core.kernel.standing ⟨0⟩ = some (.exit, .invalid) := by
    decide
  exact nomatch (h _ (System.reachable_run Script.endsAsleep) ⟨0⟩ .exit .invalid ended).1 rfl

end Rtos
