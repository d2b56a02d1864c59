import Rtos.Proofs.Run

/-!
# Lists of waiters and the standing of tasks

`Coheres` ties the lists of waiters to the standing of the tasks and to the calls that are blocked:
a task on a list is inside a wait for that object, asleep or out of time, and one that waits and is on
no list was woken by a post or an unlock. Each thing that an action can do to the waiting keeps it.
-/

namespace Rtos

/-- `Waits` says who is inside a wait for which object, and `Gone` who has ended. -/
structure Kernel.Coheres (k : Kernel) (Waits : Waitable → TaskId → Prop) (Gone : TaskId → Prop) :
    Prop where
  order : k.WaitsInOrder
  current : ∀ t, k.current = some t → t.index < k.tasks.length
  asleep : ∀ t status, k.standing t = some (.sleep, status) → status = .invalid
  running : ∀ t status, k.standing t = some (.run, status) → status ≠ .invalid
  gone : ∀ t status, k.standing t = some (.exit, status) → Gone t
  inside : ∀ w t, t ∈ k.waiting w → Waits w t
  listed : ∀ w t, t ∈ k.waiting w →
    k.standing t = some (.sleep, .invalid) ∨ k.standing t = some (.run, .timeout)
  roused : ∀ w t, Waits w t → t ∉ k.waiting w → k.standing t = some (.run, .ok)

/-- A section goes on with the wait `blocked` of the current task, or with none. If it `suspends` the
current task, then that one waits for nothing else. -/
structure Kernel.TakesUp (k : Kernel) (Waits : Waitable → TaskId → Prop) (suspends : Prop)
    (blocked : Option (Waitable × TaskId)) : Prop where
  waits : ∀ w t, blocked = some (w, t) → Waits w t ∧ k.current = some t
  own : suspends → ∀ w t, k.current = some t → Waits w t → blocked = some (w, t)

namespace Kernel

variable {k k' : Kernel} {W W' : Waitable → TaskId → Prop} {G G' : TaskId → Prop} {w : Waitable}
  {t me : TaskId} {ticks : Int32}

theorem waitersOf_claimed {r : Resource} : (k.claimed r).waitersOf w = k.waitersOf w := by
  cases r with
  | semaphore s => exact waitersOf_modifySemaphore fun _ => rfl
  | mutex m l => exact waitersOf_modifyMutex fun _ => rfl

theorem has_of_mem (h : t ∈ k.waiting w) : k.Has w := by
  cases w with
  | semaphore s =>
    by_contra hs
    rw [Has, Nat.not_lt, ← List.getElem?_eq_none_iff] at hs
    simp [waiting, waitersOf, hs, WaitList.toList] at h
  | mutex m =>
    by_contra hm
    rw [Has, Nat.not_lt, ← List.getElem?_eq_none_iff] at hm
    simp [waiting, waitersOf, hm, WaitList.toList] at h

theorem standing_updateTask {f : Task → Task} : (k.updateTask me f).standing t =
    if t = me then (k.tasks[me.index]?.map f).map fun x => (x.state, x.status)
    else k.standing t := TaskTable.standing_update

theorem WaitsInOrder.updateTask (h : k.WaitsInOrder) {f : Task → Task}
    (link : ∀ x, (f x).nextWaiter = x.nextWaiter) :
    (k.updateTask me f).WaitsInOrder ∧ ∀ w, (k.updateTask me f).waiting w = k.waiting w := by
  refine h.congr (fun w => by cases w <;> rfl) (fun t => ?_)
    (Nat.le_of_eq TaskTable.length_update.symm)
  rw [TaskTable.nextWaiter, TaskTable.nextWaiter, Kernel.updateTask, TaskTable.getElem?_update]
  split
  · cases k.tasks[t.index]? <;> simp [link]
  · rfl

namespace TakesUp

variable {p q : Prop} {blocked : Option (Waitable × TaskId)}

theorem nothing : k.TakesUp W False none := ⟨fun _ _ h => (nomatch h), False.elim⟩

theorem mono (up : k.TakesUp W p blocked) (h : q → p) : k.TakesUp W q blocked :=
  ⟨up.waits, fun hq => up.own (h hq)⟩

theorem others {w' : Waitable} {u : TaskId} (up : k.TakesUp W p blocked)
    (unique : ∀ w w' t, W w t → W w' t → w = w') (hb : blocked = some (w, t)) :
    W w' u ∧ blocked ≠ some (w', u) ↔ W w' u ∧ u ≠ t := by
  apply and_congr_right
  intro hW
  apply not_congr
  rw [hb]
  constructor
  · intro he
    exact (Prod.mk.inj (Option.some.inj he)).2.symm
  · rintro rfl
    rw [unique w w' u (up.waits w u hb).1 hW]

end TakesUp

namespace Coheres

theorem rescheduled (h : k.Coheres W G) (hk : k.Rescheduled k') : k'.Coheres W G := by
  obtain ⟨next, stats, rfl⟩ := hk
  exact ⟨⟨h.order.holds, h.order.apart, h.order.loose⟩, h.current, h.asleep, h.running, h.gone,
    h.inside, h.listed, h.roused⟩

theorem calm (h : k.Coheres W G) (hk : k.Calm k') : k'.Coheres W G := by
  obtain ⟨order, lists⟩ := h.order.calm hk
  have stands (t : TaskId) {x : TaskState × TaskStatus} (hx : k'.standing t = some x) :
      k.standing t = some x ∨ x = (.run, .timeout) ∨ x = (.run, .ok) := by
    have drift := hk.standing t
    rw [hx] at drift
    generalize k.standing t = y at drift
    cases drift with
    | same => exact .inl rfl
    | roused => exact .inr (.inl rfl)
    | created => exact .inr (.inr rfl)
  refine ⟨order, fun t ht => ?_, fun t status ht => ?_, fun t status ht => ?_, fun t status ht => ?_,
    fun w t ht => ?_, fun w t ht => ?_, fun w t hw ht => ?_⟩
  · rcases hk.current t ht with ht | ht
    · exact Nat.lt_of_lt_of_le (h.current t ht) hk.size
    · exact ht
  · rcases stands t ht with ht | ht | ht
    · exact h.asleep t status ht
    · exact nomatch ht
    · exact nomatch ht
  · rcases stands t ht with ht | ht | ht
    · exact h.running t status ht
    · cases ht
      intro h
      exact nomatch h
    · cases ht
      intro h
      exact nomatch h
  · rcases stands t ht with ht | ht | ht
    · exact h.gone t status ht
    · exact nomatch ht
    · exact nomatch ht
  · exact h.inside w t (lists w ▸ ht)
  · have drift := hk.standing t
    rcases h.listed w t (lists w ▸ ht) with hs | hs <;> rw [hs] at drift
    · generalize k'.standing t = y at drift
      cases drift with
      | same => exact .inl rfl
      | roused => exact .inr rfl
    · generalize k'.standing t = y at drift
      cases drift with
      | same => exact .inr rfl
  · have drift := hk.standing t
    rw [h.roused w t hw (lists w ▸ ht)] at drift
    generalize k'.standing t = y at drift
    cases drift with
    | same => rfl

theorem alter (h : k.Coheres W G) {f : Task → Task} (link : ∀ x, (f x).nextWaiter = x.nextWaiter)
    (free : ∀ w, ¬ W w me) (more : ∀ t, G t → G' t)
    (mine : ∀ x, ((f x).state = .sleep → (f x).status = .invalid) ∧
      ((f x).state = .run → (f x).status ≠ .invalid) ∧ ((f x).state = .exit → G' me)) :
    (k.updateTask me f).Coheres W G' := by
  have order : (k.updateTask me f).WaitsInOrder ∧
      ∀ w, (k.updateTask me f).waiting w = k.waiting w := h.order.updateTask link
  obtain ⟨order, lists⟩ := order
  have others {t : TaskId} (ht : t ≠ me) : (k.updateTask me f).standing t = k.standing t := by
    rw [standing_updateTask, if_neg ht]
  have own {state : TaskState} {status : TaskStatus}
      (ht : (k.updateTask me f).standing me = some (state, status)) :
      ∃ x, (f x).state = state ∧ (f x).status = status := by
    rw [standing_updateTask, if_pos rfl, Option.map_map, Option.map_eq_some_iff] at ht
    obtain ⟨x, -, hx⟩ := ht
    exact ⟨x, Prod.mk.inj hx⟩
  have other {w : Waitable} {t : TaskId} (hw : W w t) : t ≠ me := fun ht => free w (ht ▸ hw)
  have size : (k.updateTask me f).tasks.length = k.tasks.length := TaskTable.length_update
  refine ⟨order, fun t ht => size ▸ h.current t ht, fun t status ht => ?_, fun t status ht => ?_,
    fun t status ht => ?_, fun w t ht => h.inside w t (lists w ▸ ht), fun w t ht => ?_,
    fun w t hw ht => ?_⟩
  · by_cases he : t = me
    · obtain ⟨x, hs, rfl⟩ := own (he ▸ ht)
      exact (mine x).1 hs
    · exact h.asleep t status (others he ▸ ht)
  · by_cases he : t = me
    · obtain ⟨x, hs, rfl⟩ := own (he ▸ ht)
      exact (mine x).2.1 hs
    · exact h.running t status (others he ▸ ht)
  · by_cases he : t = me
    · obtain ⟨x, hs, -⟩ := own (he ▸ ht)
      exact he ▸ (mine x).2.2 hs
    · exact more t (h.gone t status (others he ▸ ht))
  · rw [lists] at ht
    rw [others (other (h.inside w t ht))]
    exact h.listed w t ht
  · rw [others (other hw)]
    exact h.roused w t hw (lists w ▸ ht)

theorem delays (h : k.Coheres W G) (free : ∀ w, ¬ W w me) :
    (k.updateTask me (Task.block ticks)).Coheres W G :=
  h.alter (fun _ => rfl) free (fun _ => id)
    fun _ => ⟨fun _ => rfl, fun h => (nomatch h), fun h => nomatch h⟩

theorem exits (h : k.Coheres W G) (free : ∀ w, ¬ W w me) (more : ∀ t, G t → G' t) (mine : G' me) :
    (k.updateTask me ({ · with state := .exit })).Coheres W G' :=
  h.alter (fun _ => rfl) free more fun _ => ⟨fun h => (nomatch h), fun h => (nomatch h), fun _ => mine⟩

theorem enlisted (h : k.Coheres W G) (hw : k.Has w) (current : k.current = some me)
    (waits : ticks ≠ 0) (absent : ∀ w', me ∉ k.waiting w')
    (after : ∀ w' t, W' w' t ↔ W w' t ∧ t ≠ me ∨ w' = w ∧ t = me) :
    (k.enlisted w me ticks).Coheres W' G := by
  obtain ⟨order, lists, stands⟩ := h.order.enlisted hw absent (h.current me current) waits
  have member {w' : Waitable} {t : TaskId} (ht : t ∈ (k.enlisted w me ticks).waiting w') :
      w' = w ∧ t = me ∨ t ≠ me ∧ t ∈ k.waiting w' := by
    have hne {w' : Waitable} (ht : t ∈ k.waiting w') : t ≠ me := fun he => absent w' (he ▸ ht)
    rw [lists] at ht
    split at ht
    · next he =>
      rcases List.mem_append.1 ht with ht | ht
      · exact .inr ⟨hne ht, he ▸ ht⟩
      · exact .inl ⟨he, List.mem_singleton.1 ht⟩
    · exact .inr ⟨hne ht, ht⟩
  refine ⟨order, fun t ht => ?_, fun t status ht => ?_, fun t status ht => ?_, fun t status ht => ?_,
    fun w' t ht => ?_, fun w' t ht => ?_, fun w' t hW ht => ?_⟩
  · rw [length_enlisted]
    exact h.current t (by rwa [Kernel.enlisted, current_withWaiters] at ht)
  · rw [stands] at ht
    split at ht
    · cases ht
      rfl
    · exact h.asleep t status ht
  · rw [stands] at ht
    split at ht
    · cases ht
    · exact h.running t status ht
  · rw [stands] at ht
    split at ht
    · cases ht
    · exact h.gone t status ht
  · rw [after]
    exact (member ht).symm.imp_left fun ht => ⟨h.inside w' t ht.2, ht.1⟩
  · rcases member ht with ⟨-, rfl⟩ | ⟨hne, ht⟩
    · exact .inl (by rw [stands, if_pos rfl])
    · rw [stands, if_neg hne]
      exact h.listed w' t ht
  · rw [lists] at ht
    rcases (after w' t).1 hW with ⟨hW, hne⟩ | ⟨rfl, rfl⟩
    · rw [stands, if_neg hne]
      refine h.roused w' t hW fun hm => ht ?_
      split
      · next he => exact List.mem_append_left _ (he ▸ hm)
      · exact hm
    · simp at ht

theorem unlisted (h : k.Coheres W G) (listed : t ∈ k.waiting w)
    (after : ∀ w' u, W' w' u ↔ W w' u ∧ u ≠ t) : (k.unlisted w t).Coheres W' G := by
  obtain ⟨order, lists, stands⟩ := h.order.unlisted (has_of_mem listed) listed
  have member {w' : Waitable} {u : TaskId} :
      u ∈ (k.unlisted w t).waiting w' ↔ u ∈ k.waiting w' ∧ u ≠ t := by
    rw [lists]
    split
    · next he =>
      rw [he, (h.order.holds w).strung.nodup.mem_erase_iff, and_comm]
    · next he =>
      refine ⟨fun hu => ⟨hu, fun hut => he ?_⟩, And.left⟩
      exact h.order.apart w' w t (hut ▸ hu) listed
  refine ⟨order, fun u hu => ?_, fun u status hu => h.asleep u status (stands u ▸ hu),
    fun u status hu => h.running u status (stands u ▸ hu),
    fun u status hu => h.gone u status (stands u ▸ hu), fun w' u hu => ?_, fun w' u hu => ?_,
    fun w' u hW hu => ?_⟩
  · rw [length_unlisted]
    exact h.current u (by rwa [Kernel.unlisted, current_withWaiters] at hu)
  · obtain ⟨hu, hne⟩ := member.1 hu
    exact (after w' u).2 ⟨h.inside w' u hu, hne⟩
  · rw [stands]
    exact h.listed w' u (member.1 hu).1
  · obtain ⟨hW, hne⟩ := (after w' u).1 hW
    rw [stands]
    exact h.roused w' u hW fun hm => hu (member.2 ⟨hm, hne⟩)

theorem leaves (h : k.Coheres W G) (absent : ∀ w, t ∉ k.waiting w)
    (after : ∀ w u, W' w u ↔ W w u ∧ u ≠ t) : k.Coheres W' G := by
  refine ⟨h.order, h.current, h.asleep, h.running, h.gone, fun w u hu => ?_, h.listed,
    fun w u hW hu => h.roused w u ((after w u).1 hW).1 hu⟩
  exact (after w u).2 ⟨h.inside w u hu, fun hut => absent w (hut ▸ hu)⟩

theorem woken (h : k.Coheres W G) (hw : k.Has w) : (k.woken w).Coheres W G := by
  obtain ⟨order, wakes⟩ := h.order.woken hw
  cases wakes with
  | nobody same =>
    rw [same]
    exact h
  | first t rest status asleep list lists stands =>
    have ht : t ∈ k.waiting w := list ▸ List.mem_cons_self
    have nodup := List.nodup_cons.1 (list ▸ (h.order.holds w).strung.nodup)
    have member {w' : Waitable} {u : TaskId} :
        u ∈ (k.woken w).waiting w' ↔ u ∈ k.waiting w' ∧ u ≠ t := by
      rw [lists]
      split
      · next he =>
        rw [he, list, List.mem_cons]
        constructor
        · intro hu
          exact ⟨.inr hu, fun hut => nodup.1 (hut ▸ hu)⟩
        · exact fun ⟨hu, hne⟩ => hu.resolve_left hne
      · next he =>
        refine ⟨fun hu => ⟨hu, fun hut => he ?_⟩, And.left⟩
        exact h.order.apart w' w t (hut ▸ hu) ht
    refine ⟨order, fun u hu => ?_, fun u status hu => ?_, fun u status hu => ?_,
      fun u status hu => ?_, fun w' u hu => h.inside w' u (member.1 hu).1, fun w' u hu => ?_,
      fun w' u hW hu => ?_⟩
    · rw [length_woken]
      exact h.current u (by rwa [current_woken] at hu)
    · rw [stands] at hu
      split at hu
      · exact nomatch hu
      · exact h.asleep u status hu
    · rw [stands] at hu
      split at hu
      · cases hu
        intro h
        exact nomatch h
      · exact h.running u status hu
    · rw [stands] at hu
      split at hu
      · exact nomatch hu
      · exact h.gone u status hu
    · obtain ⟨hu, hne⟩ := member.1 hu
      rw [stands, if_neg hne]
      exact h.listed w' u hu
    · rw [stands]
      split
      · rfl
      · next hne => exact h.roused w' u hW fun hm => hu (member.2 ⟨hm, hne⟩)

theorem same (h : k.Coheres W G) (lists : ∀ w, k'.waitersOf w = k.waitersOf w)
    (tasks : k'.tasks = k.tasks) (current : k'.current = k.current) : k'.Coheres W G := by
  have stands (t : TaskId) : k'.standing t = k.standing t := by
    rw [Kernel.standing, Kernel.standing, tasks]
  obtain ⟨order, lists⟩ := h.order.congr lists (fun t => by rw [tasks]) (Nat.le_of_eq (by rw [tasks]))
  refine ⟨order, fun t ht => ?_, fun t status ht => h.asleep t status (stands t ▸ ht),
    fun t status ht => h.running t status (stands t ▸ ht),
    fun t status ht => h.gone t status (stands t ▸ ht), fun w t ht => h.inside w t (lists w ▸ ht),
    fun w t ht => ?_, fun w t hw ht => ?_⟩
  · rw [tasks]
    exact h.current t (current ▸ ht)
  · rw [stands]
    exact h.listed w t (lists w ▸ ht)
  · rw [stands]
    exact h.roused w t hw (lists w ▸ ht)

theorem status_of_mem (h : k.Coheres W G) (ht : t ∈ k.waiting w) : k.status t ≠ some .ok := by
  rw [status]
  rcases h.listed w t ht with hs | hs <;> simp [hs]

theorem listed_of_timeout (h : k.Coheres W G) (hW : W w t) (late : k.status t = some .timeout) :
    t ∈ k.waiting w := by
  by_contra ht
  rw [status, h.roused w t hW ht] at late
  cases late

theorem absent {r : Resource} {resumed : Option TaskId} (h : k.Coheres W G)
    (own : ∀ w, W w me → resumed.map (r.waitable, ·) = some (w, me)) (inTime : k.InTime resumed)
    (w : Waitable) : me ∉ k.waiting w := by
  intro hw
  obtain ⟨t, ht, he⟩ := Option.map_eq_some_iff.1 (own w (h.inside w me hw))
  obtain ⟨-, rfl⟩ := Prod.mk.inj he
  exact h.status_of_mem hw (inTime t ht)

/-- Whatever comes of a section that tries for `r`, the waiting stays coherent. -/
theorem tries {r : Resource} {resumed : Option TaskId} {v : Verdict} (h : k.Coheres W G)
    (came : Tries r ticks resumed k v k')
    (up : k.TakesUp W (ticks ≠ 0 ∨ resumed ≠ none) (resumed.map (r.waitable, ·)))
    (unique : ∀ w w' t, W w t → W w' t → w = w')
    (after : ∀ w t, W' w t ↔ (W w t ∧ resumed.map (r.waitable, ·) ≠ some (w, t)) ∨
      some (r.waitable, v) = some (w, .asleep t)) : k'.Coheres W' G := by
  -- The wait is over, and the task that waited is on no list.
  have ends (inTime : k.InTime resumed) (final : ∀ t, v ≠ .asleep t) : k.Coheres W' G := by
    have awake (w : Waitable) (t : TaskId) : some (r.waitable, v) ≠ some (w, .asleep t) := by
      intro h
      exact final t (Prod.mk.inj (Option.some.inj h)).2
    cases resumed with
    | none =>
      have same : W' = W := by
        funext w t
        simp [after, awake]
      rwa [same]
    | some t =>
      apply h.leaves (t := t) fun w hw => h.status_of_mem hw (inTime t rfl)
      intro w u
      simp only [after, awake, or_false]
      exact up.others unique rfl
  cases came with
  | sleepsOn t back blocked =>
    subst back
    have same : W' = W := by
      funext w u
      simp only [after, Option.map_some, Option.some.injEq, Prod.mk.injEq, Verdict.asleep.injEq,
        ne_eq, eq_iff_iff]
      constructor
      · rintro (⟨hW, -⟩ | ⟨rfl, rfl⟩)
        · exact hW
        · exact (up.waits _ _ rfl).1
      · intro hW
        by_cases he : r.waitable = w ∧ t = u
        · exact .inr he
        · exact .inl ⟨hW, he⟩
    rwa [same]
  | timedOut t me back late current =>
    subst back
    obtain ⟨hW, ht⟩ := up.waits _ _ rfl
    obtain rfl : me = t := Option.some.inj (current.symm.trans ht)
    apply h.unlisted (h.listed_of_timeout hW late)
    intro w u
    simp only [after, Option.some.injEq, Prod.mk.injEq, reduceCtorEq, and_false, or_false]
    exact up.others unique rfl
  | deeper m me x first what found owns bound =>
    subst first
    have deep : (k.withDepth m (x.depth + 1)).Coheres W G :=
      h.same (fun w => waitersOf_modifyMutex fun _ => rfl) rfl rfl
    have same : W' = W := by
      funext w t
      simp [after]
    rwa [same]
  | claimed inTime free =>
    have ended := ends inTime fun _ h => nomatch h
    exact ended.same (fun _ => waitersOf_claimed) (by cases r <;> rfl) (by cases r <;> rfl)
  | polled inTime busy poll => exact ends inTime fun _ h => nomatch h
  | asleep me _ inTime busy waits current absent found rescheduled =>
    have own (w : Waitable) (hW : W w me) := up.own (.inl waits) w me current hW
    apply Coheres.rescheduled _ rescheduled
    apply h.enlisted found current waits (h.absent own inTime)
    intro w u
    simp only [after, Option.some.injEq, Prod.mk.injEq, Verdict.asleep.injEq, eq_comm]
    apply or_congr_left
    apply and_congr_right
    intro hW
    apply not_congr
    constructor
    · intro hn
      exact Option.some.inj ((up.waits w u hn).2.symm.trans current)
    · intro hn
      rw [hn] at hW ⊢
      exact own w hW

/-- What actions do keeps the waiting coherent. `blocked` is the wait that the action goes on with. -/
theorem step {β : Type} {a : Action β} {b : β} {blocked : Option (Waitable × TaskId)}
    (h : k.Coheres W G) (step : WaitStep a b k k') (resumes : a.resumes = blocked)
    (up : k.TakesUp W a.suspends blocked) (unique : ∀ w w' t, W w t → W w' t → w = w')
    (afterW : ∀ w t, W' w t ↔ (W w t ∧ blocked ≠ some (w, t)) ∨ a.tried b = some (w, .asleep t))
    (afterG : ∀ t, G' t ↔ G t ∨ a.exits ∧ k.current = some t) : k'.Coheres W' G' := by
  subst resumes
  -- A section that tries for nothing leaves everybody inside the wait that they are in.
  have rests (tried : a.tried b = none) : W' = W := by
    funext w t
    simp [afterW, tried, Action.resumes_of_tried tried]
  have stays (he : a.exits = false) : G' = G := by
    funext t
    simp [afterG, he]
  have free (tried : a.tried b = none) (suspends : a.suspends) {me : TaskId}
      (current : k.current = some me) (w : Waitable) : ¬ W w me := by
    intro hW
    exact nomatch (Action.resumes_of_tried tried).symm.trans (up.own suspends w me current hW)
  cases step with
  | calm tried exits _ after =>
    rw [rests tried, stays exits]
    exact h.calm after
  | delays me ticks tried exits _ suspends current after =>
    rw [rests tried, stays exits]
    exact (h.delays (free tried suspends current)).rescheduled after
  | exits me tried exits _ suspends current after =>
    rw [rests tried]
    apply Coheres.rescheduled _ after
    apply h.exits (free tried suspends current)
    · intro t ht
      exact (afterG t).2 (.inl ht)
    · exact (afterG me).2 (.inr ⟨exits, current⟩)
  | tries r ticks resumed v tried exits _ resumes suspends came =>
    rw [stays exits]
    rw [resumes] at up afterW
    rw [tried] at afterW
    exact h.tries came (up.mono suspends) unique afterW
  | releases w k₁ tried exits _ frees after =>
    rw [rests tried, stays exits]
    have freed : k₁.Coheres W G := h.same frees.lists frees.tasks frees.current
    exact (freed.woken ((frees.has w).2 frees.found)).rescheduled after

end Coheres

end Kernel

/-- Task `t` is inside a wait for `w`. -/
def Waits (calls : List OpenCall) (w : Waitable) (t : TaskId) : Prop :=
  ∃ o ∈ calls, o.phase.blocked = some (w, t)

/-- Task `t` has ended itself. -/
def Gone (calls : List OpenCall) (t : TaskId) : Prop :=
  ∃ o ∈ calls, o.caller = .thread (some t) ∧ o.phase.gone

section

variable {later earlier : List OpenCall} {o : OpenCall} {w : Waitable} {t : TaskId}

theorem mem_middle {x : OpenCall} :
    x ∈ later ++ o :: earlier ↔ x ∈ later ++ earlier ∨ x = o := by
  simp only [List.mem_append, List.mem_cons]
  tauto

theorem forall_middle {P : OpenCall → Prop} {o' : OpenCall} (h : ∀ x ∈ later ++ o :: earlier, P x)
    (goesOn : P o → P o') : ∀ x ∈ later ++ o' :: earlier, P x := by
  intro x hx
  rcases mem_middle.1 hx with hx | rfl
  · exact h x (mem_middle.2 (.inl hx))
  · exact goesOn (h o (mem_middle.2 (.inr rfl)))

theorem waits_middle : Waits (later ++ o :: earlier) w t ↔
    Waits (later ++ earlier) w t ∨ o.phase.blocked = some (w, t) := by
  simp only [Waits, mem_middle, or_and_right, exists_or, exists_eq_left]

theorem gone_middle : Gone (later ++ o :: earlier) t ↔
    Gone (later ++ earlier) t ∨ o.caller = .thread (some t) ∧ o.phase.gone := by
  simp only [Gone, mem_middle, or_and_right, exists_or, exists_eq_left]

end

def System.Coheres (s : System) : Prop := s.core.kernel.Coheres (Waits s.calls) (Gone s.calls)

theorem System.Coheres.boot (clock : Clock) : ({ core := { clock } } : System).Coheres :=
  ⟨.initial clock, fun _ h => (nomatch h), fun _ _ h => (nomatch h), fun _ _ h => (nomatch h),
    fun _ _ h => (nomatch h), fun w _ h => by cases w <;> exact (nomatch h),
    fun w _ h => by cases w <;> exact (nomatch h), fun _ _ h => nomatch h.choose_spec.1⟩

namespace System.InContract

variable {c : Core} {later earlier : List OpenCall} {held : List Message} {lost : List MessageId}
  {log : List Record} {who : Caller} {α β : Type} {call : KernelCall α} {a : Action β}
  {next : Except Fault β → Program Unit α} {ph : Phase} {w : Waitable} {t : TaskId}

theorem other_thread {o : OpenCall}
    (h : InContract ⟨c, later ++ o :: earlier, held, lost, log⟩) (may : o.MayGoOn later c.kernel)
    (waits : Waits (later ++ earlier) w t) : o.caller ≠ .thread (some t) := by
  intro own
  obtain ⟨x, hx, hb⟩ := waits
  have caller := (h.sound x (mem_middle.2 (.inl hx))).sleeper w t hb
  exact nomatch (h.alone may hx (fun hh => nomatch own.symm.trans hh)
    (caller.trans own.symm)).1.symm.trans hb

variable
  (h : InContract ⟨c, later ++ ⟨who, call, .ask (.act a) next, ph⟩ :: earlier, held, lost, log⟩)
  (may : OpenCall.MayGoOn ⟨who, call, .ask (.act a) next, ph⟩ later c.kernel)

include h may

/-- A wait goes on in the thread of the task that slept. A section that may take the processor from
a task that waits goes on with that wait. -/
theorem takesUp : c.kernel.TakesUp
    (Waits (later ++ ⟨who, call, .ask (.act a) next, ph⟩ :: earlier)) a.suspends ph.blocked := by
  have permits := h.permits may
  constructor
  · intro w t hb
    refine ⟨waits_middle.2 (.inr hb), ?_⟩
    have sleeper := (h.sound _ (List.mem_append_right later List.mem_cons_self)).sleeper w t hb
    have own := permits.own (Action.suspends_of_resumes (permits.resumes.trans hb))
    exact Caller.thread.inj (own.symm.trans sleeper)
  · intro suspends w t current waits
    have own := permits.own suspends
    rw [current] at own
    exact (waits_middle.1 waits).resolve_left fun waits => h.other_thread may waits own

end System.InContract

theorem System.Coheres.act {c c' : Core} {later earlier : List OpenCall} {held : List Message}
    {lost : List MessageId} {log : List Record} {who : Caller} {α β : Type} {call : KernelCall α}
    {a : Action β} {next : Except Fault β → Program Unit α} {ph : Phase} {b : β}
    (contract : InContract
      ⟨c, later ++ ⟨who, call, .ask (.act a) next, ph⟩ :: earlier, held, lost, log⟩)
    (h : Coheres ⟨c, later ++ ⟨who, call, .ask (.act a) next, ph⟩ :: earlier, held, lost, log⟩)
    (may : OpenCall.MayGoOn ⟨who, call, .ask (.act a) next, ph⟩ later c.kernel)
    (result : a.toSection c = .ok b c') :
    c'.kernel.Coheres (Waits (later ++ ⟨who, call, next (.ok b), ph.after ⟨a, b⟩⟩ :: earlier))
      (Gone (later ++ ⟨who, call, next (.ok b), ph.after ⟨a, b⟩⟩ :: earlier)) := by
  have permits := contract.permits may
  have sleeper := (contract.sound _ (List.mem_append_right later List.mem_cons_self)).sleeper
  refine Kernel.Coheres.step h (Action.waitStep result) permits.resumes (contract.takesUp may)
    (fun w w' t ⟨x, hx, hb⟩ ⟨y, hy, hb'⟩ => contract.blocked_unique hx hy hb hb')
    (fun w t => ?_) fun t => ?_
  · rw [waits_middle, waits_middle, Phase.blocked_after]
    refine or_congr_left ⟨fun hw => ⟨.inl hw, fun hb => ?_⟩, fun ⟨hw, hb⟩ => hw.resolve_right hb⟩
    exact contract.other_thread may hw (sleeper w t hb)
  · rw [gone_middle, gone_middle]
    refine or_congr ⟨.inl, fun hg => hg.resolve_right fun hg => permits.alive hg.2⟩ ?_
    constructor
    · rintro ⟨hc, o, ho, he⟩
      cases ho
      have own := permits.own (Action.suspends_of_exits he)
      exact ⟨he, Caller.thread.inj (own.symm.trans hc)⟩
    · rintro ⟨he, current⟩
      have own := permits.own (Action.suspends_of_exits he)
      exact ⟨own.trans (by rw [current]), _, rfl, he⟩

theorem System.Coheres.goesOn {c c' : Core} {later earlier : List OpenCall} {held : List Message}
    {lost : List MessageId} {log : List Record} {who : Caller} {α : Type} {call : KernelCall α}
    {rest rest' : Program Unit α} {ph : Phase}
    (h : Coheres ⟨c, later ++ ⟨who, call, rest, ph⟩ :: earlier, held, lost, log⟩)
    (kernel : c'.kernel = c.kernel) :
    Coheres ⟨c', later ++ ⟨who, call, rest', ph⟩ :: earlier, held, lost, log⟩ := by
  have waits : Waits (later ++ ⟨who, call, rest', ph⟩ :: earlier) =
      Waits (later ++ ⟨who, call, rest, ph⟩ :: earlier) := by
    funext w t
    rw [waits_middle, waits_middle]
  have gone : Gone (later ++ ⟨who, call, rest', ph⟩ :: earlier) =
      Gone (later ++ ⟨who, call, rest, ph⟩ :: earlier) := by
    funext t
    rw [gone_middle, gone_middle]
  simpa only [System.Coheres, kernel, waits, gone] using h

theorem System.Coheres.step {s s' : System} (contract : s.InContract) (h : s.Coheres)
    (hs : System.Step s s') : s'.Coheres := by
  cases hs with
  | begin _ who call held may _ =>
    have hw : Waits (⟨who, call, call.program, { cargo := call.takes }⟩ :: s.calls) =
        Waits s.calls := by
      funext w t
      simp [Waits, Phase.blocked]
    have hg : Gone (⟨who, call, call.program, { cargo := call.takes }⟩ :: s.calls) =
        Gone s.calls := by
      funext t
      simp [Gone, Phase.gone]
    simpa only [System.Coheres, hw, hg] using h
  | reply c c' later earlier held lost log who call r next ph b may answer =>
    exact h.goesOn answer.kernel_eq
  | act c c' later earlier held lost log who call a next ph b may result =>
    exact h.act contract may result
  | unroll c later earlier held lost log who call body t next ph => exact h.goesOn rfl
  | finish c later earlier held lost log who call a ph =>
    have rests := (contract.sound _ (List.mem_append_right later List.mem_cons_self)).keeps
    have hw : Waits (later ++ earlier) = Waits (later ++ ⟨who, call, .done a, ph⟩ :: earlier) := by
      funext w t
      rw [waits_middle, rests.blocked]
      simp
    have hg : Gone (later ++ earlier) = Gone (later ++ ⟨who, call, .done a, ph⟩ :: earlier) := by
      funext t
      rw [gone_middle]
      simp [rests.alive]
    simpa only [System.Coheres, hw, hg] using h
  | switch _ c sp resumed result => exact h.calm (Section.Quiets.switch sp _ _ _ result).calm
  | write => exact h
  | drop => exact h
  | elapse => exact h

theorem Reachable.coheres {s : System} (h : Reachable s) : s.Coheres := by
  induction h with
  | boot clock => exact .boot clock
  | step hr hs ih => exact ih.step hr.inContract hs

end Rtos
