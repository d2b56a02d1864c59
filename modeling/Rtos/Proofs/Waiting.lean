import Rtos.Proofs.Linked
import Rtos.Proofs.Quiet

/-!
# Lists of waiters

`WaitsInOrder` says that the links of the tasks hold the lists of waiters of all objects: chains that
end, with their last members on record, without repetition and apart from each other. Queueing a
task, unlinking one and waking the first keep it, and their effect is told on `Kernel.waiting`.
-/

namespace Rtos

theorem TaskId.index_injective : Function.Injective TaskId.index := by
  rintro ⟨i⟩ ⟨j⟩ rfl
  rfl

namespace TaskTable

variable {tasks : List Task} {t id : TaskId} {f : Task → Task}

theorem getElem?_update : (update tasks id f)[t.index]? =
    if t = id then tasks[t.index]?.map f else tasks[t.index]? := by
  rw [update, List.getElem?_modify]
  by_cases h : t = id
  · simp [h]
  · have hi : id.index ≠ t.index := fun hi => h (TaskId.index_injective hi.symm)
    simp [h, hi]

theorem length_update : (update tasks id f).length = tasks.length := List.length_modify ..

theorem map_update {γ : Type} {u : Task → γ} {g : γ → γ} (h : ∀ x, u (f x) = g (u x)) :
    (update tasks t f).map u = (tasks.map u).modify t.index g := by
  apply List.ext_getElem?
  intro i
  simp only [update, List.getElem?_map, List.getElem?_modify]
  cases tasks[i]? with
  | none => rfl
  | some x =>
    simp only [Option.map_eq_map, Option.map_some]
    split
    · rw [h]
    · rfl

theorem map_update_same {γ : Type} {u : Task → γ} (same : ∀ x, u (f x) = u x) :
    (update tasks t f).map u = tasks.map u :=
  (map_update (g := id) same).trans (List.modify_id ..)

theorem nextWaiter_update_self {next : Option TaskId} (ht : t.index < tasks.length)
    (hf : ∀ x, (f x).nextWaiter = next) : nextWaiter (update tasks t f) t = next := by
  simp [nextWaiter, getElem?_update, List.getElem?_eq_getElem ht, hf]

theorem nextWaiter_update_of_ne (h : t ≠ id) :
    nextWaiter (update tasks id f) t = nextWaiter tasks t := by
  simp [nextWaiter, getElem?_update, h]

end TaskTable

/-- The wait list is the row of links that leads through `l`. -/
structure WaitList.Holds (w : WaitList) (tasks : List Task) (l : List TaskId) : Prop where
  strung : Strung (TaskTable.nextWaiter tasks) w.first w.last l
  known : ∀ t ∈ l, t.index < tasks.length

namespace WaitList

variable {w : WaitList} {tasks tasks' : List Task} {l : List TaskId}

theorem Holds.toList_eq (h : w.Holds tasks l) : w.toList tasks = l :=
  h.strung.linked.chain_eq
    (length_le_of_index_lt TaskId.index TaskId.index_injective h.strung.nodup h.known)

theorem Holds.congr (h : w.Holds tasks l) (size : tasks.length ≤ tasks'.length)
    (links : ∀ t ∈ l, TaskTable.nextWaiter tasks' t = TaskTable.nextWaiter tasks t) :
    w.Holds tasks' l :=
  ⟨h.strung.congr links, fun t ht => Nat.lt_of_lt_of_le (h.known t ht) size⟩

theorem Holds.empty : ({} : WaitList).Holds tasks [] := ⟨.nil, fun _ h => nomatch h⟩

end WaitList

namespace Kernel

variable {k k' : Kernel} {w : Waitable} {t : TaskId}

structure WaitsInOrder (k : Kernel) : Prop where
  holds : ∀ w, (k.waitersOf w).Holds k.tasks (k.waiting w)
  apart : ∀ w w' t, t ∈ k.waiting w → t ∈ k.waiting w' → w = w'
  loose : ∀ t, (∀ w, t ∉ k.waiting w) → TaskTable.nextWaiter k.tasks t = none

theorem WaitsInOrder.of_lists (L : Waitable → List TaskId)
    (holds : ∀ w, (k.waitersOf w).Holds k.tasks (L w))
    (apart : ∀ w w' t, t ∈ L w → t ∈ L w' → w = w')
    (loose : ∀ t, (∀ w, t ∉ L w) → TaskTable.nextWaiter k.tasks t = none) :
    k.WaitsInOrder ∧ ∀ w, k.waiting w = L w := by
  have hL (w : Waitable) : k.waiting w = L w := (holds w).toList_eq
  exact ⟨by constructor <;> simpa only [hL], hL⟩

theorem WaitsInOrder.congr (h : k.WaitsInOrder) (lists : ∀ w, k'.waitersOf w = k.waitersOf w)
    (links : ∀ t, TaskTable.nextWaiter k'.tasks t = TaskTable.nextWaiter k.tasks t)
    (size : k.tasks.length ≤ k'.tasks.length) :
    k'.WaitsInOrder ∧ ∀ w, k'.waiting w = k.waiting w := by
  refine WaitsInOrder.of_lists k.waiting (fun w => ?_) h.apart fun t ht =>
    (links t).trans (h.loose t ht)
  rw [lists]
  exact (h.holds w).congr size fun t _ => links t

theorem WaitsInOrder.calm (h : k.WaitsInOrder) (hk : k.Calm k') :
    k'.WaitsInOrder ∧ ∀ w, k'.waiting w = k.waiting w := h.congr hk.lists hk.links hk.size

theorem WaitsInOrder.initial (clock : Clock) : ({ clock : Core }).kernel.WaitsInOrder :=
  (WaitsInOrder.of_lists (fun _ => []) (fun w => by cases w <;> exact .empty)
    (fun _ _ _ h => nomatch h) fun _ _ => rfl).1

section

variable {l : WaitList} {tasks : List Task}

@[simp] theorem tasks_withWaiters : (k.withWaiters w l tasks).tasks = tasks := by cases w <;> rfl

theorem still_withWaiters : k.Still (k.withWaiters w l tasks) := by
  cases w <;> exact ⟨rfl, rfl⟩

theorem has_withWaiters {w' : Waitable} : (k.withWaiters w l tasks).Has w' ↔ k.Has w' := by
  cases w <;> cases w' <;> simp [withWaiters, Has]

theorem units_withWaiters {w' : Waitable} :
    (k.withWaiters w l tasks).units w' = k.units w' := by
  cases w with
  | semaphore s =>
    cases w' with
    | semaphore s' =>
      simp only [withWaiters, units, List.getElem?_modify]
      cases k.semaphores[s'.index]? <;> simp; split <;> rfl
    | mutex m' => rfl
  | mutex m =>
    cases w' with
    | semaphore s' => rfl
    | mutex m' =>
      simp only [withWaiters, units, List.getElem?_modify]
      cases k.mutexes[m'.index]? <;> simp; split <;> rfl

theorem waitersOf_withWaiters (hw : k.Has w) : (k.withWaiters w l tasks).waitersOf w = l := by
  cases w with
  | semaphore s => simp [withWaiters, waitersOf, List.getElem?_eq_getElem hw]
  | mutex m => simp [withWaiters, waitersOf, List.getElem?_eq_getElem hw]

theorem waitersOf_withWaiters_of_ne {w' : Waitable} (hw : w' ≠ w) :
    (k.withWaiters w l tasks).waitersOf w' = k.waitersOf w' := by
  cases w with
  | semaphore s =>
    cases w' with
    | semaphore s' =>
      have hs : s.index ≠ s'.index := fun hs => hw (by cases s; cases s'; simp_all)
      simp [withWaiters, waitersOf, hs]
    | mutex m' => rfl
  | mutex m =>
    cases w' with
    | semaphore s' => rfl
    | mutex m' =>
      have hm : m.index ≠ m'.index := fun hm => hw (by cases m; cases m'; simp_all)
      simp [withWaiters, waitersOf, hm]

theorem WaitsInOrder.change (h : k.WaitsInOrder) (hw : k.Has w) {L : List TaskId}
    (holds : l.Holds tasks L) (size : k.tasks.length ≤ tasks.length)
    (members : ∀ t ∈ L, ∀ w' ≠ w, t ∉ k.waiting w')
    (others : ∀ w' ≠ w, ∀ t ∈ k.waiting w',
      TaskTable.nextWaiter tasks t = TaskTable.nextWaiter k.tasks t)
    (loose : ∀ t, t ∉ L → (∀ w' ≠ w, t ∉ k.waiting w') → TaskTable.nextWaiter tasks t = none) :
    (k.withWaiters w l tasks).WaitsInOrder ∧
      ∀ w', (k.withWaiters w l tasks).waiting w' = if w' = w then L else k.waiting w' := by
  refine WaitsInOrder.of_lists (fun w' => if w' = w then L else k.waiting w') (fun w' => ?_)
    (fun w₁ w₂ t h₁ h₂ => ?_) fun t ht => ?_
  · by_cases hw' : w' = w
    · subst hw'
      simpa [waitersOf_withWaiters hw] using holds
    · simpa [waitersOf_withWaiters_of_ne hw', hw'] using (h.holds w').congr size (others w' hw')
  · split at h₁ <;> split at h₂
    · simp_all
    · next hw₁ hw₂ => exact (members t h₁ w₂ hw₂ h₂).elim
    · next hw₁ hw₂ => exact (members t h₂ w₁ hw₁ h₁).elim
    · exact h.apart w₁ w₂ t h₁ h₂
  · rw [tasks_withWaiters]
    refine loose t (by simpa using ht w) fun w' hw' => by simpa [hw'] using ht w'

end

end Kernel

namespace TaskTable

variable {tasks : List Task} {t id : TaskId} {f : Task → Task}

theorem standing_update : standing (update tasks id f) t =
    if t = id then (tasks[id.index]?.map f).map fun x => (x.state, x.status)
    else standing tasks t := by
  rw [standing, getElem?_update]
  split
  · next h => rw [h]
  · rfl

theorem standing_update_same (hf : ∀ x, (f x).state = x.state ∧ (f x).status = x.status) :
    standing (update tasks id f) t = standing tasks t := by
  rw [standing_update]
  split
  · next h =>
    subst h
    cases hx : tasks[t.index]? <;> simp [standing, hx, hf]
  · rfl

theorem standing_update_const (ht : id.index < tasks.length) {x : TaskState × TaskStatus}
    (hf : ∀ y, ((f y).state, (f y).status) = x) :
    standing (update tasks id f) t = if t = id then some x else standing tasks t := by
  rw [standing_update]
  simp [List.getElem?_eq_getElem ht, hf]

end TaskTable

namespace WaitList

variable {w : WaitList} {tasks : List Task} {l : List TaskId} {t : TaskId} {ticks : Int32}

theorem Holds.last (h : w.Holds tasks l) {first : TaskId} (hf : w.first = some first) :
    ∃ z ∈ l, w.last = some z := by
  have hl := h.strung.first_eq
  rw [hf] at hl
  cases l with
  | nil => exact nomatch hl
  | cons a l =>
    exact ⟨_, List.getLast_mem (List.cons_ne_nil a l),
      h.strung.last_eq.trans (List.getLast?_eq_getLast_of_ne_nil (List.cons_ne_nil a l))⟩

theorem Holds.mem_of_last (h : w.Holds tasks l) (hl : w.last = some t) : t ∈ l :=
  List.mem_of_getLast? (h.strung.last_eq.symm.trans hl)

theorem length_add : (w.add tasks t ticks).2.length = tasks.length := by
  rw [WaitList.add]
  split <;> simp only [TaskTable.length_update]

theorem map_add {γ : Type} {f : Task → γ} {g : γ → γ}
    (keeps : ∀ (x : Task) nextWaiter, f { x with nextWaiter } = f x)
    (settles : ∀ x : Task, f (if ticks = 0 then { x with nextWaiter := none, status := .timeout }
      else { x with nextWaiter := none }.block ticks) = g (f x)) :
    (w.add tasks t ticks).2.map f = (tasks.map f).modify t.index g := by
  simp only [WaitList.add]
  split
  · next last _ _ =>
    have linked : (TaskTable.update tasks last ({ · with nextWaiter := some t })).map f = tasks.map f :=
      TaskTable.map_update_same fun x => keeps x (some t)
    exact (TaskTable.map_update settles).trans (congrArg (List.modify · t.index g) linked)
  · exact TaskTable.map_update settles

theorem map_remove {γ : Type} {f : Task → γ}
    (keeps : ∀ (x : Task) nextWaiter, f { x with nextWaiter } = f x) :
    (w.remove tasks t).2.map f = tasks.map f := by
  have unlink {tasks : List Task} {t : TaskId} {next : Option TaskId} :
      (TaskTable.update tasks t ({ · with nextWaiter := next })).map f = tasks.map f :=
    TaskTable.map_update_same fun x => keeps x next
  simp only [WaitList.remove]
  split
  · split
    · exact unlink.trans unlink
    · exact unlink
  · rfl

theorem length_remove : (w.remove tasks t).2.length = tasks.length := by
  have same : (w.remove tasks t).2.map (fun _ => ()) = tasks.map fun _ => () :=
    map_remove fun _ _ => rfl
  simpa only [List.length_map] using congrArg List.length same

theorem wakeFirst_eq_some {w' : WaitList} {tasks' : List Task}
    (h : w.wakeFirst tasks = some (t, w', tasks')) :
    ∃ x, tasks[t.index]? = some x ∧ x.state = .sleep ∧
      tasks' = TaskTable.update tasks t fun x => { x with nextWaiter := none }.wake .ok := by
  rw [WaitList.wakeFirst] at h
  split at h
  · cases h
  split at h
  · cases h
  next found =>
  split at h
  · next asleep =>
    cases h
    exact ⟨_, found, asleep, rfl⟩
  · cases h

theorem length_wakeFirst {w' : WaitList} {tasks' : List Task}
    (h : w.wakeFirst tasks = some (t, w', tasks')) : tasks'.length = tasks.length := by
  obtain ⟨x, -, -, rfl⟩ := wakeFirst_eq_some h
  exact TaskTable.length_update

/-- Only the last member and the new one change. -/
theorem getElem?_add {u : TaskId} (hu : w.last ≠ some u) (ht : u ≠ t) :
    (w.add tasks t ticks).2[u.index]? = tasks[u.index]? := by
  simp only [WaitList.add]
  split
  · next first last _ hl =>
    have hz : u ≠ last := fun hz => hu (hz ▸ hl)
    rw [TaskTable.getElem?_update, if_neg ht, TaskTable.getElem?_update, if_neg hz]
  · rw [TaskTable.getElem?_update, if_neg ht]

theorem standing_add (known : t.index < tasks.length) (waits : ticks ≠ 0) (u : TaskId) :
    TaskTable.standing (w.add tasks t ticks).2 u =
      if u = t then some (.sleep, .invalid) else TaskTable.standing tasks u := by
  simp only [WaitList.add, waits, ↓reduceIte]
  split
  · refine (TaskTable.standing_update_const (x := (.sleep, .invalid))
      (TaskTable.length_update.symm ▸ known) fun _ => by rfl).trans ?_
    rw [TaskTable.standing_update_same]
    intro _
    exact ⟨rfl, rfl⟩
  · exact TaskTable.standing_update_const known fun _ => rfl

/-- The new member comes last, whether it sleeps or not. -/
theorem Holds.append (h : w.Holds tasks l) (ht : t ∉ l) (known : t.index < tasks.length)
    (ticks : Int32) : (w.add tasks t ticks).1.Holds (w.add tasks t ticks).2 (l ++ [t]) := by
  constructor
  case known =>
    intro u hu
    rw [length_add]
    rcases List.mem_append.1 hu with hu | hu
    · exact h.known u hu
    · rw [List.mem_singleton.1 hu]
      exact known
  case strung =>
    simp only [WaitList.add]
    cases hf : w.first with
    | none =>
      have hl := h.strung.eq_nil hf
      subst hl
      have hn := hf ▸ h.strung
      refine hn.push ht (TaskTable.nextWaiter_update_self known fun _ => ?_) (fun z hz => ?_)
        fun b hb => nomatch hb
      · split <;> rfl
      · exact nomatch hn.last_eq.symm.trans hz
    | some first =>
      obtain ⟨z, hz, hlast⟩ := h.last hf
      have hzt : z ≠ t := fun hzt => ht (hzt ▸ hz)
      simp only [hlast]
      refine (hf ▸ h.strung).push ht ?_ (fun z' hz' => ?_) fun b hb hbz => ?_
      · refine TaskTable.nextWaiter_update_self (TaskTable.length_update.symm ▸ known) fun _ => ?_
        split <;> rfl
      · obtain rfl : z = z' := Option.some.inj (hlast.symm.trans hz')
        rw [TaskTable.nextWaiter_update_of_ne hzt]
        exact TaskTable.nextWaiter_update_self (h.known z hz) fun _ => rfl
      · have hbt : b ≠ t := fun hbt => ht (hbt ▸ hb)
        have hbz : b ≠ z := fun h => hbz (h ▸ hlast)
        rw [TaskTable.nextWaiter_update_of_ne hbt, TaskTable.nextWaiter_update_of_ne hbz]

theorem Holds.add (h : w.Holds tasks l) (ht : t ∉ l) (known : t.index < tasks.length)
    (waits : ticks ≠ 0) :
    (w.add tasks t ticks).1.Holds (w.add tasks t ticks).2 (l ++ [t]) ∧
      (w.add tasks t ticks).2.length = tasks.length ∧
      (∀ u, u ∉ l → u ≠ t → TaskTable.nextWaiter (w.add tasks t ticks).2 u =
        TaskTable.nextWaiter tasks u) ∧
      ∀ u, TaskTable.standing (w.add tasks t ticks).2 u =
        if u = t then some (.sleep, .invalid) else TaskTable.standing tasks u := by
  refine ⟨h.append ht known ticks, length_add, fun u hu hut => ?_, standing_add known waits⟩
  have hlast : w.last ≠ some u := fun hl => hu (h.mem_of_last hl)
  rw [TaskTable.nextWaiter, getElem?_add hlast hut, TaskTable.nextWaiter]

theorem Holds.remove (h : w.Holds tasks l) (ht : t ∈ l) :
    (w.remove tasks t).1.Holds (w.remove tasks t).2 (l.erase t) ∧
      (w.remove tasks t).2.length = tasks.length ∧
      TaskTable.nextWaiter (w.remove tasks t).2 t = none ∧
      (∀ u, u ∉ l → TaskTable.nextWaiter (w.remove tasks t).2 u =
        TaskTable.nextWaiter tasks u) ∧
      ∀ u, TaskTable.standing (w.remove tasks t).2 u = TaskTable.standing tasks u := by
  obtain ⟨before, behind, rfl⟩ := List.append_of_mem ht
  have nodup := List.nodup_append.1 h.strung.nodup
  have hb : t ∉ before := fun hb => nodup.2.2 t hb t List.mem_cons_self rfl
  have he : (before ++ t :: behind).erase t = before ++ behind := by
    rw [List.erase_append_right _ hb, List.erase_cons_head]
  have hbe : t ∉ behind := (List.nodup_cons.1 nodup.2.1).1
  have known := h.known t ht
  have all {tasks' : List Task} (size : tasks'.length = tasks.length) :
      ∀ u ∈ before ++ behind, u.index < tasks'.length := fun u hu =>
    size ▸ h.known u (by
      rcases List.mem_append.1 hu with hu | hu
      · exact List.mem_append_left _ hu
      · exact List.mem_append_right _ (List.mem_cons_of_mem t hu))
  have hne : ∀ u ∈ before ++ behind, u ≠ t := by
    rintro u hu rfl
    exact (List.mem_append.1 hu).elim hb hbe
  simp only [WaitList.remove, h.toList_eq, ht, ↓reduceIte, memberBefore_append hb hbe, he]
  -- With a member before it, two links are written: that one and the task's own.
  cases hp : before.getLast? with
  | none =>
    refine ⟨⟨?_, all TaskTable.length_update⟩, TaskTable.length_update,
      TaskTable.nextWaiter_update_self known fun _ => rfl,
      fun u hu => TaskTable.nextWaiter_update_of_ne fun hut => hu (hut ▸ ht),
      fun u => TaskTable.standing_update_same fun _ => ⟨rfl, rfl⟩⟩
    have cut : Strung (TaskTable.nextWaiter (TaskTable.update tasks t
        ({ · with nextWaiter := none }))) _ _ (before ++ behind) :=
      h.strung.cut (by simp [hp]) fun b hb _ => TaskTable.nextWaiter_update_of_ne (hne b hb)
    simpa only [hp, ↓reduceIte] using cut
  | some p =>
    have hpm : p ∈ before := List.mem_of_getLast? hp
    have hpt : p ≠ t := hne p (List.mem_append_left _ hpm)
    refine ⟨⟨?_, all ?_⟩, ?_, ?_, fun u hu => ?_, fun u => ?_⟩
    · have cut : Strung (TaskTable.nextWaiter (TaskTable.update
          (TaskTable.update tasks p ({ · with nextWaiter := TaskTable.nextWaiter tasks t })) t
          ({ · with nextWaiter := none }))) _ _ (before ++ behind) :=
        h.strung.cut (fun p' hp' => ?_) fun b hb hbp => ?_
      · simpa only [hp, reduceCtorEq, ↓reduceIte] using cut
      · obtain rfl : p = p' := Option.some.inj (hp.symm.trans hp')
        rw [TaskTable.nextWaiter_update_of_ne hpt]
        exact TaskTable.nextWaiter_update_self (h.known p (List.mem_append_left _ hpm))
          fun _ => rfl
      · have hbp : b ≠ p := fun h => hbp (h ▸ hp)
        rw [TaskTable.nextWaiter_update_of_ne (hne b hb), TaskTable.nextWaiter_update_of_ne hbp]
    · rw [TaskTable.length_update, TaskTable.length_update]
    · rw [TaskTable.length_update, TaskTable.length_update]
    · exact TaskTable.nextWaiter_update_self (TaskTable.length_update.symm ▸ known) fun _ => rfl
    · have hut : u ≠ t := fun hut => hu (hut ▸ ht)
      have hup : u ≠ p := fun hup => hu (hup ▸ List.mem_append_left _ hpm)
      rw [TaskTable.nextWaiter_update_of_ne hut, TaskTable.nextWaiter_update_of_ne hup]
    · exact (TaskTable.standing_update_same fun _ => by exact ⟨rfl, rfl⟩).trans
        (TaskTable.standing_update_same fun _ => by exact ⟨rfl, rfl⟩)

/-- The first of the tasks is woken if it sleeps. Nothing else ever happens. -/
theorem Holds.wakeFirst (h : w.Holds tasks l) :
    w.wakeFirst tasks = none ∧
        (∀ t, l.head? = some t → ∀ status, TaskTable.standing tasks t ≠ some (.sleep, status)) ∨
      ∃ t rest w' tasks' status, w.wakeFirst tasks = some (t, w', tasks') ∧ l = t :: rest ∧
        TaskTable.standing tasks t = some (.sleep, status) ∧ w'.Holds tasks' rest ∧
        tasks'.length = tasks.length ∧ TaskTable.nextWaiter tasks' t = none ∧
        (∀ u, u ≠ t → TaskTable.nextWaiter tasks' u = TaskTable.nextWaiter tasks u) ∧
        ∀ u, TaskTable.standing tasks' u =
          if u = t then some (.run, .ok) else TaskTable.standing tasks u := by
  have hfirst := h.strung.first_eq
  cases l with
  | nil =>
    refine .inl ⟨?_, fun t ht => nomatch ht⟩
    simp only [WaitList.wakeFirst, hfirst, List.head?_nil]
  | cons t rest =>
    have known := h.known t List.mem_cons_self
    have hx := List.getElem?_eq_getElem known
    generalize tasks[t.index] = x at hx
    rw [List.head?_cons] at hfirst
    let wake (t : Task) : Task := { t with nextWaiter := none }.wake .ok
    by_cases hs : x.state = .sleep
    · refine .inr ⟨t, rest, ⟨x.nextWaiter, if x.nextWaiter.isNone then none else w.last⟩,
        TaskTable.update tasks t wake, x.status, ?_, rfl, ?_, ⟨?_, ?_⟩, TaskTable.length_update,
        TaskTable.nextWaiter_update_self known fun _ => rfl,
        fun u hu => TaskTable.nextWaiter_update_of_ne hu,
        fun u => TaskTable.standing_update_const known fun _ => rfl⟩
      · simp only [WaitList.wakeFirst, hfirst, hx, hs, ↓reduceIte]
        rfl
      · simp only [TaskTable.standing, hx, hs, Option.map_some]
      · have ht : t ∉ rest := (List.nodup_cons.1 h.strung.nodup).1
        have pop : Strung (TaskTable.nextWaiter (TaskTable.update tasks t wake)) _ _ rest :=
          (hfirst ▸ h.strung).pop fun b hb =>
            TaskTable.nextWaiter_update_of_ne fun hbt => ht (hbt ▸ hb)
        have hn : TaskTable.nextWaiter tasks t = x.nextWaiter := by
          simp only [TaskTable.nextWaiter, hx, Option.bind_some]
        rwa [hn] at pop
      · intro u hu
        rw [TaskTable.length_update]
        exact h.known u (List.mem_cons_of_mem t hu)
    · refine .inl ⟨?_, ?_⟩
      · simp only [WaitList.wakeFirst, hfirst, hx, hs, ↓reduceIte]
      · rintro _ ⟨⟩ status hst
        simp only [TaskTable.standing, hx, Option.map_some, Option.some.injEq, Prod.mk.injEq] at hst
        exact hs hst.1

end WaitList

namespace Kernel

variable {k : Kernel} {w : Waitable} {t : TaskId} {ticks : Int32}

theorem WaitsInOrder.enlisted (h : k.WaitsInOrder) (hw : k.Has w) (ht : ∀ w', t ∉ k.waiting w')
    (known : t.index < k.tasks.length) (waits : ticks ≠ 0) :
    (k.enlisted w t ticks).WaitsInOrder ∧
      (∀ w', (k.enlisted w t ticks).waiting w' =
        if w' = w then k.waiting w ++ [t] else k.waiting w') ∧
      ∀ u, (k.enlisted w t ticks).standing u =
        if u = t then some (.sleep, .invalid) else k.standing u := by
  obtain ⟨holds, size, links, stands⟩ := (h.holds w).add (ht w) known waits
  have order := h.change hw holds (Nat.le_of_eq size.symm) (fun u hu w' hw' => ?_)
    (fun w' hw' u hu => ?_) fun u hu hw' => ?_
  · refine ⟨order.1, order.2, fun u => ?_⟩
    rw [Kernel.standing, Kernel.enlisted, tasks_withWaiters]
    exact stands u
  · rcases List.mem_append.1 hu with hu | hu
    · intro hu'
      exact hw' (h.apart w' w u hu' hu)
    · rw [List.mem_singleton.1 hu]
      exact ht w'
  · exact links u (fun hu' => hw' (h.apart w' w u hu hu')) fun hut => ht w' (hut ▸ hu)
  · rw [List.mem_append, List.mem_singleton, not_or] at hu
    rw [links u hu.1 hu.2]
    apply h.loose u
    intro w'
    by_cases he : w' = w
    · exact he ▸ hu.1
    · exact hw' w' he

theorem WaitsInOrder.unlisted (h : k.WaitsInOrder) (hw : k.Has w) (ht : t ∈ k.waiting w) :
    (k.unlisted w t).WaitsInOrder ∧
      (∀ w', (k.unlisted w t).waiting w' =
        if w' = w then (k.waiting w).erase t else k.waiting w') ∧
      ∀ u, (k.unlisted w t).standing u = k.standing u := by
  obtain ⟨holds, size, free, links, stands⟩ := (h.holds w).remove ht
  have order := h.change hw holds (Nat.le_of_eq size.symm) (fun u hu w' hw' hu' => ?_)
    (fun w' hw' u hu => ?_) fun u hu hw' => ?_
  · refine ⟨order.1, order.2, fun u => ?_⟩
    rw [Kernel.standing, Kernel.unlisted, tasks_withWaiters]
    exact stands u
  · exact hw' (h.apart w' w u hu' (List.mem_of_mem_erase hu))
  · exact links u fun hu' => hw' (h.apart w' w u hu hu')
  · by_cases hut : u = t
    · rw [hut]
      exact free
    · have huw : u ∉ k.waiting w := fun huw => hu ((List.mem_erase_of_ne hut).2 huw)
      rw [links u huw]
      apply h.loose u
      intro w'
      by_cases he : w' = w
      · exact he ▸ huw
      · exact hw' w' he

/-- What waking the first waiter of `w` comes to. -/
inductive Wakes (k : Kernel) (w : Waitable) (k' : Kernel) : Prop
  /-- There is no first waiter, or it does not sleep. -/
  | nobody (same : k' = k)
      (awake : ∀ t, (k.waiting w).head? = some t → ∀ status, k.standing t ≠ some (.sleep, status))
  | first (t : TaskId) (rest : List TaskId) (status : TaskStatus)
      (asleep : k.standing t = some (.sleep, status)) (list : k.waiting w = t :: rest)
      (lists : ∀ w', k'.waiting w' = if w' = w then rest else k.waiting w')
      (stands : ∀ u, k'.standing u = if u = t then some (.run, .ok) else k.standing u)

theorem WaitsInOrder.woken (h : k.WaitsInOrder) (hw : k.Has w) :
    (k.woken w).WaitsInOrder ∧ k.Wakes w (k.woken w) := by
  rcases (h.holds w).wakeFirst with
    ⟨none, awake⟩ | ⟨t, rest, w₁, tasks₁, status, some, list, asleep, holds, size, free, links, stands⟩
  · simp only [Kernel.woken, none]
    exact ⟨h, .nobody rfl awake⟩
  · have nodup := List.nodup_cons.1 (list ▸ (h.holds w).strung.nodup)
    have ht : t ∈ k.waiting w := list ▸ List.mem_cons_self
    have sub : ∀ u ∈ rest, u ∈ k.waiting w := fun u hu => list ▸ List.mem_cons_of_mem t hu
    simp only [Kernel.woken, some]
    have order := h.change hw holds (Nat.le_of_eq size.symm) (fun u hu w' hw' hu' => ?_)
      (fun w' hw' u hu => ?_) fun u hu hw' => ?_
    · refine ⟨order.1, .first t rest status asleep list order.2 fun u => ?_⟩
      rw [Kernel.standing, tasks_withWaiters]
      exact stands u
    · exact hw' (h.apart w' w u hu' (sub u hu))
    · refine links u fun hut => hw' ?_
      subst hut
      exact h.apart w' w u hu ht
    · by_cases hut : u = t
      · rw [hut]
        exact free
      · rw [links u hut]
        apply h.loose u
        intro w'
        by_cases he : w' = w
        · rw [he, list, List.mem_cons, not_or]
          exact ⟨hut, hu⟩
        · exact hw' w' he

@[simp] theorem current_withWaiters {l : WaitList} {tasks : List Task} :
    (k.withWaiters w l tasks).current = k.current := by cases w <;> rfl

@[simp] theorem current_woken : (k.woken w).current = k.current := by
  unfold Kernel.woken
  split
  · rfl
  · exact current_withWaiters

theorem units_woken {w' : Waitable} : (k.woken w).units w' = k.units w' := by
  unfold Kernel.woken
  split
  · rfl
  · exact units_withWaiters

theorem has_woken {w' : Waitable} : (k.woken w).Has w' ↔ k.Has w' := by
  unfold Kernel.woken
  split
  · rfl
  · exact has_withWaiters

theorem standing_unlisted {u : TaskId} : (k.unlisted w u).standing t = k.standing t := by
  have same : ((k.waitersOf w).remove k.tasks u).2.map (fun x => (x.state, x.status)) =
      k.tasks.map fun x => (x.state, x.status) := WaitList.map_remove fun _ _ => rfl
  simp only [standing, TaskTable.standing, unlisted, tasks_withWaiters, ← List.getElem?_map, same]

theorem length_enlisted : (k.enlisted w t ticks).tasks.length = k.tasks.length := by
  rw [Kernel.enlisted, tasks_withWaiters, WaitList.length_add]

theorem length_unlisted : (k.unlisted w t).tasks.length = k.tasks.length := by
  rw [Kernel.unlisted, tasks_withWaiters, WaitList.length_remove]

theorem length_woken : (k.woken w).tasks.length = k.tasks.length := by
  rw [Kernel.woken]
  cases woken : (k.waitersOf w).wakeFirst k.tasks with
  | none => rfl
  | some x => exact (congrArg List.length tasks_withWaiters).trans (WaitList.length_wakeFirst woken)

end Kernel

end Rtos
