import Mathlib.Data.List.TakeDrop
import Mathlib.Data.List.TakeWhile
import Rtos.Proofs.Linked
import Rtos.Proofs.Run
import Rtos.Proofs.TaskStep

/-!
# The order of the ready list

The ready list holds every task of the table once, the more urgent ones first and the older ones
first among those of one priority. A new task goes behind all of its priority, and nothing else moves
a task.
-/

namespace Rtos

/-- Task `a` stands before task `b`: it is more urgent, or as urgent and older. -/
def TaskTable.Precedes (tasks : List Task) (a b : TaskId) : Prop :=
  priority tasks b < priority tasks a ∨ priority tasks a = priority tasks b ∧ a.index < b.index

/-- The links spell the list `l`, which has all tasks in their order. -/
structure ReadyList.Spells (tasks : List Task) (ready : Option TaskId) (l : List TaskId) : Prop where
  linked : Linked (TaskTable.next tasks) none ready l
  members : ∀ t, t ∈ l ↔ t.index < tasks.length
  sorted : l.Pairwise (TaskTable.Precedes tasks)

def Kernel.InLine (k : Kernel) : Prop := ∃ l, ReadyList.Spells k.tasks k.ready l

namespace TaskTable

variable {tasks tasks' : List Task} {a b t : TaskId}

theorem Precedes.irrefl : ¬ Precedes tasks a a := by
  rintro (less | ⟨-, less⟩)
  · exact UInt8.lt_irrefl _ less
  · exact Nat.lt_irrefl _ less

theorem Precedes.priority_le (h : Precedes tasks a b) : priority tasks b ≤ priority tasks a := by
  rcases h with less | ⟨same, -⟩
  · exact UInt8.le_of_lt less
  · exact UInt8.le_of_eq same.symm

theorem Precedes.congr (ha : priority tasks' a = priority tasks a)
    (hb : priority tasks' b = priority tasks b) (h : Precedes tasks a b) : Precedes tasks' a b := by
  rwa [Precedes, ha, hb]

theorem next_update_self {link : Option TaskId} (known : a.index < tasks.length) :
    next (update tasks a ({ · with next := link })) a = link := by
  rw [next, getElem?_update, if_pos rfl, List.getElem?_eq_getElem known]
  rfl

theorem next_update_of_ne {f : Task → Task} (other : t ≠ a) :
    next (update tasks a f) t = next tasks t := by
  rw [next, getElem?_update, if_neg other, next]

end TaskTable

namespace ReadyList

open TaskTable

variable {tasks tasks' : List Task} {ready ready' : Option TaskId} {l : List TaskId}

namespace Spells

theorem nodup (h : Spells tasks ready l) : l.Nodup :=
  h.sorted.imp fun precedes same => (same ▸ precedes).irrefl

theorem length_le (h : Spells tasks ready l) : l.length ≤ tasks.length :=
  length_le_of_index_lt TaskId.index TaskId.index_injective h.nodup fun t => (h.members t).1

theorem order_eq (h : Spells tasks ready l) : order tasks ready = l :=
  h.linked.chain_eq h.length_le

theorem congr (h : Spells tasks ready l) (next : TaskTable.next tasks' = TaskTable.next tasks)
    (priority : TaskTable.priority tasks' = TaskTable.priority tasks)
    (size : tasks'.length = tasks.length) : Spells tasks' ready l where
  linked := next ▸ h.linked
  members t := size ▸ h.members t
  sorted := h.sorted.imp (.congr (congrFun priority _) (congrFun priority _))

end Spells

theorem linked_insert {id : TaskId} {before behind : List TaskId}
    (linked : Linked (next tasks) none ready (before ++ behind)) (nodup : (before ++ behind).Nodup)
    (new : id ∉ before ++ behind) (known : ∀ t ∈ id :: before, t.index < tasks.length)
    (split : (order tasks ready).span (fun t => priority tasks id ≤ priority tasks t) =
      (before, behind)) :
    Linked (next (insert tasks ready id).1) none (insert tasks ready id).2
      (before ++ id :: behind) := by
  have ahead : id.index < tasks.length := known id List.mem_cons_self
  rw [insert, split]
  dsimp only
  split
  · next last hlast =>
    have listed : last ∈ before := List.mem_of_getLast? hlast
    have other : id ≠ last := fun same => new (List.mem_append_left _ (same ▸ listed))
    have nonempty : before ≠ [] := List.ne_nil_of_mem listed
    have start : (if before = [] then some id else ready) = ready := if_neg nonempty
    rw [← start]
    refine linked.splice nodup ?_ ?_ ?_
    · rw [next_update_of_ne other, next_update_self ahead]
    · intro z hz
      obtain rfl : last = z := Option.some.inj (hlast.symm.trans hz)
      rw [next_update_self]
      rw [length_update]
      exact known last (List.mem_cons_of_mem _ listed)
    · intro b hb notLast
      have here : b ≠ last := fun same => notLast (hlast.trans (congrArg some same.symm))
      have there : b ≠ id := fun same => new (same ▸ hb)
      rw [next_update_of_ne here, next_update_of_ne there]
  · next hlast =>
    obtain rfl : before = [] := List.getLast?_eq_none_iff.1 hlast
    refine linked.splice nodup (next_update_self ahead) (fun z hz => ?_) fun b hb _ => ?_
    · cases hz
    · exact next_update_of_ne fun same => new (same ▸ hb)

theorem priority_insert {id : TaskId} : priority (insert tasks ready id).1 = priority tasks :=
  funext fun _ => congrArg (Option.getD · 0) (map_insert fun _ _ => rfl)

/-- A new task is put behind all tasks of its priority, and no other task moves. -/
theorem Spells.insert (h : Spells tasks ready l) (x : Task) : ∃ before behind, l = before ++ behind ∧
    Spells (insert (tasks ++ [x]) ready ⟨tasks.length⟩).1
      (insert (tasks ++ [x]) ready ⟨tasks.length⟩).2 (before ++ ⟨tasks.length⟩ :: behind) := by
  have size : (tasks ++ [x]).length = tasks.length + 1 := List.length_append
  have old (t : TaskId) (ht : t ∈ l) : (tasks ++ [x])[t.index]? = tasks[t.index]? :=
    List.getElem?_append_left ((h.members t).1 ht)
  have linked : Linked (next (tasks ++ [x])) none ready l := h.linked.congr fun t ht => by
    rw [next, old t ht, next]
  have priorities (t : TaskId) (ht : t ∈ l) : priority (tasks ++ [x]) t = priority tasks t := by
    rw [priority, old t ht, priority]
  have order : order (tasks ++ [x]) ready = l :=
    linked.chain_eq (size ▸ Nat.le_succ_of_le h.length_le)
  have sorted : l.Pairwise (Precedes (tasks ++ [x])) := h.sorted.imp_of_mem fun ha hb =>
    .congr (priorities _ ha) (priorities _ hb)
  -- The new task goes in front of the first one that is less urgent.
  let urgent (t : TaskId) : Bool :=
    priority (tasks ++ [x]) ⟨tasks.length⟩ ≤ priority (tasks ++ [x]) t
  have split : (ReadyList.order (tasks ++ [x]) ready).span urgent =
      (l.takeWhile urgent, l.dropWhile urgent) := by rw [order, List.span_eq_takeWhile_dropWhile]
  have whole : l.takeWhile urgent ++ l.dropWhile urgent = l := List.takeWhile_append_dropWhile
  have new : (⟨tasks.length⟩ : TaskId) ∉ l := fun listed => Nat.lt_irrefl _ ((h.members _).1 listed)
  refine ⟨l.takeWhile urgent, l.dropWhile urgent, whole.symm, ?_, ?_, ?_⟩
  · refine linked_insert (whole.symm ▸ linked) (whole.symm ▸ h.nodup) (whole.symm ▸ new) ?_ split
    intro t ht
    rw [size, Nat.lt_succ_iff]
    rcases List.mem_cons.1 ht with rfl | listed
    · exact Nat.le_refl _
    · exact Nat.le_of_lt ((h.members t).1 (List.takeWhile_subset _ listed))
  · intro t
    have same : t.index = tasks.length ↔ t = ⟨tasks.length⟩ :=
      ⟨fun same => TaskId.index_injective same, fun same => same ▸ rfl⟩
    rw [length_insert, size, Nat.lt_succ_iff_lt_or_eq, ← h.members, same]
    nth_rewrite 3 [← whole]
    simp only [List.mem_append, List.mem_cons]
    tauto
  · have parts := List.pairwise_append.1 (whole.symm ▸ sorted)
    -- The list is sorted, so whoever is behind that one is less urgent, too.
    have below (b : TaskId) (hb : b ∈ l.dropWhile urgent) :
        Precedes (tasks ++ [x]) ⟨tasks.length⟩ b := by
      have first : ∀ z ∈ (l.dropWhile urgent).head?, urgent z = false := by
        have := List.head?_dropWhile_not urgent l
        intro z hz
        rwa [hz] at this
      obtain ⟨z, behind, rest⟩ := List.exists_cons_of_ne_nil (List.ne_nil_of_mem hb)
      rw [rest] at first hb
      have less : priority (tasks ++ [x]) z < priority (tasks ++ [x]) ⟨tasks.length⟩ := by
        simpa [urgent] using first z rfl
      rcases List.mem_cons.1 hb with rfl | later
      · exact .inl less
      · have least := ((List.pairwise_cons.1 (rest ▸ parts.2.1)).1 b later).priority_le
        exact .inl (UInt8.lt_of_le_of_lt least less)
    have above (b : TaskId) (hb : b ∈ l.takeWhile urgent) :
        Precedes (tasks ++ [x]) b ⟨tasks.length⟩ := by
      have chosen : urgent b := List.mem_takeWhile_imp hb
      rcases UInt8.lt_or_eq_of_le (of_decide_eq_true chosen) with less | same
      · exact .inl less
      · exact .inr ⟨same.symm, (h.members b).1 (List.takeWhile_subset _ hb)⟩
    have merged : (l.takeWhile urgent ++ ⟨tasks.length⟩ :: l.dropWhile urgent).Pairwise
        (Precedes (tasks ++ [x])) := by
      refine List.pairwise_append.2 ⟨parts.1, List.pairwise_cons.2 ⟨below, parts.2.1⟩, ?_⟩
      intro a ha b hb
      rcases List.mem_cons.1 hb with rfl | hb
      · exact above a ha
      · exact parts.2.2 a ha b hb
    exact merged.imp (.congr (congrFun priority_insert _) (congrFun priority_insert _))

end ReadyList

def Outcome.enrolled : Outcome → Option (TaskId × UInt8)
  | ⟨.addTask _ priority _ _, some t⟩ => some (t, priority)
  | _ => none

namespace Kernel

variable {k k' : Kernel} {ch : Change}

/-- No task has moved on the ready list, and none was added to it. -/
structure InPlace (k k' : Kernel) : Prop where
  ready : k'.ready = k.ready
  next : TaskTable.next k'.tasks = TaskTable.next k.tasks
  priority : TaskTable.priority k'.tasks = TaskTable.priority k.tasks
  size : k'.tasks.length = k.tasks.length

theorem InPlace.of_same (tasks : k'.tasks = k.tasks) (ready : k'.ready = k.ready) : k.InPlace k' := by
  constructor <;> simp only [tasks, ready]

theorem InPlace.of_roster (roster : k'.roster = ch.apply k.roster) (ready : k'.ready = k.ready) :
    k.InPlace k' where
  ready := ready
  next := by
    rw [← TaskTable.next_bare, ← Kernel.roster, roster, Change.next_apply, Kernel.roster,
      TaskTable.next_bare]
  priority := by
    rw [← TaskTable.priority_bare, ← Kernel.roster, roster, Change.priority_apply, Kernel.roster,
      TaskTable.priority_bare]
  size := length_of_roster roster

theorem InLine.inPlace (h : k.InLine) (same : k.InPlace k') : k'.InLine := by
  obtain ⟨l, spells⟩ := h
  exact ⟨l, same.ready ▸ spells.congr same.next same.priority same.size⟩

theorem InLine.addTask (h : k.InLine) {id : TaskId} {name : String} {priority : UInt8}
    {sp : StackPointer} {stackBytes : Nat}
    (added : k.addTask name priority sp stackBytes = some (id, k')) : k'.InLine := by
  obtain ⟨l, spells⟩ := h
  obtain ⟨before, behind, -, spells⟩ := spells.insert (.fresh name priority sp stackBytes)
  obtain ⟨-, rfl, rfl⟩ := addTask_eq_some added
  exact ⟨_, spells⟩

end Kernel

theorem TaskStep.inPlace {β : Type} {a : Action β} {k k' : Kernel} (h : TaskStep a k k')
    (stays : a.recruits = false) : k.InPlace k' := by
  cases h with
  | turns came =>
    cases came with
    | rests same => exact .of_roster same.roster same.ready
    | decides ch _ _ after => exact .of_roster after.roster after.ready
  | switches target _ took =>
    have roster : k'.roster = Change.rest.apply k.roster := took.roster
    exact .of_roster roster took.ready
  | recruits is => exact nomatch is.symm.trans stays

theorem Action.inPlace_or_adds {β : Type} {a : Action β} {b : β} {c c' : Core}
    (result : a.toSection c = .ok b c') :
    Outcome.enrolled ⟨a, b⟩ = none ∧ c.kernel.InPlace c'.kernel ∨
      ∃ (t : TaskId) (name : String) (priority : UInt8) (sp : StackPointer) (stackBytes : Nat),
        Outcome.enrolled ⟨a, b⟩ = some (t, priority) ∧
        c.kernel.addTask name priority sp stackBytes = some (t, c'.kernel) := by
  cases a with
  | addTask name priority sp stackBytes =>
    rcases Section.adding_ok result with ⟨rfl, rfl⟩ | ⟨t, rfl, added⟩
    · exact .inl ⟨rfl, .of_same rfl rfl⟩
    · exact .inr ⟨t, name, priority, sp, stackBytes, rfl, added⟩
  | startWith idle =>
    obtain ⟨_, -, -, kernel⟩ := Section.startWith_ok result
    exact .inl ⟨rfl, kernel ▸ .of_same rfl rfl⟩
  | _ => exact .inl ⟨rfl, (Action.taskStep result).inPlace rfl⟩

theorem Kernel.InLine.action {β : Type} {a : Action β} {b : β} {c c' : Core} (h : c.kernel.InLine)
    (result : a.toSection c = .ok b c') : c'.kernel.InLine := by
  rcases Action.inPlace_or_adds result with ⟨-, same⟩ | ⟨_, _, _, _, _, -, added⟩
  · exact h.inPlace same
  · exact h.addTask added

namespace Reachable

theorem inLine {s : System} (h : Reachable s) : s.core.kernel.InLine := by
  refine h.log_induction (P := fun k _ => k.InLine) (fun clock => ⟨[], .nil, fun t => ?_, .nil⟩)
    fun s p c' _ acts inLine => ?_
  · exact ⟨nofun, fun below => (Nat.not_lt_zero _ below).elim⟩
  · exact inLine.action acts.result

end Reachable

end Rtos
