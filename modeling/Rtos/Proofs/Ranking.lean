import Mathlib.Data.List.Sort
import Rtos.Proofs.Interference
import Rtos.Proofs.ReadyOrder
import Rtos.Proofs.Script

/-!
# The ready list as a ranking

`ReadyList.ranking` sorts tasks by the priorities with which they were created, one after the other.
It is all that the ready list depends on: `Reachable.ranks` says that the list is this ranking at every
moment of a run, that its links lead through all tasks and end, and that a step moves no task on it
unless it adds one.
-/

namespace Rtos

namespace ReadyList

/-- A task ranks no lower than another one, each given by its priority and its index. -/
def Ranks (x y : UInt8 × Nat) : Prop := y.1 < x.1 ∨ x.1 = y.1 ∧ x.2 ≤ y.2

instance : DecidableRel Ranks := fun x y =>
  inferInstanceAs (Decidable (y.1 < x.1 ∨ x.1 = y.1 ∧ x.2 ≤ y.2))

/-- The tasks that were created with these priorities, one after the other, in the order in which
they rank: the more urgent ones first, and the older ones first among those of one priority. -/
def ranking (priorities : List UInt8) : List TaskId :=
  (priorities.zipIdx.insertionSort Ranks).map fun x => ⟨x.2⟩

instance : IsTrans (UInt8 × Nat) Ranks where
  trans x y z := by
    rintro (less | ⟨same, le⟩) (less' | ⟨same', le'⟩)
    · exact .inl (UInt8.lt_trans less' less)
    · exact .inl (same' ▸ less)
    · exact .inl (same ▸ less')
    · exact .inr ⟨same.trans same', Nat.le_trans le le'⟩

instance : Std.Total Ranks where
  total x y := by
    rcases UInt8.lt_or_le x.1 y.1 with less | le
    · exact .inr (.inl less)
    rcases UInt8.lt_or_eq_of_le le with less | same
    · exact .inl (.inl less)
    · exact (Nat.le_total x.2 y.2).imp (fun le => .inr ⟨same.symm, le⟩) fun le => .inr ⟨same, le⟩

end ReadyList

namespace Kernel

variable {k k' : Kernel}

def priorities (k : Kernel) : List UInt8 := k.tasks.map Task.priority

theorem priorities_eq :
    k.priorities = (List.range k.tasks.length).map fun i => TaskTable.priority k.tasks ⟨i⟩ := by
  apply List.ext_getElem
  · simp [priorities]
  · intro i known _
    have known : i < k.tasks.length := by simpa [priorities] using known
    simp [priorities, TaskTable.priority, known]

theorem InPlace.priorities (h : k.InPlace k') : k'.priorities = k.priorities := by
  rw [priorities_eq, priorities_eq, h.priority, h.size]

theorem priorities_addTask {t : TaskId} {name : String} {priority : UInt8} {sp : StackPointer}
    {stackBytes : Nat} (added : k.addTask name priority sp stackBytes = some (t, k')) :
    k'.priorities = k.priorities ++ [priority] := by
  have same : k'.priorities =
      (k.tasks ++ [Task.fresh name priority sp stackBytes]).map Task.priority := by
    apply List.ext_getElem?
    intro i
    rw [Kernel.priorities, List.getElem?_map, List.getElem?_map]
    exact map_addTask (f := Task.priority) (t := ⟨i⟩) added fun _ _ => rfl
  rw [same, List.map_append]
  rfl

end Kernel

namespace ReadyList

open TaskTable

variable {tasks : List Task} {ready : Option TaskId} {l l' : List TaskId}

theorem eq_of_precedes (sorted : l.Pairwise (Precedes tasks)) (sorted' : l'.Pairwise (Precedes tasks))
    (same : ∀ t, t ∈ l ↔ t ∈ l') : l = l' := by
  have nodup {l : List TaskId} (sorted : l.Pairwise (Precedes tasks)) : l.Nodup :=
    sorted.imp fun precedes eq => (eq ▸ precedes).irrefl
  have perm := (List.perm_ext_iff_of_nodup (nodup sorted) (nodup sorted')).2 same
  refine perm.eq_of_pairwise (fun a b _ _ ab ba => ?_) sorted sorted'
  rcases ab with less | ⟨equal, older⟩ <;> rcases ba with less' | ⟨equal', older'⟩
  · exact (UInt8.lt_asymm less less').elim
  · exact (UInt8.ne_of_lt less equal').elim
  · exact (UInt8.ne_of_lt less' equal).elim
  · exact (Nat.lt_asymm older older').elim

theorem mem_ranking {priorities : List UInt8} {t : TaskId} :
    t ∈ ranking priorities ↔ t.index < priorities.length := by
  simp only [ranking, List.mem_map, List.mem_insertionSort]
  constructor
  · rintro ⟨⟨p, i⟩, listed, rfl⟩
    exact (List.getElem?_eq_some_iff.1 (List.mem_zipIdx_iff_getElem?.1 listed)).1
  · intro known
    exact ⟨(priorities[t.index], t.index),
      List.mem_zipIdx_iff_getElem?.2 (List.getElem?_eq_getElem known), rfl⟩

theorem sorted_ranking : (ranking (tasks.map Task.priority)).Pairwise (Precedes tasks) := by
  let sorted := (tasks.map Task.priority).zipIdx.insertionSort Ranks
  have falls : sorted.Pairwise Ranks := List.pairwise_insertionSort Ranks _
  have apart : sorted.Pairwise fun x y => x.2 ≠ y.2 := by
    have perm := (List.perm_insertionSort Ranks (tasks.map Task.priority).zipIdx).map Prod.snd
    rw [List.zipIdx_map_snd] at perm
    exact List.pairwise_map.1 (perm.nodup_iff.2 List.nodup_range')
  have found {x : UInt8 × Nat} (hx : x ∈ sorted) : priority tasks ⟨x.2⟩ = x.1 := by
    have listed := List.mem_zipIdx_iff_getElem?.1 ((List.mem_insertionSort Ranks).1 hx)
    rw [List.getElem?_map] at listed
    rw [priority, listed, Option.getD_some]
  refine List.pairwise_map.2 ((falls.and apart).imp_of_mem fun {x y} hx hy => ?_)
  rintro ⟨less | ⟨same, le⟩, ne⟩
  · refine .inl ?_
    rwa [found hx, found hy]
  · refine .inr ⟨?_, Nat.lt_of_le_of_ne le ne⟩
    rwa [found hx, found hy]

theorem Spells.eq_ranking (h : Spells tasks ready l) : l = ranking (tasks.map Task.priority) := by
  refine eq_of_precedes h.sorted sorted_ranking fun t => ?_
  rw [h.members, mem_ranking, List.length_map]

end ReadyList

example : ReadyList.ranking [1, 2, 1, 2] = [⟨1⟩, ⟨3⟩, ⟨0⟩, ⟨2⟩] := by decide

/-- The priorities of the tasks that the sections of a log added, the oldest task first. -/
def newcomers (log : List Record) : List UInt8 :=
  log.reverse.filterMap fun p => p.outcome.enrolled.map Prod.snd

theorem newcomers_cons {log : List Record} {p : Record} :
    newcomers (p :: log) = newcomers log ++ (p.outcome.enrolled.map Prod.snd).toList := by
  rw [newcomers, List.reverse_cons, List.filterMap_append, ← newcomers]
  cases h : p.outcome.enrolled <;> simp [h]

def Outcome.turnsAway : Outcome → Bool
  | ⟨.addTask .., none⟩ => true
  | _ => false

inductive KernelCall.Recruits : KernelCall (Except Error TaskId) → Prop
  | createTask (entry : Entry) (arg : UInt64) (name : String) (priority : UInt8) (stack : Stack) :
      Recruits (.createTask entry arg name priority stack)
  | start : Recruits .start

/-- A task has taken its place on the ready list, among tasks that stay in theirs. -/
structure Kernel.Enrols (k : Kernel) (t : TaskId) (priority : UInt8) (k' : Kernel) : Prop where
  room : k.taskTableIsFull = false
  new : t.index = k.tasks.length
  size : k'.tasks.length = k.tasks.length + 1
  order : ∃ before behind, k.readyOrder = before ++ behind ∧ k'.readyOrder = before ++ t :: behind
  priority : TaskTable.priority k'.tasks t = priority
  others : ∀ u, u ≠ t → TaskTable.priority k'.tasks u = TaskTable.priority k.tasks u

/-- The ready list is the ranking of the tasks. -/
structure System.Ranked (s : System) : Prop where
  /-- The links lead from the head of the list through its tasks and end. -/
  linked : Linked (TaskTable.next s.core.kernel.tasks) none s.core.kernel.ready
    s.core.kernel.readyOrder
  /-- So they do from any task on. -/
  onward : ∀ before t behind, s.core.kernel.readyOrder = before ++ t :: behind →
    Linked (TaskTable.next s.core.kernel.tasks) none (TaskTable.next s.core.kernel.tasks t) behind
  once : s.core.kernel.readyOrder.Nodup
  members : ∀ t, t ∈ s.core.kernel.readyOrder ↔ t.index < s.core.kernel.tasks.length
  sorted : s.core.kernel.readyOrder.Pairwise (TaskTable.Precedes s.core.kernel.tasks)
  /-- It depends on the creations alone. -/
  order : s.core.kernel.readyOrder = ReadyList.ranking (newcomers s.log)
  /-- No step moves a task, but one that adds a task puts it in its place. -/
  kept : ∀ s', System.Step s s' →
    newcomers s'.log = newcomers s.log ∧ s.core.kernel.InPlace s'.core.kernel ∨
      ∃ p t priority, s'.log = p :: s.log ∧ p.outcome.enrolled = some (t, priority) ∧
        s.core.kernel.Enrols t priority s'.core.kernel
  /-- A section that finds no room for its task changes nothing. -/
  turnedAway : ∀ s' p, System.Step s s' → s'.log = p :: s.log → p.outcome.turnsAway →
    s.core.kernel.taskTableIsFull ∧ s'.core.kernel = s.core.kernel
  /-- No section of a creation that fails changes anything. -/
  refused : ∀ (who : Caller) (call : KernelCall (Except Error TaskId)) (ph : Phase) (e : Error),
    call.Recruits → ⟨who, call, .done (.error e), ph⟩ ∈ s.calls →
      ∃ trail, OpenCall.Came s.log ⟨who, call, .done (.error e), ph⟩ trail ∧ ∀ p ∈ trail, p.Idle

namespace Kernel

variable {k k' : Kernel}

theorem InLine.enrols (h : k.InLine) {t : TaskId} {name : String} {priority : UInt8}
    {sp : StackPointer} {stackBytes : Nat}
    (added : k.addTask name priority sp stackBytes = some (t, k')) : k.Enrols t priority k' := by
  obtain ⟨l, spells⟩ := h
  obtain ⟨before, behind, parts, spells'⟩ := spells.insert (.fresh name priority sp stackBytes)
  have looked (u : TaskId) : TaskTable.priority k'.tasks u =
      TaskTable.priority (k.tasks ++ [.fresh name priority sp stackBytes]) u :=
    congrArg (Option.getD · 0) (map_addTask added fun _ _ => rfl)
  obtain ⟨room, rfl, rfl⟩ := addTask_eq_some added
  refine ⟨Bool.eq_false_iff.2 room, rfl, length_addTask added,
    ⟨before, behind, ?_, spells'.order_eq⟩, ?_, fun u other => ?_⟩
  · exact spells.order_eq.trans parts
  · rw [looked]
    simp [TaskTable.priority, Task.fresh]
  · rw [looked, TaskTable.priority, TaskTable.priority]
    by_cases old : u.index < k.tasks.length
    · rw [List.getElem?_append_left old]
    · have beyond : k.tasks.length + 1 ≤ u.index :=
        Nat.lt_of_le_of_ne (Nat.le_of_not_lt old) fun same => other (TaskId.index_injective same.symm)
      rw [List.getElem?_eq_none (by simpa using beyond), List.getElem?_eq_none (Nat.le_of_not_lt old)]

end Kernel

namespace Reachable

variable {s s' : System}

theorem priorities_eq (h : Reachable s) : s.core.kernel.priorities = newcomers s.log := by
  refine h.log_induction (P := fun k log => k.priorities = newcomers log) (fun _ => rfl)
    fun s p c' _ acts same => ?_
  rw [newcomers_cons, ← same]
  rcases Action.inPlace_or_adds acts.result with ⟨none, place⟩ | ⟨t, _, priority, _, _, new, added⟩
  · rw [none, place.priorities]
    exact (List.append_nil _).symm
  · rw [new]
    exact Kernel.priorities_addTask added

theorem inPlace_or_enrols (h : Reachable s) (step : System.Step s s') :
    newcomers s'.log = newcomers s.log ∧ s.core.kernel.InPlace s'.core.kernel ∨
      ∃ p t priority, s'.log = p :: s.log ∧ p.outcome.enrolled = some (t, priority) ∧
        s.core.kernel.Enrols t priority s'.core.kernel := by
  rcases step.acts with ⟨kernel, log⟩ | ⟨p, c', acts, kernel, log⟩
  · exact .inl ⟨congrArg newcomers log, kernel ▸ .of_same rfl rfl⟩
  rw [kernel]
  rcases Action.inPlace_or_adds acts.result with ⟨none, place⟩ | ⟨t, _, priority, _, _, new, added⟩
  · refine .inl ⟨?_, place⟩
    rw [log, newcomers_cons, none]
    exact List.append_nil _
  · exact .inr ⟨p, t, priority, log, new, h.inLine.enrols added⟩

end Reachable

theorem Action.full_of_turnsAway {β : Type} {a : Action β} {b : β} {c c' : Core}
    (result : a.toSection c = .ok b c') (away : Outcome.turnsAway ⟨a, b⟩) :
    c.kernel.taskTableIsFull ∧ c'.kernel = c.kernel := by
  cases a with
  | addTask name priority sp stackBytes =>
    rcases Section.adding_eq_ok result with ⟨-, refuses, rfl⟩ | ⟨_, _, rfl, -, -⟩
    · exact ⟨Kernel.addTask_eq_none refuses, rfl⟩
    · cases away
  | _ => cases away

theorem KernelCall.Recruits.follows {call : KernelCall (Except Error TaskId)} (h : call.Recruits)
    (who : Caller) : Follows who call AnySection AnyFault call.program
      (fun r trail => ∀ e, r = .error e → ∀ p ∈ trail, p.Idle) [] := by
  have idle {own : List Passage} (h : ∀ p ∈ own, p.Idle) : ∀ p ∈ own ++ [], p.Idle := by
    rwa [List.append_nil]
  cases h with
  | createTask => exact .createTask (fun _ h _ _ => idle h) fun _ _ _ failed => nomatch failed
  | start =>
    refine .bind (.createTask (fun _ h _ _ => idle h) fun _ t => ?_)
    exact .bind (Follows.free.imp fun sp _ _ _ _ _ _ failed => nomatch failed)

/-- In every run the ready list has all tasks once, by falling priority and then by age. It depends on
the creations alone, and nothing but a creation that is not refused changes it. -/
theorem Reachable.ranks {s : System} (h : Reachable s) : s.Ranked := by
  obtain ⟨l, spells⟩ := h.inLine
  have order : s.core.kernel.readyOrder = l := spells.order_eq
  constructor
  case linked => exact order ▸ spells.linked
  case onward =>
    intro before t behind parts
    obtain ⟨mid, -, rest⟩ := (parts ▸ order ▸ spells.linked).split
    exact rest.start_cons.2
  case once => exact order ▸ spells.nodup
  case members => exact order ▸ spells.members
  case sorted => exact order ▸ spells.sorted
  case order => rw [order, spells.eq_ranking, ← h.priorities_eq, Kernel.priorities]
  case kept => exact fun s' step => h.inPlace_or_enrols step
  case turnedAway =>
    intro s' p step log away
    rcases step.acts with ⟨-, same⟩ | ⟨p', c', acts, kernel, log'⟩
    · exact (List.cons_ne_self p _ (log.symm.trans same)).elim
    · obtain rfl : p = p' := (List.cons.inj (log.symm.trans log')).1
      rw [kernel]
      exact Action.full_of_turnsAway acts.result away
  case refused =>
    intro who call ph e recruits mine
    obtain ⟨trail, came⟩ := h.came _ mine
    exact ⟨trail, came, came.performs.follows (recruits.follows who) e rfl⟩

def Script.recruits : List Move :=
  creates "a" 1 ++ creates "b" 2 ++ starts ++
    .begins (.thread (some ⟨1⟩)) (.createTask .worker 0 "c" 1 (.fixed 64)) :: goesOn 9 ++
    calls .handler .tick

/-- The third task stands behind the first one, which is as urgent. -/
theorem ranks_recruits : newcomers (System.run Script.recruits).log = [1, 2, 1] ∧
    (System.run Script.recruits).core.kernel.readyOrder = [⟨1⟩, ⟨0⟩, ⟨2⟩] ∧
    (System.run Script.recruits).Ranked :=
  ⟨by decide +kernel, by decide +kernel, (System.reachable_run Script.recruits).ranks⟩

end Rtos
