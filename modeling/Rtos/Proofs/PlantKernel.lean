import Rtos.Proofs.Custody
import Rtos.Proofs.Extent
import Rtos.Proofs.PlantSystem

/-!
# The kernel of the plant

The code that boots has made all tasks and objects of the plant. From then on the kernel has what it
needs and gets nothing else: no section of the plant adds to it, and each queue keeps its semaphore
or its routine.
-/

namespace Rtos

open Pipeline

def Discipline.routine : Discipline → Option PutRoutine
  | task _ => none
  | driver d => d.put

@[simp] theorem Discipline.routine_more (d : Discipline) : d.more.routine = d.routine := by
  cases d <;> rfl

@[simp] theorem Discipline.routine_less (d : Discipline) : d.less.routine = d.routine := by
  cases d <;> rfl

/-- What kind of queue it is, which no put and no take changes. -/
def Queue.form (q : Queue) : Option SemId × Option PutRoutine :=
  (q.discipline.semaphore, q.discipline.routine)

def Action.furnishes {β : Type} : Action β → Bool
  | addTask .. | startWith _ | addQueue .. | addPool .. | setRoutines .. => true
  | _ => false

namespace Kernel

variable {k k' : Kernel} {q : QueueId}

def forms (k : Kernel) : List (Option SemId × Option PutRoutine) := k.queues.map Queue.form

theorem forms_set {x x' : Queue} (which : k.queues[q.index]? = some x) (same : x'.form = x.form)
    (queues : k'.queues = k.queues.set q.index x') : k'.forms = k.forms := by
  obtain ⟨hi, rfl⟩ := List.getElem?_eq_some_iff.1 which
  rw [forms, queues, List.map_set, same, ← List.map_set, List.set_getElem_self hi]
  rfl

theorem queueSemaphore_of_forms {x : Option SemId × Option PutRoutine}
    (h : k.forms[q.index]? = some x) : k.queueSemaphore q = .ok x.1 := by
  rw [forms, List.getElem?_map] at h
  obtain ⟨queue, found, rfl⟩ := Option.map_eq_some_iff.1 h
  rw [queueSemaphore_eq_ok, found]
  rfl

end Kernel

/-- Actions that add nothing keep the forms of the queues, and the number of slots. -/
theorem Action.keepsForms {β : Type} {a : Action β} {b : β} {c c' : Core}
    (result : a.toSection c = .ok b c') (keeps : a.furnishes = false) :
    c'.kernel.forms = c.kernel.forms ∧ c'.kernel.slots.length = c.kernel.slots.length := by
  have idle (still : c.kernel.Still c'.kernel) :
      c'.kernel.forms = c.kernel.forms ∧ c'.kernel.slots.length = c.kernel.slots.length :=
    ⟨congrArg (List.map Queue.form) still.queues, congrArg _ still.slots⟩
  have moves (moves : a.puts ≠ none ∨ Outcome.taken ⟨a, b⟩ ≠ none) :
      c'.kernel.forms = c.kernel.forms ∧ c'.kernel.slots.length = c.kernel.slots.length := by
    cases Action.moveStep result with
    | puts q m slot queue _ _ _ _ _ _ which _ slots queues =>
      refine ⟨Kernel.forms_set which ?_ queues, ?_⟩
      · exact Prod.ext queue.discipline.semaphore_more queue.discipline.routine_more
      · rw [slots, Queue.length_push, List.length_set]
    | takes q m slot queue queue' slots₁ d _ _ _ which pop _ _ _ how slots queues =>
      refine ⟨Kernel.forms_set which ?_ queues, ?_⟩
      · rcases how with ⟨-, rfl⟩ | ⟨-, -, rfl⟩
        · rfl
        · exact Prod.ext queue.discipline.semaphore_less queue.discipline.routine_less
      · rw [slots, List.length_set, Queue.length_pop pop]
    | still puts taken => exact (moves.elim (· puts) (· taken)).elim
    | adds _ _ puts _ taken => exact (moves.elim (· puts) (· taken)).elim
    | pools _ _ puts taken => exact (moves.elim (· puts) (· taken)).elim
    | hangs _ _ _ _ puts taken => exact (moves.elim (· puts) (· taken)).elim
  cases a with
  | enqueue q m => exact moves (.inl (Option.some_ne_none _))
  | dequeue q =>
    cases b with
    | none =>
      obtain ⟨_, -, ⟨-, -, rfl⟩ | ⟨_, _, _, _, _, -, -, -, taken, -⟩⟩ := Section.dequeue_ok result
      · exact ⟨rfl, rfl⟩
      · cases taken
    | some m => exact moves (.inr (Option.some_ne_none _))
  | pollDriver q =>
    cases b with
    | none =>
      obtain ⟨_, -, ⟨-, same, -⟩ | ⟨_, _, _, -, -, taken, -⟩⟩ := Section.pollDriver_ok result
      · rw [same]
        exact ⟨rfl, rfl⟩
      · cases taken
    | some m => exact moves (.inr (Option.some_ne_none _))
  | addQueue | addPool | setRoutines => cases keeps
  | _ => exact idle (Action.still result rfl)

theorem TaskStep.length {β : Type} {a : Action β} {k k' : Kernel} (h : TaskStep a k k')
    (recruits : a.recruits = false) : k'.tasks.length = k.tasks.length := by
  cases h with
  | turns came =>
    cases came with
    | rests same => exact Kernel.length_of_roster same.roster
    | decides _ _ _ after => exact Kernel.length_of_roster after.roster
  | switches _ _ took =>
    have roster : k'.roster = Change.rest.apply k.roster := took.roster
    exact Kernel.length_of_roster roster
  | recruits is => cases recruits.symm.trans is

/-- The kernel has the four tasks of the plant, its three queues, each with what belongs to it, the
mutex of the totals, and eight slots, all of them of the pool. -/
structure Kernel.Furnished (k : Kernel) : Prop where
  forms : k.forms = [(some ⟨0⟩, none), (some ⟨1⟩, none), (none, some (.transmit objects))]
  semaphores : ∀ s : SemId, s.index < 2 → k.Has (.semaphore s)
  mutex : k.Has (.mutex objects.totals)
  tasks : k.tasks.length = 4
  slots : k.slots.length = 8
  homes : ∀ id : MessageId, id.index < 8 → k.homeOf id = some objects.pool

namespace Kernel.Furnished

variable {k : Kernel} {c c' : Core}

theorem pool (h : k.Furnished) : k.queueSemaphore objects.pool = .ok (some ⟨0⟩) :=
  queueSemaphore_of_forms (x := (some ⟨0⟩, none)) (by rw [h.forms]; rfl)

theorem work (h : k.Furnished) : k.queueSemaphore objects.work = .ok (some ⟨1⟩) :=
  queueSemaphore_of_forms (x := (some ⟨1⟩, none)) (by rw [h.forms]; rfl)

theorem transmit (h : k.Furnished) : k.queueSemaphore objects.transmit = .ok none :=
  queueSemaphore_of_forms (x := (none, some (.transmit objects))) (by rw [h.forms]; rfl)

theorem home (h : k.Furnished) {id : MessageId} {home : QueueId} (hh : k.homeOf id = some home) :
    home = objects.pool := by
  have known : id.index < 8 := by
    obtain ⟨x, label, -⟩ := Option.map_eq_some_iff.1 hh
    exact h.slots ▸ lt_of_label label
  exact Option.some.inj (hh.symm.trans (h.homes id known))

theorem step {β : Type} {a : Action β} {b : β} (h : c.kernel.Furnished)
    (order : c.kernel.QueuesInOrder) (result : a.toSection c = .ok b c')
    (keeps : a.furnishes = false) : c'.kernel.Furnished where
  forms := (Action.keepsForms result keeps).1.trans h.forms
  semaphores s hs := (Action.waitStep result).has (h.semaphores s hs)
  mutex := (Action.waitStep result).has h.mutex
  tasks := by
    have recruits : a.recruits = false := by cases a <;> first | rfl | exact nomatch keeps
    exact ((Action.taskStep result).length recruits).trans h.tasks
  slots := (Action.keepsForms result keeps).2.trans h.slots
  homes id hid := ((Action.moveStep result).moves order).2.homeOf_eq (h.homes id hid)

end Kernel.Furnished

theorem furnished_plant : (System.run Script.plant).core.kernel.Furnished where
  forms := by decide +kernel
  semaphores s hs := by
    have two : 2 ≤ (System.run Script.plant).core.kernel.semaphores.length := by decide +kernel
    exact Nat.lt_of_lt_of_le hs two
  mutex := by
    have one : 0 < (System.run Script.plant).core.kernel.mutexes.length := by decide +kernel
    exact one
  tasks := by decide +kernel
  slots := by decide +kernel
  homes id hid := by
    have all : ∀ i < 8, (System.run Script.plant).core.kernel.homeOf ⟨i⟩ = some objects.pool := by
      decide +kernel
    exact all id.index hid

theorem Plant.furnished_started (clock : Clock) : (started clock).core.kernel.Furnished := by
  dsimp only [started]
  exact furnished_plant

end Rtos
