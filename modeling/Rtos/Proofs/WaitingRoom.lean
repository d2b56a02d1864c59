import Mathlib.Data.Fintype.Basic
import Mathlib.Logic.Function.Basic
import Rtos.Proofs.Waiting

/-!
# Lists that share one table of tasks

Any number of lists of waiters run through the links of one table. A `WaitingRoom` is what is kept:
the first and last member of each list, and the records. What it stands for are `Lines` of tasks, and
records without links. As long as only tasks on no list are added, an operation of the room does to
its lines what the same operation does to plain lists, and `InOrder.refines` says so of a run of them.
The semaphores and mutexes of a kernel are such a room.
-/

namespace Rtos

variable {ι : Type}

inductive WaitOp (ι : Type)
  | add (i : ι) (t : TaskId) (ticks : Int32)
  | remove (i : ι) (t : TaskId)
  | wakeFirst (i : ι)

namespace WaitOp

def list : WaitOp ι → ι
  | add i _ _ | remove i _ | wakeFirst i => i

def newcomer : WaitOp ι → Option TaskId
  | add _ t _ => some t
  | _ => none

end WaitOp

namespace Task

def unlinked (x : Task) : Task := { x with nextWaiter := none }

def queued (ticks : Int32) (x : Task) : Task :=
  if ticks = 0 then { x with status := .timeout } else x.block ticks

end Task

/-- Makes the steps one after the other, and lists what they return. -/
def inTurn {σ α β : Type} (step : σ → α → σ × β) : σ → List α → σ × List β
  | s, [] => (s, [])
  | s, a :: as =>
    let (s, b) := step s a
    let (s, bs) := inTurn step s as
    (s, b :: bs)

/-- Lines of tasks, the one that came first in front, and records that hold no links. -/
structure Lines (ι : Type) where
  members : ι → List TaskId
  tasks : List Task

namespace Lines

def isAsleep (l : Lines ι) (t : TaskId) : Bool := l.tasks[t.index]?.any (·.state = .sleep)

def Admits (l : Lines ι) : WaitOp ι → Prop
  | .add _ t _ => t.index < l.tasks.length ∧ ∀ i, t ∉ l.members i
  | _ => True

instance [Fintype ι] (l : Lines ι) : ∀ op, Decidable (l.Admits op)
  | .add _ t _ => inferInstanceAs (Decidable (t.index < l.tasks.length ∧ ∀ i, t ∉ l.members i))
  | .remove _ _ | .wakeFirst _ => .isTrue trivial

variable [DecidableEq ι] (l : Lines ι)

/-- A task is added at the end, and a removed one leaves a gap that closes. The first one is woken and
returned if it is asleep, and nothing happens if it is not. -/
def step : WaitOp ι → Lines ι × Option TaskId
  | .add i t ticks =>
    ({ members := Function.update l.members i (l.members i ++ [t])
       tasks := TaskTable.update l.tasks t (Task.queued ticks) }, none)
  | .remove i t =>
    ({ l with members := Function.update l.members i ((l.members i).erase t) }, none)
  | .wakeFirst i =>
    match l.members i with
    | [] => (l, none)
    | t :: rest =>
      if l.isAsleep t then
        ({ members := Function.update l.members i rest
           tasks := TaskTable.update l.tasks t (Task.wake .ok) }, some t)
      else (l, none)

def run : List (WaitOp ι) → Lines ι × List (Option TaskId) := inTurn step l

def AdmitsAll (l : Lines ι) : List (WaitOp ι) → Prop
  | [] => True
  | op :: ops => l.Admits op ∧ (l.step op).1.AdmitsAll ops

instance decidableAdmitsAll [Fintype ι] (l : Lines ι) :
    ∀ ops, Decidable (l.AdmitsAll ops)
  | [] => .isTrue trivial
  | op :: ops =>
    have := (l.step op).1.decidableAdmitsAll ops
    inferInstanceAs (Decidable (l.Admits op ∧ (l.step op).1.AdmitsAll ops))

end Lines

/-- Lists of waiters over one table. -/
structure WaitingRoom (ι : Type) where
  lists : ι → WaitList
  tasks : List Task

namespace WaitingRoom

section

variable (r : WaitingRoom ι)

def line (i : ι) : List TaskId := (r.lists i).toList r.tasks

def lines : Lines ι := ⟨r.line, r.tasks.map Task.unlinked⟩

/-- The links hold the lists, and no two lists have a member in common. -/
structure InOrder : Prop where
  holds : ∀ i, (r.lists i).Holds r.tasks (r.line i)
  apart : ∀ i j t, t ∈ r.line i → t ∈ r.line j → i = j

/-- What an operation leaves as it is: the other lists, and every task that neither is on the list
nor is added to it. -/
structure Spares (op : WaitOp ι) (r' : WaitingRoom ι) : Prop where
  lists : ∀ j ≠ op.list, r'.lists j = r.lists j
  lines : ∀ j ≠ op.list, r'.line j = r.line j
  tasks : ∀ u, u ∉ r.line op.list → op.newcomer ≠ some u → r'.tasks[u.index]? = r.tasks[u.index]?
  size : r'.tasks.length = r.tasks.length

end

section

variable [DecidableEq ι] (r : WaitingRoom ι)

def set (i : ι) (w : WaitList) (tasks : List Task) : WaitingRoom ι :=
  ⟨Function.update r.lists i w, tasks⟩

def step : WaitOp ι → WaitingRoom ι × Option TaskId
  | .add i t ticks =>
    let (w, tasks) := (r.lists i).add r.tasks t ticks
    (r.set i w tasks, none)
  | .remove i t =>
    let (w, tasks) := (r.lists i).remove r.tasks t
    (r.set i w tasks, none)
  | .wakeFirst i =>
    match (r.lists i).wakeFirst r.tasks with
    | none => (r, none)
    | some (t, w, tasks) => (r.set i w tasks, some t)

def run : List (WaitOp ι) → WaitingRoom ι × List (Option TaskId) := inTurn step r

end

variable {r : WaitingRoom ι}

theorem InOrder.fresh (ι : Type) (tasks : List Task) :
    (⟨fun _ => {}, tasks⟩ : WaitingRoom ι).InOrder := by
  have none (i : ι) : (⟨fun _ => {}, tasks⟩ : WaitingRoom ι).line i = [] :=
    WaitList.Holds.empty.toList_eq
  constructor
  case holds =>
    intro i
    rw [none]
    exact .empty
  case apart =>
    intro i j t ht
    rw [none] at ht
    exact nomatch ht

end WaitingRoom

namespace WaitList

variable {w : WaitList} {tasks : List Task} {t u : TaskId} {ticks : Int32}

theorem unlinked_add : (w.add tasks t ticks).2.map Task.unlinked =
    TaskTable.update (tasks.map Task.unlinked) t (Task.queued ticks) := by
  refine WaitList.map_add (fun _ _ => rfl) fun x => ?_
  unfold Task.queued
  split <;> rfl

theorem getElem?_remove (hu : u ∉ w.toList tasks) :
    (w.remove tasks t).2[u.index]? = tasks[u.index]? := by
  simp only [WaitList.remove]
  split
  · next ht =>
    have hut : u ≠ t := fun h => hu (h ▸ ht)
    split
    · next p hp =>
      have hup : u ≠ p := fun h => hu (h ▸ mem_of_memberBefore hp)
      rw [TaskTable.getElem?_update, if_neg hut, TaskTable.getElem?_update, if_neg hup]
    · rw [TaskTable.getElem?_update, if_neg hut]
  · rfl

end WaitList

namespace WaitingRoom

variable {r : WaitingRoom ι} {i : ι} {t : TaskId}

theorem isAsleep_lines : r.lines.isAsleep t = true ↔
    ∃ status, TaskTable.standing r.tasks t = some (.sleep, status) := by
  simp only [Lines.isAsleep, lines, TaskTable.standing, List.getElem?_map]
  cases r.tasks[t.index]? <;> simp [Task.unlinked]

variable [DecidableEq ι]

/-- The operation does to the room what it does to its lines. -/
structure Mirrors (r : WaitingRoom ι) (op : WaitOp ι) : Prop where
  order : (r.step op).1.InOrder
  lines : (r.step op).1.lines = (r.lines.step op).1
  returns : (r.step op).2 = (r.lines.step op).2
  spares : r.Spares op (r.step op).1

theorem InOrder.change (h : r.InOrder) (op : WaitOp ι) {w : WaitList} {tasks : List Task}
    {L : List TaskId} (holds : w.Holds tasks L) (size : tasks.length = r.tasks.length)
    (members : ∀ t ∈ L, t ∈ r.line op.list ∨ op.newcomer = some t)
    (new : ∀ t, op.newcomer = some t → ∀ j, t ∉ r.line j)
    (others : ∀ u, u ∉ r.line op.list → op.newcomer ≠ some u →
      tasks[u.index]? = r.tasks[u.index]?) :
    (r.set op.list w tasks).InOrder ∧
      (r.set op.list w tasks).line = Function.update r.line op.list L ∧
      r.Spares op (r.set op.list w tasks) := by
  have elsewhere (j : ι) (hj : j ≠ op.list) (t : TaskId) (ht : t ∈ r.line j) :
      t ∉ r.line op.list ∧ op.newcomer ≠ some t :=
    ⟨fun ht' => hj (h.apart j op.list t ht ht'), fun hn => new t hn j ht⟩
  have list (j : ι) :
      ((r.set op.list w tasks).lists j).Holds tasks (Function.update r.line op.list L j) := by
    by_cases hj : j = op.list
    · subst hj
      simpa [set] using holds
    · simp only [set, Function.update_of_ne hj]
      refine (h.holds j).congr (Nat.le_of_eq size.symm) fun t ht => ?_
      obtain ⟨out, old⟩ := elsewhere j hj t ht
      rw [TaskTable.nextWaiter, others t out old, TaskTable.nextWaiter]
  have line : (r.set op.list w tasks).line = Function.update r.line op.list L :=
    funext fun j => (list j).toList_eq
  have stranger (j : ι) (hj : j ≠ op.list) (t : TaskId) (ht : t ∈ L) : t ∉ r.line j := by
    intro ht'
    obtain ⟨out, old⟩ := elsewhere j hj t ht'
    exact (members t ht).elim out old
  refine ⟨?_, line, ?_⟩
  · constructor
    case holds =>
      intro j
      rw [line]
      exact list j
    case apart =>
      intro j j' t ht ht'
      rw [line] at ht ht'
      by_cases hj : j = op.list
      · by_cases hj' : j' = op.list
        · exact hj.trans hj'.symm
        · rw [hj, Function.update_self] at ht
          rw [Function.update_of_ne hj'] at ht'
          exact (stranger j' hj' t ht ht').elim
      · rw [Function.update_of_ne hj] at ht
        by_cases hj' : j' = op.list
        · rw [hj', Function.update_self] at ht'
          exact (stranger j hj t ht' ht).elim
        · rw [Function.update_of_ne hj'] at ht'
          exact h.apart j j' t ht ht'
  · constructor
    case lists => exact fun j hj => Function.update_of_ne hj ..
    case lines =>
      intro j hj
      rw [line, Function.update_of_ne hj]
    case tasks => exact others
    case size => exact size

theorem InOrder.add (h : r.InOrder) {ticks : Int32} (may : r.lines.Admits (.add i t ticks)) :
    r.Mirrors (.add i t ticks) := by
  obtain ⟨known, out⟩ := may
  have known : t.index < r.tasks.length := by simpa [lines] using known
  have change := h.change (.add i t ticks) ((h.holds i).append (out i) known ticks)
    WaitList.length_add (fun u hu => ?_) (fun u hu => ?_) fun u hu hut => ?_
  · obtain ⟨order, line, spares⟩ := change
    exact ⟨order, congrArg₂ Lines.mk line WaitList.unlinked_add, rfl, spares⟩
  · rcases List.mem_append.1 hu with hu | hu
    · exact .inl hu
    · rw [List.mem_singleton.1 hu]
      exact .inr rfl
  · cases hu
    exact out
  · exact WaitList.getElem?_add (fun hl => hu ((h.holds i).mem_of_last hl))
      fun he => hut (congrArg some he.symm)

theorem InOrder.mirrors_of_same (h : r.InOrder) {op : WaitOp ι} (same : r.step op = (r, none))
    (same' : r.lines.step op = (r.lines, none)) : r.Mirrors op := by
  constructor
  case order => rwa [same]
  case lines => rw [same, same']
  case returns => rw [same, same']
  case spares =>
    rw [same]
    exact ⟨fun _ _ => rfl, fun _ _ => rfl, fun _ _ _ => rfl, rfl⟩

theorem step_remove_of_notMem (ht : t ∉ r.line i) : r.step (.remove i t) = (r, none) := by
  have same : (r.lists i).remove r.tasks t = (r.lists i, r.tasks) := by
    simp only [WaitList.remove]
    exact if_neg ht
  simp only [step, same, set, Function.update_eq_self]

theorem InOrder.remove (h : r.InOrder) : r.Mirrors (.remove i t) := by
  by_cases ht : t ∈ r.line i
  · obtain ⟨holds, size, -, -, -⟩ := (h.holds i).remove ht
    obtain ⟨order, line, spares⟩ := h.change (.remove i t) holds size
      (fun u hu => .inl (List.mem_of_mem_erase hu)) (fun u hu => nomatch hu)
      fun u hu _ => WaitList.getElem?_remove hu
    exact ⟨order, congrArg₂ Lines.mk line (WaitList.map_remove fun _ _ => rfl), rfl, spares⟩
  · refine h.mirrors_of_same (step_remove_of_notMem ht) ?_
    simp only [Lines.step, lines, List.erase_of_not_mem ht, Function.update_eq_self]

theorem step_wakeFirst_of_none (h : (r.step (.wakeFirst i)).2 = none) :
    (r.step (.wakeFirst i)).1 = r := by
  simp only [step] at h ⊢
  split
  · rfl
  · next hw =>
    rw [hw] at h
    exact nomatch h

theorem InOrder.wakeFirst (h : r.InOrder) : r.Mirrors (.wakeFirst i) := by
  rcases (h.holds i).wakeFirst with
    ⟨none, awake⟩ | ⟨t, rest, w, tasks, status, woken, list, asleep, holds, size, -⟩
  · refine h.mirrors_of_same (by simp only [step, none]) ?_
    simp only [Lines.step]
    split
    · rfl
    · next t rest hl =>
      have hl : r.line i = t :: rest := hl
      rw [if_neg]
      intro asleep
      obtain ⟨status, asleep⟩ := isAsleep_lines.1 asleep
      exact awake t (by rw [hl]; rfl) status asleep
  · have here : r.step (.wakeFirst i) = (r.set i w tasks, some t) := by simp only [step, woken]
    have there : r.lines.step (.wakeFirst i) =
        ({ members := Function.update r.line i rest
           tasks := TaskTable.update r.lines.tasks t (Task.wake .ok) }, some t) := by
      have hl : r.lines.members i = t :: rest := list
      simp only [Lines.step, hl, isAsleep_lines.2 ⟨status, asleep⟩, ↓reduceIte]
      rfl
    obtain ⟨-, -, -, writes⟩ := WaitList.wakeFirst_eq_some woken
    have change := h.change (.wakeFirst i) holds size (fun u hu => .inl ?_)
      (fun u hu => nomatch hu) fun u hu _ => ?_
    · obtain ⟨order, line, spares⟩ := change
      refine ⟨?_, ?_, ?_, ?_⟩ <;> rw [here]
      · exact order
      · rw [there]
        refine congrArg₂ Lines.mk line ?_
        rw [writes]
        exact TaskTable.map_update fun _ => rfl
      · rw [there]
      · exact spares
    · rw [WaitOp.list, list]
      exact List.mem_cons_of_mem t hu
    · have hut : u ≠ t := by
        rintro rfl
        refine hu ?_
        rw [WaitOp.list, list]
        exact List.mem_cons_self
      rw [writes, TaskTable.getElem?_update, if_neg hut]

theorem InOrder.wakes_iff (h : r.InOrder) : (r.step (.wakeFirst i)).2 = some t ↔
    (r.line i).head? = some t ∧
      ∃ status, TaskTable.standing r.tasks t = some (.sleep, status) := by
  rw [h.wakeFirst.returns, ← isAsleep_lines]
  have same : r.lines.members i = r.line i := rfl
  cases list : r.line i with
  | nil => simp [Lines.step, same, list]
  | cons first rest =>
    have wakes : (r.lines.step (.wakeFirst i)).2 =
        if r.lines.isAsleep first then some first else none := by
      simp only [Lines.step, same, list]
      split <;> rfl
    rw [wakes, List.head?_cons]
    split
    · next asleep => exact ⟨fun eq => ⟨eq, Option.some.inj eq ▸ asleep⟩, And.left⟩
    · next awake =>
      refine ⟨fun eq => (Option.some_ne_none _ eq.symm).elim, ?_⟩
      rintro ⟨eq, asleep⟩
      exact (awake (Option.some.inj eq ▸ asleep)).elim

theorem InOrder.mirrors (h : r.InOrder) {op : WaitOp ι} (may : r.lines.Admits op) :
    r.Mirrors op := by
  cases op with
  | add i t ticks => exact h.add may
  | remove i t => exact h.remove
  | wakeFirst i => exact h.wakeFirst

/-- The lists are plain lists with their ends on record. -/
structure Fifo (r : WaitingRoom ι) : Prop where
  order : r.InOrder
  /-- The links of a list lead through its members and end. -/
  linked : ∀ i, Linked (TaskTable.nextWaiter r.tasks) none (r.lists i).first (r.line i)
  last : ∀ i, (r.lists i).last = (r.line i).getLast?
  nodup : ∀ i, (r.line i).Nodup
  /-- A task that is not on the list is not removed from it. -/
  absent : ∀ i t, t ∉ r.line i → r.step (.remove i t) = (r, none)
  /-- The first task is woken if it is asleep. -/
  wakes : ∀ i t, (r.step (.wakeFirst i)).2 = some t ↔ (r.line i).head? = some t ∧
    ∃ status, TaskTable.standing r.tasks t = some (.sleep, status)
  /-- Where nobody is woken, nothing happens. -/
  unwoken : ∀ i, (r.step (.wakeFirst i)).2 = none → (r.step (.wakeFirst i)).1 = r
  spares : ∀ op, r.lines.Admits op → r.Spares op (r.step op).1

theorem InOrder.fifo (h : r.InOrder) : r.Fifo := by
  constructor
  case order => exact h
  case linked => exact fun i => (h.holds i).strung.linked
  case last => exact fun i => (h.holds i).strung.last_eq
  case nodup => exact fun i => (h.holds i).strung.nodup
  case absent => exact fun i t => step_remove_of_notMem
  case wakes => exact fun i t => h.wakes_iff
  case unwoken => exact fun i => step_wakeFirst_of_none
  case spares => exact fun op may => (h.mirrors may).spares

/-- The room does what its lines do. -/
theorem InOrder.refines (h : r.InOrder) {ops : List (WaitOp ι)} (may : r.lines.AdmitsAll ops) :
    (r.run ops).1.lines = (r.lines.run ops).1 ∧ (r.run ops).2 = (r.lines.run ops).2 ∧
      (r.run ops).1.Fifo := by
  induction ops generalizing r with
  | nil => exact ⟨rfl, rfl, h.fifo⟩
  | cons op ops ih =>
    obtain ⟨first, rest⟩ := may
    have mirrors := h.mirrors first
    rw [← mirrors.lines] at rest
    obtain ⟨lines, returns, fifo⟩ := ih mirrors.order rest
    refine ⟨?_, ?_, fifo⟩
    · rw [mirrors.lines] at lines
      exact lines
    · rw [mirrors.lines] at returns
      exact congrArg₂ List.cons mirrors.returns returns

def vacant : WaitingRoom (Fin 2) := ⟨fun _ => {}, List.replicate 5 (.fresh "w" 1 0 0)⟩

/-- Of three tasks the middle and the last one leave, and two come after that. One of these does not
sleep, so it is not woken when it has become the first. -/
def rounds : List (WaitOp (Fin 2)) :=
  [.add 0 ⟨0⟩ (-1), .add 0 ⟨1⟩ (-1), .add 0 ⟨2⟩ 7, .add 1 ⟨3⟩ 5, .remove 0 ⟨1⟩, .remove 0 ⟨2⟩,
    .add 0 ⟨4⟩ 0, .remove 0 ⟨3⟩, .add 0 ⟨2⟩ (-1), .wakeFirst 0, .wakeFirst 0, .remove 0 ⟨4⟩,
    .add 0 ⟨0⟩ (-1), .wakeFirst 1]

theorem refines_rounds : vacant.lines.AdmitsAll rounds ∧
    (vacant.lines.run rounds).1.members 0 = [⟨2⟩, ⟨0⟩] ∧
    (vacant.lines.run rounds).2.filterMap id = [⟨0⟩, ⟨3⟩] ∧
    (vacant.run rounds).1.lines = (vacant.lines.run rounds).1 ∧
    (vacant.run rounds).2 = (vacant.lines.run rounds).2 ∧ (vacant.run rounds).1.Fifo := by
  have may : vacant.lines.AdmitsAll rounds := by decide +kernel
  exact ⟨may, by decide +kernel, by decide +kernel, (InOrder.fresh (Fin 2) _).refines may⟩

end WaitingRoom

namespace Kernel

variable {k : Kernel} {w : Waitable} {t : TaskId}

def room (k : Kernel) : WaitingRoom Waitable := ⟨k.waitersOf, k.tasks⟩

theorem WaitsInOrder.room (h : k.WaitsInOrder) : k.room.InOrder := ⟨h.holds, h.apart⟩

theorem room_withWaiters {l : WaitList} {tasks : List Task} (hw : k.Has w) :
    (k.withWaiters w l tasks).room = k.room.set w l tasks := by
  refine congrArg₂ WaitingRoom.mk (funext fun w' => ?_) tasks_withWaiters
  by_cases h : w' = w
  · rw [h, waitersOf_withWaiters hw, Function.update_self]
  · rw [waitersOf_withWaiters_of_ne h, Function.update_of_ne h]
    rfl

theorem room_enlisted {ticks : Int32} (hw : k.Has w) :
    (k.enlisted w t ticks).room = (k.room.step (.add w t ticks)).1 := room_withWaiters hw

theorem room_unlisted (hw : k.Has w) :
    (k.unlisted w t).room = (k.room.step (.remove w t)).1 := room_withWaiters hw

theorem room_woken (hw : k.Has w) : (k.woken w).room = (k.room.step (.wakeFirst w)).1 := by
  simp only [woken, WaitingRoom.step, room]
  cases (k.waitersOf w).wakeFirst k.tasks with
  | none => rfl
  | some _ => exact room_withWaiters hw

/-- What the sections of a wait do to the lists of waiters, they do to plain lines. -/
theorem WaitsInOrder.mirrored (h : k.WaitsInOrder) (hw : k.Has w) :
    (∀ t ticks, k.room.lines.Admits (.add w t ticks) →
      (k.enlisted w t ticks).room.lines = (k.room.lines.step (.add w t ticks)).1) ∧
    (∀ t, (k.unlisted w t).room.lines = (k.room.lines.step (.remove w t)).1) ∧
    (k.woken w).room.lines = (k.room.lines.step (.wakeFirst w)).1 := by
  refine ⟨fun t ticks may => ?_, fun t => ?_, ?_⟩
  · rw [room_enlisted hw]
    exact (h.room.add may).lines
  · rw [room_unlisted hw]
    exact h.room.remove.lines
  · rw [room_woken hw]
    exact h.room.wakeFirst.lines

end Kernel

end Rtos
