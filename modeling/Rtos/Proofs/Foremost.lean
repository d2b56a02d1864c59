import Rtos.Proofs.Run
import Rtos.Proofs.Script
import Rtos.Proofs.TaskStep

/-!
# The most urgent task runs

The task elected next, or else the current one, is runnable, and no runnable task has a higher
priority. One decision brings this about, whatever was elected before, as long as the ready list has
all tasks by falling priority. Every section that is over leaves it true, since a decision comes
right after each change to a task. So a switch never goes to a task that is not wanted.
-/

namespace Rtos

namespace Kernel

variable (k : Kernel)

/-- The task that has the processor once a switch that is due has been taken. -/
def chosen : Option TaskId := k.next.or k.current

structure Foremost (t : TaskId) : Prop where
  runnable : TaskTable.isRunnable k.tasks t
  highest : ∀ t', TaskTable.isRunnable k.tasks t' →
    TaskTable.priority k.tasks t' ≤ TaskTable.priority k.tasks t

def Settled : Prop := ∃ t, k.chosen = some t ∧ k.Foremost t

/-- Every task is on the ready list, by falling priority, and the current task is one of them. -/
structure ReadyInOrder : Prop where
  complete : ∀ t : TaskId, t.index < k.tasks.length → t ∈ k.readyOrder
  falling : k.readyOrder.Pairwise fun a b =>
    TaskTable.priority k.tasks b ≤ TaskTable.priority k.tasks a
  known : ∀ t, k.current = some t → t.index < k.tasks.length

instance : Decidable k.ReadyInOrder :=
  decidable_of_iff ((∀ i < k.tasks.length, ⟨i⟩ ∈ k.readyOrder) ∧
      (k.readyOrder.Pairwise fun a b =>
        TaskTable.priority k.tasks b ≤ TaskTable.priority k.tasks a) ∧
      ∀ t ∈ k.current, t.index < k.tasks.length)
    ⟨fun ⟨complete, falling, known⟩ => ⟨fun t => complete t.index, falling, known⟩,
      fun h => ⟨fun i => h.complete ⟨i⟩, h.falling, h.known⟩⟩

def AnyUp : Prop := ∃ t, TaskTable.isRunnable k.tasks t

def ElectsAnother : Prop := ∀ t, k.next = some t → k.current ≠ some t

end Kernel

namespace System

/-- A run that adds no task and does not start the scheduler, in which some task can always run. -/
inductive Continues (s : System) : System → Prop
  | refl : Continues s s
  | step {s₁ s₂ : System} (before : Continues s s₁) (step : System.Step s₁ s₂)
      (recruits : ∀ p, s₂.log = p :: s₁.log → p.outcome.action.recruits = false)
      (up : s₂.core.kernel.AnyUp) : Continues s s₂

end System

/-- What comes of a switch that is taken now: either the current task is the most urgent one, and
nothing happens, or another one is, which becomes the current task. -/
inductive Core.Switches (sp : StackPointer) (c : Core) : Prop
  | dropped (t : TaskId) (current : c.kernel.current = some t) (foremost : c.kernel.Foremost t)
      (result : Section.switch sp c = .ok sp c)
  | taken (t : TaskId) (resumed : StackPointer) (c' : Core) (other : c.kernel.current ≠ some t)
      (result : Section.switch sp c = .ok resumed c') (current : c'.kernel.current = some t)
      (foremost : c'.kernel.Foremost t) (taken : c'.kernel.next = none)

namespace TaskTable

variable {tasks : List Task} {t : TaskId}

theorem index_lt_of_isRunnable (h : isRunnable tasks t) : t.index < tasks.length := by
  rw [isRunnable, Option.any_eq_true] at h
  obtain ⟨x, hx, -⟩ := h
  exact (List.getElem?_eq_some_iff.1 hx).1

end TaskTable

namespace ReadyList

variable {tasks : List Task} {ready current : Option TaskId} {t p : TaskId}

theorem peerAfter_eq_some (h : peerAfter tasks t = some p) :
    TaskTable.isRunnable tasks p ∧ TaskTable.priority tasks p = TaskTable.priority tasks t := by
  have found := List.mem_of_find?_eq_some h
  exact ⟨List.find?_some h, by
    simpa using List.all_eq_true.1 List.all_takeWhile p found⟩

theorem isRunnable_of_choose (h : choose tasks ready current = some t) :
    TaskTable.isRunnable tasks t := by
  unfold choose at h
  split at h
  · cases h
  next first found =>
  have up : TaskTable.isRunnable tasks first := List.find?_some found
  have peer {p : Option TaskId} (hp : ∀ q, p = some q → TaskTable.isRunnable tasks q)
      (h : some (p.getD first) = some t) : TaskTable.isRunnable tasks t := by
    cases p with
    | none => exact Option.some.inj h ▸ up
    | some q => exact Option.some.inj h ▸ hp q rfl
  refine peer (fun q hq => ?_) h
  split at hq
  · split at hq
    · exact (peerAfter_eq_some hq).1
    · cases hq
  · cases hq

end ReadyList

namespace Kernel

variable {k k₁ k' : Kernel} {ch : Change}

theorem ReadyInOrder.foremost_first (h : k.ReadyInOrder) {first : TaskId}
    (found : k.readyOrder.find? (TaskTable.isRunnable k.tasks) = some first) :
    k.Foremost first := by
  obtain ⟨runnable, before, behind, split, blocked⟩ := List.find?_eq_some_iff_append.1 found
  refine ⟨runnable, fun t ht => ?_⟩
  have listed := h.complete t (TaskTable.index_lt_of_isRunnable ht)
  have falling := h.falling
  rw [split] at listed falling
  rcases List.mem_append.1 listed with listed | listed
  · have := blocked t listed
    simp [ht] at this
  rcases List.mem_cons.1 listed with rfl | listed
  · exact UInt8.le_refl _
  · exact (List.pairwise_cons.1 (List.pairwise_append.1 falling).2.1).1 t listed

/-- As long as some task can run, the choice is one of the most urgent tasks. -/
theorem ReadyInOrder.foremost_choice (h : k.ReadyInOrder) (up : k.AnyUp) :
    ∃ t, k.choice = some t ∧ k.Foremost t := by
  obtain ⟨t₀, h₀⟩ := up
  have listed := h.complete t₀ (TaskTable.index_lt_of_isRunnable h₀)
  cases found : k.readyOrder.find? (TaskTable.isRunnable k.tasks) with
  | none => exact (List.find?_eq_none.1 found t₀ listed h₀).elim
  | some first =>
    have foremost := h.foremost_first found
    have found : (ReadyList.order k.tasks k.ready).find? (TaskTable.isRunnable k.tasks) =
        some first := found
    -- The turn of the current task goes to a peer; the priority stays that of `first`.
    have peer {t p : TaskId}
        (same : TaskTable.priority k.tasks t = TaskTable.priority k.tasks first)
        (hp : ReadyList.peerAfter k.tasks t = some p) : k.Foremost p := by
      obtain ⟨runnable, priority⟩ := ReadyList.peerAfter_eq_some hp
      exact ⟨runnable, fun t ht => priority.trans same ▸ foremost.highest t ht⟩
    simp only [choice, ReadyList.choose, found, Option.some.injEq, exists_eq_left']
    cases k.current with
    | none => exact foremost
    | some t =>
      dsimp only
      split
      · next turn =>
        cases hp : ReadyList.peerAfter k.tasks t with
        | none => exact foremost
        | some p => exact peer turn.2 hp
      · exact foremost

theorem isRunnable_roster : TaskTable.isRunnable k.roster = TaskTable.isRunnable k.tasks :=
  TaskTable.isRunnable_bare

theorem priority_roster : TaskTable.priority k.roster = TaskTable.priority k.tasks :=
  TaskTable.priority_bare

theorem ReadyInOrder.change (h : k.ReadyInOrder) (roster : k'.roster = ch.apply k.roster)
    (ready : k'.ready = k.ready) (known : ∀ t, k'.current = some t → t.index < k.tasks.length) :
    k'.ReadyInOrder := by
  have next : TaskTable.next k'.tasks = TaskTable.next k.tasks := by
    rw [← TaskTable.next_bare, ← Kernel.roster, roster, Change.next_apply, Kernel.roster,
      TaskTable.next_bare]
  have priority : TaskTable.priority k'.tasks = TaskTable.priority k.tasks := by
    rw [← priority_roster, roster, Change.priority_apply, priority_roster]
  have size : k'.tasks.length = k.tasks.length := length_of_roster roster
  have order : k'.readyOrder = k.readyOrder := by
    rw [readyOrder, ReadyList.order, next, size, ready]
    rfl
  exact ⟨fun t ht => order ▸ h.complete t (size ▸ ht), by rw [order, priority]; exact h.falling,
    fun t ht => size ▸ known t ht⟩

theorem Foremost.of_roster {t : TaskId} (h : k.Foremost t) (roster : k'.roster = k.roster) :
    k'.Foremost t := by
  obtain ⟨runnable, highest⟩ := h
  rw [← isRunnable_roster, ← priority_roster, ← roster] at highest
  rw [← isRunnable_roster, ← roster] at runnable
  rw [isRunnable_roster] at runnable highest
  rw [priority_roster] at highest
  exact ⟨runnable, highest⟩

theorem Decides.settled (h : k.Decides ch k') (order : k'.ReadyInOrder) (up : k'.AnyUp) :
    k'.Settled ∧ k'.ElectsAnother := by
  obtain ⟨t, choice, foremost⟩ := order.foremost_choice up
  have next := h.next
  rw [choice] at next
  by_cases running : k.current = some t
  · have next : k'.next = none := next.trans (if_pos running)
    refine ⟨⟨t, ?_, foremost⟩, fun t' ht' => nomatch next.symm.trans ht'⟩
    rw [chosen, next, Option.none_or, h.current, running]
  · have next : k'.next = some t := next.trans (if_neg running)
    refine ⟨⟨t, ?_, foremost⟩, fun t' ht' => ?_⟩
    · rw [chosen, next, Option.some_or]
    · rw [h.current, ← Option.some.inj (next.symm.trans ht')]
      exact running

/-- What scheduling relies on between two sections. -/
structure AtRest (k : Kernel) : Prop where
  order : k.ReadyInOrder
  settled : k.Settled

theorem AtRest.turns {P : Change → Prop} (h : k.AtRest) (came : k.Turns P k') (up : k'.AnyUp) :
    k'.AtRest ∧ (k.ElectsAnother → k'.ElectsAnother) := by
  cases came with
  | rests same =>
    have order : k'.ReadyInOrder := h.order.change same.roster same.ready fun t ht =>
      h.order.known t (same.current ▸ ht)
    obtain ⟨t, chosen, foremost⟩ := h.settled
    refine ⟨⟨order, t, ?_, foremost.of_roster same.roster⟩, fun elects t' ht' => ?_⟩
    · rw [Kernel.chosen, same.next, same.current]
      exact chosen
    · rw [same.current]
      exact elects t' (same.next ▸ ht')
  | decides ch may fits after =>
    have order : k'.ReadyInOrder := h.order.change after.roster after.ready fun t ht =>
      h.order.known t (after.current ▸ ht)
    obtain ⟨settled, elects⟩ := after.settled order up
    exact ⟨⟨order, settled⟩, fun _ => elects⟩

theorem AtRest.switchesTo {target : TaskId} (h : k.AtRest) (took : k.SwitchesTo target k') :
    k'.AtRest ∧ k'.Foremost target := by
  obtain ⟨t, chosen, foremost⟩ := h.settled
  obtain rfl : target = t := by
    rw [Kernel.chosen, took.elected, Option.some_or] at chosen
    exact Option.some.inj chosen
  have foremost := foremost.of_roster took.roster
  have roster : k'.roster = Change.rest.apply k.roster := took.roster
  have order : k'.ReadyInOrder := h.order.change roster took.ready fun t ht => by
    cases took.current.symm.trans ht
    exact TaskTable.index_lt_of_isRunnable (isRunnable_roster (k := k) ▸ took.roster ▸
      isRunnable_roster (k := k') ▸ foremost.runnable)
  refine ⟨⟨order, target, ?_, foremost⟩, foremost⟩
  rw [Kernel.chosen, took.next, took.current, Option.none_or]

theorem AtRest.action {β : Type} {a : Action β} {b : β} {c c' : Core} (h : c.kernel.AtRest)
    (result : a.toSection c = .ok b c') (recruits : a.recruits = false) (up : c'.kernel.AnyUp) :
    c'.kernel.AtRest ∧ (c.kernel.ElectsAnother → c'.kernel.ElectsAnother) := by
  cases Action.taskStep result with
  | turns came => exact h.turns came up
  | switches target _ took =>
    exact ⟨(h.switchesTo took).1, fun _ t ht => nomatch took.next.symm.trans ht⟩
  | recruits is => exact nomatch is.symm.trans recruits

end Kernel

namespace Section

variable {c : Core}

theorem bind_total {α β : Type} {x : Section α} {f : α → Section β} {a : α} {c₁ : Core}
    (hx : x c = .ok a c₁) (hf : ∃ b c', f a c₁ = .ok b c') : ∃ b c', (x >>= f) c = .ok b c' := by
  obtain ⟨b, c', hf⟩ := hf
  exact ⟨b, c', bind_eq_ok.2 ⟨a, c₁, hx, hf⟩⟩

theorem schedule_total (c : Core) : ∃ u c', schedule c = .ok u c' := by
  unfold schedule
  refine bind_total now_apply (bind_total kernel_apply ?_)
  dsimp only
  cases c.kernel.choice with
  | none => exact ⟨_, _, rfl⟩
  | some t =>
    refine bind_total rfl ?_
    split
    · exact bind_total rfl ⟨_, _, rfl⟩
    · exact ⟨_, _, rfl⟩

theorem switch_total (sp : StackPointer)
    (current : ∀ t, c.kernel.current = some t → t.index < c.kernel.tasks.length)
    (next : ∀ t, c.kernel.next = some t → t.index < c.kernel.tasks.length) :
    ∃ resumed c', switch sp c = .ok resumed c' := by
  have found {c : Core} {t : TaskId} (ht : t.index < c.kernel.tasks.length) :
      task t c = .ok c.kernel.tasks[t.index] c :=
    task_eq_ok.2 ⟨List.getElem?_eq_getElem ht, rfl⟩
  have size {k : Kernel} {t t' : TaskId} {f : Task → Task} (h : t.index < k.tasks.length) :
      t.index < (k.updateTask t' f).tasks.length := by
    rwa [Kernel.updateTask, TaskTable.length_update]
  unfold switch
  refine bind_total kernel_apply ?_
  cases hn : c.kernel.next with
  | none => exact ⟨_, _, rfl⟩
  | some target =>
    have ht := next target hn
    refine bind_total rfl (bind_total now_apply (bind_total (found (by exact ht)) ?_))
    dsimp only
    cases hc : c.kernel.current with
    | none =>
      exact bind_total rfl (bind_total (found (by exact size ht)) ⟨_, _, rfl⟩)
    | some source =>
      refine bind_total rfl (bind_total (found (by exact size (current source hc))) ?_)
      refine bind_total rfl (bind_total rfl ?_)
      exact bind_total (found (by exact size (size ht))) ⟨_, _, rfl⟩

end Section

theorem Kernel.AtRest.switches {c : Core} (h : c.kernel.AtRest) (elects : c.kernel.ElectsAnother)
    (sp : StackPointer) : c.Switches sp := by
  obtain ⟨t, chosen, foremost⟩ := h.settled
  have known : t.index < c.kernel.tasks.length := TaskTable.index_lt_of_isRunnable foremost.runnable
  obtain ⟨resumed, c', result⟩ := Section.switch_total sp h.order.known fun t' ht' => by
    rw [Kernel.chosen, ht', Option.some_or] at chosen
    exact Option.some.inj chosen ▸ known
  rcases Section.switch_ok result with ⟨none, rfl, rfl⟩ | ⟨target, took⟩
  · rw [Kernel.chosen, none, Option.none_or] at chosen
    exact .dropped t chosen foremost result
  · have other : c.kernel.current ≠ some target := elects target took.elected
    exact .taken target resumed c' other result took.current (h.switchesTo took).2 took.next

namespace System.Continues

variable {s s' : System}

theorem atRest (h : s.Continues s') (rest : s.core.kernel.AtRest) :
    s'.core.kernel.AtRest ∧ (s.core.kernel.ElectsAnother → s'.core.kernel.ElectsAnother) := by
  induction h with
  | refl => exact ⟨rest, id⟩
  | step _ step recruits up ih =>
    suffices next : _ ∧ (_ → _) from ⟨next.1, next.2 ∘ ih.2⟩
    have rest := ih.1
    cases step with
    | begin => exact ⟨rest, id⟩
    | reply c c' later earlier held lost log who call r next ph b may answer =>
      rw [answer.kernel_eq]
      exact ⟨rest, id⟩
    | act c c' later earlier held lost log who call a next ph b may result =>
      exact rest.action result (recruits _ rfl) up
    | unroll => exact ⟨rest, id⟩
    | finish => exact ⟨rest, id⟩
    | switch _ c sp resumed result => exact rest.action (a := .switch sp) result rfl up
    | write => exact ⟨rest, id⟩
    | drop => exact ⟨rest, id⟩
    | elapse => exact ⟨rest, id⟩

end System.Continues

/-- The most urgent task runs. Whatever is elected in `s`, a decision elects the most urgent task;
in every run that goes on from there without new tasks this stays so between any two sections, and
a switch makes no other task current. Wherever it holds, such a run keeps it. -/
theorem System.foremost_runs (s : System) (order : s.core.kernel.ReadyInOrder)
    (up : s.core.kernel.AnyUp) :
    (∃ c, Section.schedule s.core = .ok () c ∧ c.kernel.Settled ∧
      ∀ s₀ s' : System, s₀.core = c → s₀.Continues s' →
        s'.core.kernel.Settled ∧ ∀ sp, s'.core.Switches sp) ∧
    (s.core.kernel.Settled → ∀ s', s.Continues s' → s'.core.kernel.Settled) := by
  constructor
  · obtain ⟨_, c, result⟩ := Section.schedule_total s.core
    have decides := Section.schedule_decides result
    have up : c.kernel.AnyUp := by
      obtain ⟨t, ht⟩ := up
      exact ⟨t, by rwa [← Kernel.isRunnable_roster, decides.roster, Change.apply,
        Kernel.isRunnable_roster]⟩
    have order : c.kernel.ReadyInOrder := order.change decides.roster decides.ready fun t ht =>
      order.known t (decides.current ▸ ht)
    obtain ⟨settled, elects⟩ := decides.settled order up
    refine ⟨c, result, settled, ?_⟩
    rintro s₀ s' rfl run
    obtain ⟨rest, elects'⟩ := run.atRest ⟨order, settled⟩
    exact ⟨rest.settled, rest.switches (elects' elects)⟩
  · intro settled s' run
    exact (run.atRest ⟨order, settled⟩).1.settled

/-- Task `a` is still elected when the more urgent `b` comes; the next decision is for `b`. -/
theorem foremost_overtakes :
    (System.run Script.overtakes).core.kernel.next = some ⟨0⟩ ∧
      ∃ c, Section.schedule (System.run Script.overtakes).core = .ok () c ∧ c.Switches 0 ∧
        c.kernel.chosen = some ⟨1⟩ := by
  have order : (System.run Script.overtakes).core.kernel.ReadyInOrder := by decide +kernel
  have up : (System.run Script.overtakes).core.kernel.AnyUp := ⟨⟨0⟩, by decide +kernel⟩
  obtain ⟨c, result, -, runs⟩ := (System.foremost_runs _ order up).1
  have elected : (match Section.schedule (System.run Script.overtakes).core with
      | .ok _ c => c.kernel.chosen
      | .error _ _ => none) = some ⟨1⟩ := by decide +kernel
  rw [result] at elected
  exact ⟨by decide +kernel, c, result, (runs { core := c } _ rfl .refl).2 0, elected⟩

end Rtos
