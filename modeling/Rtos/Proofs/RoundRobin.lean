import Rtos.Proofs.Foremost
import Rtos.Proofs.ReadyOrder
import Rtos.Proofs.TimeLimit

/-!
# Equally urgent tasks take turns

A decision made while one of the most urgent tasks runs goes to the next of them by age, and after
the youngest to the oldest. Any other decision starts again with the oldest. So a task that can run
is passed over by an older one of its priority only if the processor comes back to them from a task
that was not among the most urgent any more, and it is never passed over by a younger one.
-/

namespace Rtos

/-- Going from `a` to ever younger tasks, and from the youngest to the oldest, one comes to `t` no
later than to `x`. -/
def TaskId.Between (a t x : TaskId) : Prop :=
  if a.index < x.index then a.index < t.index ∧ t.index ≤ x.index
  else a.index < t.index ∨ t.index ≤ x.index

namespace Kernel

variable (k : Kernel)

structure Peers (a b : TaskId) : Prop where
  left : TaskTable.isRunnable k.tasks a
  right : TaskTable.isRunnable k.tasks b
  same : TaskTable.priority k.tasks b = TaskTable.priority k.tasks a

instance (a b : TaskId) : Decidable (k.Peers a b) :=
  decidable_of_iff (TaskTable.isRunnable k.tasks a ∧ TaskTable.isRunnable k.tasks b ∧
      TaskTable.priority k.tasks b = TaskTable.priority k.tasks a)
    ⟨fun ⟨left, right, same⟩ => ⟨left, right, same⟩, fun h => ⟨h.left, h.right, h.same⟩⟩

/-- How task `p` is chosen: it is the next by age after the current task, or the oldest because the
current one is the youngest, or the oldest because the current one is not among the most urgent. -/
inductive Succeeds (p : TaskId) : Prop
  | behind (c : TaskId) (current : k.current = some c) (foremost : k.Foremost c) (peers : k.Peers c p)
      (later : c.index < p.index)
      (nearest : ∀ t, k.Peers c t → c.index < t.index → p.index ≤ t.index)
  | around (c : TaskId) (current : k.current = some c) (foremost : k.Foremost c)
      (peers : k.Peers c p) (youngest : ∀ t, k.Peers c t → t.index ≤ c.index)
      (oldest : ∀ t, k.Peers c t → p.index ≤ t.index)
  | anew (breaks : ∀ c, k.current = some c → ¬ k.Foremost c) (foremost : k.Foremost p)
      (oldest : ∀ t, k.Peers p t → p.index ≤ t.index)

end Kernel

namespace Record

/-- When the section came, `a` and `x` could run and were equally urgent, and `x` did not run. The
section does not start the scheduler. -/
structure Neglects (q : Record) (a x : TaskId) : Prop where
  peers : q.kernel.Peers a x
  idle : q.kernel.current ≠ some x
  started : q.outcome.action.starts = false

instance (q : Record) (a x : TaskId) : Decidable (q.Neglects a x) :=
  decidable_of_iff (q.kernel.Peers a x ∧ q.kernel.current ≠ some x ∧
      q.outcome.action.starts = false)
    ⟨fun ⟨peers, idle, started⟩ => ⟨peers, idle, started⟩,
      fun h => ⟨h.peers, h.idle, h.started⟩⟩

/-- The section is a switch to a task that is as urgent as `a` and not younger, from one that is not
among the most urgent. -/
structure Restarts (q : Record) (a : TaskId) : Prop where
  switches : q.outcome.action.switches
  returns : ∃ p, q.kernel.next = some p ∧ p.index ≤ a.index ∧
    TaskTable.priority q.kernel.tasks p = TaskTable.priority q.kernel.tasks a
  breaks : ∀ c, q.kernel.current = some c → ¬ q.kernel.Foremost c

end Record

theorem TaskId.not_between {a x : TaskId} (other : a ≠ x) : ¬ a.Between a x := by
  have distinct : a.index ≠ x.index := fun same => other (index_injective same)
  unfold Between
  split
  · exact fun between => Nat.lt_irrefl _ between.1
  · omega

namespace ReadyList

open TaskTable

variable {tasks : List Task} {ready current : Option TaskId} {l before behind : List TaskId}
  {c p t : TaskId}

theorem find?_precedes {R : TaskId → TaskId → Prop} {P : TaskId → Bool} (sorted : l.Pairwise R)
    (found : l.find? P = some p) (listed : t ∈ l) (ht : P t) : p = t ∨ R p t := by
  obtain ⟨-, before, behind, rfl, none⟩ := List.find?_eq_some_iff_append.1 found
  rcases List.mem_append.1 listed with listed | listed
  · have := none t listed
    simp [ht] at this
  rcases List.mem_cons.1 listed with rfl | listed
  · exact .inl rfl
  · exact .inr ((List.pairwise_cons.1 (List.pairwise_append.1 sorted).2.1).1 t listed)

theorem mem_band (sorted : l.Pairwise (Precedes tasks)) (listed : t ∈ l)
    (top : ∀ u ∈ l, priority tasks u ≤ priority tasks c)
    (same : priority tasks t = priority tasks c) :
    t ∈ l.takeWhile fun u => priority tasks u = priority tasks c := by
  induction l with
  | nil => exact absurd listed List.not_mem_nil
  | cons u l ih =>
    obtain ⟨precedes, sorted⟩ := List.pairwise_cons.1 sorted
    rcases List.mem_cons.1 listed with rfl | listed
    · simp [same]
    have first : priority tasks u = priority tasks c :=
      UInt8.le_antisymm (top u List.mem_cons_self) (same ▸ (precedes t listed).priority_le)
    rw [List.takeWhile_cons, if_pos (decide_eq_true first)]
    exact List.mem_cons_of_mem _ (ih sorted listed fun u hu => top u (List.mem_cons_of_mem _ hu))

theorem Spells.peerAfter_eq (h : Spells tasks ready (before ++ c :: behind)) : peerAfter tasks c =
    (behind.takeWhile fun u => priority tasks u = priority tasks c).find? (isRunnable tasks) := by
  obtain ⟨mid, -, linked⟩ := h.linked.split
  obtain ⟨-, linked⟩ := linked.start_cons
  have short : behind.length ≤ tasks.length := by
    have := h.length_le
    rw [List.length_append, List.length_cons] at this
    omega
  rw [peerAfter, linked.chain_eq short]

end ReadyList

namespace Kernel

variable {k k' : Kernel} {a c p x : TaskId}

theorem InLine.exists_choice (h : k.InLine) (runnable : TaskTable.isRunnable k.tasks x) :
    ∃ p, k.choice = some p := by
  obtain ⟨l, spells⟩ := h
  have listed : x ∈ l := (spells.members x).2 (TaskTable.index_lt_of_isRunnable runnable)
  rw [Kernel.choice, ReadyList.choose, spells.order_eq]
  cases found : l.find? (TaskTable.isRunnable k.tasks) with
  | none => exact (List.find?_eq_none.1 found x listed runnable).elim
  | some first => exact ⟨_, rfl⟩

section

variable {ready : Option TaskId} {l before behind : List TaskId} {first t : TaskId}

theorem foremost_of_found (spells : ReadyList.Spells k.tasks ready l)
    (found : l.find? (TaskTable.isRunnable k.tasks) = some first) :
    k.Foremost first ∧ ∀ t, k.Peers first t → first.index ≤ t.index := by
  have precedes {t : TaskId} (ht : TaskTable.isRunnable k.tasks t) :
      first = t ∨ TaskTable.Precedes k.tasks first t :=
    ReadyList.find?_precedes spells.sorted found
      ((spells.members t).2 (TaskTable.index_lt_of_isRunnable ht)) ht
  refine ⟨⟨List.find?_some found, fun t ht => ?_⟩, fun t peers => ?_⟩
  · rcases precedes ht with rfl | precedes
    · exact UInt8.le_refl _
    · exact precedes.priority_le
  · rcases precedes peers.right with rfl | less | ⟨-, older⟩
    · exact Nat.le_refl _
    · exact (UInt8.lt_irrefl _ (peers.same ▸ less)).elim
    · exact Nat.le_of_lt older

theorem Peers.mem_band (peers : k.Peers c t)
    (spells : ReadyList.Spells k.tasks ready (before ++ c :: behind)) (younger : c.index < t.index) :
    t ∈ behind.takeWhile fun u =>
      TaskTable.priority k.tasks u = TaskTable.priority k.tasks c := by
  obtain ⟨-, sorted, apart⟩ := List.pairwise_append.1 spells.sorted
  obtain ⟨after, sorted⟩ := List.pairwise_cons.1 sorted
  have listed := (spells.members t).2 (TaskTable.index_lt_of_isRunnable peers.right)
  refine ReadyList.mem_band sorted ?_ (fun u hu => (after u hu).priority_le) peers.same
  rcases List.mem_append.1 listed with ahead | rest
  · rcases apart t ahead c List.mem_cons_self with less | ⟨-, older⟩
    · exact (UInt8.lt_irrefl _ (peers.same ▸ less)).elim
    · omega
  rcases List.mem_cons.1 rest with rfl | rest
  · exact (Nat.lt_irrefl _ younger).elim
  · exact rest

theorem lt_of_behind (spells : ReadyList.Spells k.tasks ready (before ++ c :: behind))
    (listed : t ∈ behind) (same : TaskTable.priority k.tasks t = TaskTable.priority k.tasks c) :
    c.index < t.index := by
  have sorted := (List.pairwise_append.1 spells.sorted).2.1
  rcases (List.pairwise_cons.1 sorted).1 t listed with less | ⟨-, older⟩
  · exact (UInt8.lt_irrefl _ (same ▸ less)).elim
  · exact older

end

theorem InLine.succeeds (h : k.InLine) (choice : k.choice = some p) : k.Succeeds p := by
  obtain ⟨l, spells⟩ := h
  rw [Kernel.choice, ReadyList.choose, spells.order_eq] at choice
  split at choice
  · cases choice
  next first found =>
  obtain ⟨foremost, oldest⟩ := foremost_of_found spells found
  have restart (breaks : ∀ c, k.current = some c → ¬ k.Foremost c) (same : first = p) :
      k.Succeeds p := same ▸ .anew breaks foremost oldest
  cases current : k.current with
  | none =>
    rw [current] at choice
    refine restart (fun c hc => ?_) (Option.some.inj choice)
    cases current.symm.trans hc
  | some c =>
  simp only [current] at choice
  split at choice
  · next turn =>
    obtain ⟨runnable, same⟩ := turn
    have running : k.Foremost c := ⟨runnable, fun t ht => same ▸ foremost.highest t ht⟩
    obtain ⟨before, behind, rfl⟩ :=
      List.append_of_mem ((spells.members c).2 (TaskTable.index_lt_of_isRunnable runnable))
    have sorted := (List.pairwise_cons.1 (List.pairwise_append.1 spells.sorted).2.1).2
    have peer := spells.peerAfter_eq
    cases next : ReadyList.peerAfter k.tasks c with
    | none =>
      rw [next] at choice peer
      obtain rfl := Option.some.inj choice
      refine .around c current running ⟨runnable, foremost.runnable, same.symm⟩ (fun t peers => ?_)
        fun t peers => oldest t ⟨foremost.runnable, peers.right, peers.same.trans same⟩
      by_contra younger
      exact List.find?_eq_none.1 peer.symm t (peers.mem_band spells (by omega)) peers.right
    | some q =>
      rw [next] at choice peer
      obtain rfl : q = p := Option.some.inj choice
      obtain ⟨up, equal⟩ := ReadyList.peerAfter_eq_some next
      have hq : q ∈ behind := List.takeWhile_subset _ (List.mem_of_find?_eq_some peer.symm)
      refine .behind c current running ⟨runnable, up, equal⟩ (lt_of_behind spells hq equal)
        fun t peers later => ?_
      rcases ReadyList.find?_precedes (sorted.sublist (List.takeWhile_sublist _)) peer.symm
        (peers.mem_band spells later) peers.right with rfl | less | ⟨-, older⟩
      · exact Nat.le_refl _
      · exact (UInt8.lt_irrefl _ (peers.same.trans equal.symm ▸ less)).elim
      · exact Nat.le_of_lt older
  · next out =>
    refine restart (fun t ht running => out ?_) (Option.some.inj choice)
    obtain rfl : c = t := Option.some.inj (current.symm.trans ht)
    exact ⟨running.runnable, UInt8.le_antisymm (foremost.highest c running.runnable)
      (running.highest first foremost.runnable)⟩

structure Ahead (k : Kernel) (a x p : TaskId) : Prop where
  known : p.index < k.tasks.length
  turn : TaskTable.priority k.tasks p = TaskTable.priority k.tasks a →
    a.Between p x ∨ a.index < x.index ∧ p.index ≤ a.index ∧
      ∀ c, k.current = some c → ¬ k.Foremost c

/-- A decision while `a` runs, or a task after it and not after `x`, does not pass `x` over unless the
tasks of that priority start anew, and it does not leave `a` at work. -/
theorem Succeeds.ahead (h : k.Succeeds p) (peers : k.Peers a x) (current : k.current = some c)
    (other : a ≠ x) (idle : c ≠ x) (turn : c = a ∨
      (TaskTable.priority k.tasks c = TaskTable.priority k.tasks a → a.Between c x)) :
    k.Ahead a x p ∧ (c = a → p ≠ a) := by
  have apart {t u : TaskId} (ne : t ≠ u) : t.index ≠ u.index :=
    fun same => ne (TaskId.index_injective same)
  have distinct := apart other
  have away := apart idle
  have isPeer {t : TaskId} (runnable : TaskTable.isRunnable k.tasks t)
      (same : TaskTable.priority k.tasks t = TaskTable.priority k.tasks a) : k.Peers t x :=
    ⟨runnable, peers.right, peers.same.trans same.symm⟩
  unfold TaskId.Between at turn
  -- Who comes before whom going round is a matter of four indices, which `omega` compares.
  cases h with
  | behind c' current' foremost peer later nearest =>
    obtain rfl : c = c' := Option.some.inj (current.symm.trans current')
    refine ⟨⟨TaskTable.index_lt_of_isRunnable peer.right, fun same => .inl ?_⟩, ?_⟩
    · have level := peer.same.symm.trans same
      have bound := nearest x (isPeer foremost.runnable level)
      unfold TaskId.Between
      rcases turn with rfl | between
      · split <;> omega
      · have between := between level
        split at between
        · rw [if_pos ‹_›]
          omega
        · rw [if_neg ‹_›]
          omega
    · rintro rfl rfl
      exact Nat.lt_irrefl _ later
  | around c' current' foremost peer youngest oldest =>
    obtain rfl : c = c' := Option.some.inj (current.symm.trans current')
    refine ⟨⟨TaskTable.index_lt_of_isRunnable peer.right, fun same => .inl ?_⟩, ?_⟩
    · have level := peer.same.symm.trans same
      have bound := oldest x (isPeer foremost.runnable level)
      have last := youngest x (isPeer foremost.runnable level)
      unfold TaskId.Between
      rcases turn with rfl | between
      · rw [if_neg (by omega)]
        exact .inr bound
      · have between := between level
        split at between
        · omega
        · rw [if_neg ‹_›]
          exact .inr bound
    · rintro rfl rfl
      have bound := oldest x (isPeer foremost.runnable rfl)
      have last := youngest x (isPeer foremost.runnable rfl)
      omega
  | anew breaks foremost oldest =>
    refine ⟨⟨TaskTable.index_lt_of_isRunnable foremost.runnable, fun same => ?_⟩, ?_⟩
    · have bound := oldest x (isPeer foremost.runnable same)
      unfold TaskId.Between
      by_cases older : a.index < x.index
      · rw [if_pos older]
        by_cases passes : p.index ≤ a.index
        · exact .inr ⟨older, passes, breaks⟩
        · exact .inl (by omega)
      · rw [if_neg older]
        exact .inl (.inr bound)
    · rintro rfl rfl
      exact breaks _ current foremost

structure Extends (k k' : Kernel) : Prop where
  size : k.tasks.length ≤ k'.tasks.length
  priority : ∀ t : TaskId, t.index < k.tasks.length →
    TaskTable.priority k'.tasks t = TaskTable.priority k.tasks t
  runnable : ∀ t : TaskId, t.index < k.tasks.length →
    TaskTable.isRunnable k'.tasks t = TaskTable.isRunnable k.tasks t
  current : k'.current = k.current
  next : k'.next = k.next

theorem Unmoved.extends (h : k.Unmoved k') : k.Extends k' := by
  have roster : k'.roster = k.roster := h.roster
  refine ⟨?_, fun t _ => ?_, fun t _ => ?_, h.current, h.next⟩
  · have size := congrArg List.length roster
    rw [Kernel.roster, Kernel.roster, List.length_map, List.length_map] at size
    exact Nat.le_of_eq size.symm
  · rw [← priority_roster, roster, priority_roster]
  · rw [← isRunnable_roster, roster, isRunnable_roster]

theorem extends_addTask {id : TaskId} {name : String} {priority : UInt8} {sp : StackPointer}
    {stackBytes : Nat} (h : k.addTask name priority sp stackBytes = some (id, k')) :
    k.Extends k' := by
  have same {γ : Type} (f : Task → γ) (keeps : ∀ (x : Task) next, f { x with next } = f x) (t : TaskId)
      (old : t.index < k.tasks.length) : k'.tasks[t.index]?.map f = k.tasks[t.index]?.map f := by
    rw [map_addTask h keeps, List.getElem?_append_left old]
  have runnable (t : TaskId) (tasks : List Task) : TaskTable.isRunnable tasks t =
      (tasks[t.index]?.map Task.isRunnable).getD false := by
    rw [TaskTable.isRunnable]
    cases tasks[t.index]? <;> rfl
  refine ⟨?_, fun t old => congrArg (Option.getD · 0) (same Task.priority (fun _ _ => rfl) t old),
    fun t old => ?_, ?_, ?_⟩
  · rw [length_addTask h]
    exact Nat.le_succ _
  · rw [runnable, runnable, same Task.isRunnable (fun _ _ => rfl) t old]
  · exact (addTask_eq_some h).2.2 ▸ rfl
  · exact (addTask_eq_some h).2.2 ▸ rfl

theorem Foremost.of_extends (h : k'.Foremost c) (ext : k.Extends k')
    (known : c.index < k.tasks.length) : k.Foremost c where
  runnable := ext.runnable c known ▸ h.runnable
  highest t ht := by
    have old := TaskTable.index_lt_of_isRunnable ht
    rw [← ext.priority t old, ← ext.priority c known]
    exact h.highest t (ext.runnable t old ▸ ht)

theorem Ahead.extends (h : k.Ahead a x p) (ext : k.Extends k') (known : a.index < k.tasks.length)
    (current : ∀ c, k.current = some c → c.index < k.tasks.length) : k'.Ahead a x p where
  known := Nat.lt_of_lt_of_le h.known ext.size
  turn same := by
    rw [ext.priority p h.known, ext.priority a known] at same
    refine (h.turn same).imp_right fun ⟨older, passes, breaks⟩ => ⟨older, passes, fun c hc up => ?_⟩
    have hc := ext.current ▸ hc
    exact breaks c hc (up.of_extends ext (current c hc))

theorem InLine.sublist (h : k.InLine) (peers : k.Peers a x) (older : a.index < x.index) :
    [a, x].Sublist k.readyOrder := by
  obtain ⟨l, spells⟩ := h
  have listed {t : TaskId} (ht : TaskTable.isRunnable k.tasks t) : t ∈ l :=
    (spells.members t).2 (TaskTable.index_lt_of_isRunnable ht)
  rw [Kernel.readyOrder, spells.order_eq]
  obtain ⟨before, behind, rfl⟩ := List.append_of_mem (listed peers.left)
  rcases List.mem_append.1 (listed peers.right) with ahead | rest
  · rcases (List.pairwise_append.1 spells.sorted).2.2 x ahead a List.mem_cons_self with
      less | ⟨-, younger⟩
    · exact (UInt8.lt_irrefl _ (peers.same ▸ less)).elim
    · omega
  rcases List.mem_cons.1 rest with rfl | rest
  · exact (Nat.lt_irrefl _ older).elim
  · exact ((List.singleton_sublist.2 rest).cons_cons a).trans (List.sublist_append_right ..)

end Kernel

theorem Action.decides_of_isTick {β : Type} {a : Action β} {b : β} {c c' : Core}
    (result : a.toSection c = .ok b c') (tick : a.isTick) : c.kernel.Decides .tick c'.kernel := by
  cases a with
  | tick => exact Section.tick_decides result
  | _ => cases tick

/-- Where the turn is while `x` is passed over: still at `a`, where a switch to another task is due,
or past `a` and not past `x`. -/
inductive Turn (a x : TaskId) (k : Kernel) (newer : List Record) : Prop
  | waits (p : TaskId) (current : k.current = some a) (kept : ∀ q ∈ newer, q.kernel.current = some a)
      (next : k.next = some p) (ahead : k.Ahead a x p)
  | went (c : TaskId) (current : k.current = some c)
      (between : TaskTable.priority k.tasks c = TaskTable.priority k.tasks a → a.Between c x)
      (ahead : ∀ p, k.next = some p → k.Ahead a x p)

namespace Turn

variable {s : System} {q : Record} {c' : Core} {a x : TaskId} {newer : List Record}
  {k k' : Kernel} {ch : Change}

theorem begins (inLine : k'.InLine) (other : a ≠ x) (peers : k'.Peers a x) (came : k.Decides ch k')
    (current : k.current = some a) (kept : ∀ q ∈ newer, q.kernel.current = some a) :
    Turn a x k' newer := by
  obtain ⟨p, choice⟩ := inLine.exists_choice peers.right
  have next : k'.next = if k.current = some p then none else some p := by rw [came.next, choice]
  have current' := came.current.trans current
  obtain ⟨ahead, leaves⟩ := (inLine.succeeds choice).ahead peers current' other other (.inl rfl)
  refine .waits p current' kept ?_ ahead
  exact next.trans (if_neg fun stays => leaves rfl (Option.some.inj (stays.symm.trans current)))

theorem decides (h : Turn a x k newer) (inLine : k'.InLine) (other : a ≠ x) (peers : k'.Peers a x)
    (idle : k'.current ≠ some x) (came : k.Decides ch k') (same : q.kernel = k) :
    Turn a x k' (q :: newer) := by
  cases h with
  | waits _ current kept =>
    exact begins inLine other peers came current (List.forall_mem_cons.2 ⟨same ▸ current, kept⟩)
  | went c current between =>
    obtain ⟨p, choice⟩ := inLine.exists_choice peers.right
    have next : k'.next = if k.current = some p then none else some p := by rw [came.next, choice]
    have current' := came.current.trans current
    have level (t : TaskId) :
        TaskTable.priority k'.tasks t = TaskTable.priority k.tasks t := by
      rw [← Kernel.priority_roster, came.roster, Change.priority_apply, Kernel.priority_roster]
    have between : TaskTable.priority k'.tasks c = TaskTable.priority k'.tasks a →
        a.Between c x := by rwa [level, level]
    obtain ⟨ahead, -⟩ := (inLine.succeeds choice).ahead peers current' other
      (fun same => idle (same ▸ current')) (.inr between)
    refine .went c current' between fun p' hp' => ?_
    have hp := next.symm.trans hp'
    split at hp
    · cases hp
    · exact Option.some.inj hp ▸ ahead

theorem keeps (h : Turn a x k newer) (ext : k.Extends k') (known : a.index < k.tasks.length)
    (current : ∀ c, k.current = some c → c.index < k.tasks.length) (same : q.kernel = k) :
    Turn a x k' (q :: newer) := by
  cases h with
  | waits p running kept next ahead =>
    exact .waits p (ext.current.trans running) (List.forall_mem_cons.2 ⟨same ▸ running, kept⟩)
      (ext.next.trans next) (ahead.extends ext known current)
  | went c running between ahead =>
    refine .went c (ext.current.trans running) ?_ fun p hp =>
      (ahead p (ext.next ▸ hp)).extends ext known current
    rwa [ext.priority c (current c running), ext.priority a known]

theorem acts (h : Turn a x s.core.kernel newer) (hr : Reachable s) (acts : s.Acts q c')
    (other : a ≠ x) (neglects : q.Neglects a x) (onward : ¬ (a.index < x.index ∧ q.Restarts a))
    (peers : c'.kernel.Peers a x) (idle : c'.kernel.current ≠ some x) :
    Turn a x c'.kernel (q :: newer) := by
  have kernel := acts.kernel
  have result := acts.result
  have known : a.index < s.core.kernel.tasks.length :=
    TaskTable.index_lt_of_isRunnable (kernel ▸ neglects.peers.left)
  have current := hr.coheres.current
  cases Action.taskStep result with
  | turns came =>
    cases came with
    | rests same => exact h.keeps same.extends known current kernel
    | decides ch _ _ after =>
      exact h.decides (hr.inLine.action result) other peers idle after kernel
  | switches target is took =>
    -- Whoever was elected comes before `x`, as the tasks do not start anew here.
    have ahead : s.core.kernel.Ahead a x target := by
      cases h with
      | waits p _ _ next ahead => exact Option.some.inj (next.symm.trans took.elected) ▸ ahead
      | went _ _ _ ahead => exact ahead target took.elected
    have level (t : TaskId) :
        TaskTable.priority c'.kernel.tasks t = TaskTable.priority s.core.kernel.tasks t := by
      rw [← Kernel.priority_roster, took.roster, Kernel.priority_roster]
    refine .went target took.current (fun same => ?_) fun p hp => nomatch took.next.symm.trans hp
    rw [level, level] at same
    refine (ahead.turn same).resolve_right fun ⟨older, passes, breaks⟩ => onward ⟨older, is, ?_, ?_⟩
    · exact ⟨target, kernel ▸ took.elected, passes, kernel ▸ same⟩
    · exact kernel ▸ breaks
  | recruits is =>
    obtain ⟨_, _, _, a, b⟩ := q
    cases a with
    | addTask =>
      rcases Section.adding_ok result with ⟨-, rfl⟩ | ⟨_, -, added⟩
      · exact h.keeps Kernel.Unmoved.rfl.extends known current kernel
      · exact h.keeps (Kernel.extends_addTask added) known current kernel
    | startWith => exact nomatch neglects.started
    | _ => cases is

end Turn

namespace Reachable

variable {s s₁ s₂ : System} {a x : TaskId} {p : Record} {newer : List Record}

/-- Equally urgent tasks take turns, as far as they do. From a tick that finds task `a` at work until
`a` is at work again, another task `x` of its priority is passed over only if a switch is still due
and none was taken, or if `a` is the older one and the processor came back to their priority in
between and started anew. -/
theorem takesTurns (h : Reachable s) (other : a ≠ x) (step : System.Step s s₁)
    (first : s₁.log = p :: s.log) (tick : p.outcome.action.isTick)
    (current : s.core.kernel.current = some a) (run : Relation.ReflTransGen System.Step s₁ s₂)
    (log : s₂.log = newer ++ s₁.log) (neglects : ∀ q ∈ newer, q.Neglects a x)
    (peers : s₂.core.kernel.Peers a x) (again : s₂.core.kernel.current = some a) :
    (s₂.core.kernel.next.isSome ∧ ∀ q ∈ newer, q.kernel.current = some a) ∨
      [a, x].Sublist s₂.core.kernel.readyOrder ∧ ∃ q ∈ newer, q.Restarts a := by
  have start (peers : s₁.core.kernel.Peers a x) : Turn a x s₁.core.kernel [] := by
    rcases step.acts with ⟨-, same⟩ | ⟨q, c', acts, kernel, more⟩
    · exact (List.cons_ne_self p s.log (first.symm.trans same)).elim
    obtain ⟨rfl, -⟩ := List.cons.inj (first.symm.trans more)
    have came : s.core.kernel.Decides .tick s₁.core.kernel :=
      kernel ▸ Action.decides_of_isTick acts.result tick
    exact .begins (h.step step).inLine other peers came current (List.forall_mem_nil _)
  -- From the tick on every section keeps the turn, unless the tasks start anew.
  obtain ⟨hr, newer', log', turn⟩ := (h.step step).run_induction
    (P := fun k newer => (∀ q ∈ newer, q.Neglects a x ∧ ¬ (a.index < x.index ∧ q.Restarts a)) →
      k.Peers a x → k.current ≠ some x → Turn a x k newer) run (fun _ peers _ => start peers)
    fun s q c' newer hr acts ih neglects peers idle => by
      obtain ⟨⟨neglects, onward⟩, before⟩ := List.forall_mem_cons.1 neglects
      have kernel := acts.kernel
      have turn := ih before (kernel ▸ neglects.peers) (kernel ▸ neglects.idle)
      exact turn.acts hr acts other neglects onward peers idle
  obtain rfl : newer = newer' := List.append_cancel_right (log.symm.trans log')
  by_cases onward : a.index < x.index ∧ ∃ q ∈ newer, q.Restarts a
  · obtain ⟨older, q, hq, restarts⟩ := onward
    exact .inr ⟨hr.inLine.sublist peers older, q, hq, restarts⟩
  have turn := turn (fun q hq => ⟨neglects q hq, fun ⟨older, restarts⟩ =>
    onward ⟨older, q, hq, restarts⟩⟩) peers fun idle => other (Option.some.inj (again.symm.trans idle))
  -- With `a` at work again, the turn cannot be past it.
  cases turn with
  | waits p _ kept next => exact .inl ⟨next ▸ rfl, kept⟩
  | went c current between =>
    obtain rfl : a = c := Option.some.inj (again.symm.trans current)
    exact (TaskId.not_between other (between rfl)).elim

end Reachable

/-- The older one of two tasks gets the processor back, and the younger one is passed over: a more
urgent task, which a tick had woken, went to sleep in between. -/
theorem takesTurns_starves :
    (∀ q ∈ (System.run (Script.dozesOff ++ .goesOn 0 :: Script.starves)).log.take 3,
      q.Neglects ⟨0⟩ ⟨1⟩) ∧
      (System.run (Script.dozesOff ++ .goesOn 0 :: Script.starves)).core.kernel.current = some ⟨0⟩ ∧
      ∃ q ∈ (System.run (Script.dozesOff ++ .goesOn 0 :: Script.starves)).log.take 3,
        q.Restarts ⟨0⟩ := by
  have whole : (.goesOn 0 :: Script.starves).foldl System.after (System.run Script.dozesOff) =
      System.run (Script.dozesOff ++ .goesOn 0 :: Script.starves) := by
    rw [System.run, System.run, List.foldl_append]
  have hr := System.reachable_run Script.dozesOff
  obtain ⟨p, s₁, step, log, latest, run, later⟩ := System.along (.goesOn 0) Script.starves whole
    (by decide +kernel) 3 (by decide +kernel) hr
  have ticks : ∀ p ∈ ((System.run Script.dozesOff).after (.goesOn 0)).log.head?,
      p.outcome.action.isTick := by decide +kernel
  have neglects : ∀ q ∈ (System.run (Script.dozesOff ++ .goesOn 0 :: Script.starves)).log.take 3,
      q.Neglects ⟨0⟩ ⟨1⟩ := by decide +kernel
  have turns := hr.takesTurns (a := ⟨0⟩) (x := ⟨1⟩) (by decide) step log (ticks p latest)
    (by decide +kernel) run later neglects (by decide +kernel) (by decide +kernel)
  have settled : (System.run (Script.dozesOff ++ .goesOn 0 :: Script.starves)).core.kernel.next =
      none := by decide +kernel
  rw [settled] at turns
  exact ⟨neglects, by decide +kernel, (turns.resolve_left fun due => nomatch due.1).2⟩

end Rtos
