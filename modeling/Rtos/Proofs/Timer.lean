import Rtos.Proofs.TimeLimit
import Rtos.Proofs.WaitLists

/-!
# Sleeps last for their ticks

A task that goes to sleep for `n` ticks sleeps until the last of them, unless somebody wakes it: no
section of another task or of a handler comes near its countdown, whatever it does to the lists that
the task is on. A countdown below zero never moves, and what is left of a countdown does nothing to a
task that is up.
-/

namespace Rtos

/-- Its state, its wake-up and its countdown: all of a task that a tick looks at or changes. -/
def Task.timer (x : Task) : TaskState × TaskStatus × Int32 := (x.state, x.status, x.countdown)

def Kernel.timer (k : Kernel) (t : TaskId) : Option (TaskState × TaskStatus × Int32) :=
  k.tasks[t.index]?.map Task.timer

/-- Task `t` went to sleep for `n` ticks, and that many ticks have passed since. -/
def Kernel.HasSlept (k : Kernel) (t : TaskId) (n : Int32) (ticks : Nat) : Prop :=
  if n < 0 then k.timer t = some (.sleep, .invalid, n)
  else if ticks < n.toInt then
    ∃ left, k.timer t = some (.sleep, .invalid, left) ∧ left.toInt = n.toInt - ticks
  else k.standing t = some (.run, .timeout)

namespace Action

variable {β : Type}

def targets : Action β → Option TaskId
  | wake t => some t
  | _ => none

def naps : Action β → Option Int32
  | delay n | beginWait _ n | resumeWait _ n _ | beginLock _ n | resumeLock _ _ n _ => some n
  | _ => none

theorem naps_eq_some {a : Action β} {t : TaskId} {n : Int32} :
    a.naps = some n ↔ a.Makes (.block t n) := by
  cases a with
  | delay | beginWait | resumeWait | beginLock | resumeLock =>
    exact ⟨fun h => (Option.some.inj h).symm, fun h => congrArg some h.symm⟩
  | _ => exact ⟨nofun, False.elim⟩

end Action

namespace Record

/-- The section puts task `t` to sleep for `n` ticks, by a delay or by queueing it on an object. -/
structure Lulls (p : Record) (t : TaskId) (n : Int32) : Prop where
  naps : p.outcome.action.naps = some n
  current : p.kernel.current = some t
  waits : n ≠ 0
  sleeps : p.outcome.tried = none ∨ p.dozes t

/-- The section may end the sleep of task `t` before its time: it wakes the task by force, or it
releases the object on whose list the task is first, or it is one of the task itself, which does more
than look whether it still has to sleep. -/
inductive Disturbs (p : Record) (t : TaskId) : Prop
  | targets (is : p.outcome.action.targets = some t)
  | releases (w : Waitable) (is : p.outcome.action.releases p.kernel = some w)
      (first : (p.kernel.waiting w).head? = some t)
  | own (is : p.caller = .thread (some t)) (fresh : p.outcome.action.resumes = none)

instance (p : Record) (t : TaskId) (n : Int32) : Decidable (p.Lulls t n) :=
  decidable_of_iff (p.outcome.action.naps = some n ∧ p.kernel.current = some t ∧ n ≠ 0 ∧
      (p.outcome.tried.isNone ∨ p.dozes t))
    ⟨fun ⟨naps, current, waits, sleeps⟩ =>
        ⟨naps, current, waits, sleeps.imp_left Option.isNone_iff_eq_none.1⟩,
      fun h => ⟨h.naps, h.current, h.waits, h.sleeps.imp_left Option.isNone_iff_eq_none.2⟩⟩

instance (p : Record) (t : TaskId) : Decidable (p.Disturbs t) :=
  decidable_of_iff (p.outcome.action.targets = some t ∨
      (∃ w ∈ p.outcome.action.releases p.kernel, (p.kernel.waiting w).head? = some t) ∨
      p.caller = .thread (some t) ∧ p.outcome.action.resumes.isNone) <| by
    constructor
    · rintro (is | ⟨w, is, first⟩ | ⟨is, fresh⟩)
      · exact .targets is
      · exact .releases w is first
      · exact .own is (Option.isNone_iff_eq_none.1 fresh)
    · intro h
      cases h with
      | targets is => exact .inl is
      | releases w is first => exact .inr (.inl ⟨w, is, first⟩)
      | own is fresh => exact .inr (.inr ⟨is, Option.isNone_iff_eq_none.2 fresh⟩)

end Record

def ticksIn (log : List Record) : Nat := log.countP (·.outcome.action.isTick)

section

variable {k k' : Kernel} {ch : Change} {t : TaskId} {n : Int32}

theorem Change.timer_on_bare (x : Task) : (ch.on t x.bare).timer = (ch.on t x).timer := by
  cases ch with
  | rest => rfl
  | tick => exact (congrArg Task.timer x.bare_tick).symm
  | _ =>
    simp only [on]
    split <;> rfl

namespace Kernel

theorem timer_of_roster (h : k'.roster = ch.apply k.roster) :
    k'.timer t = k.tasks[t.index]?.map fun x => (ch.on t x).timer := by
  have entries : k'.roster[t.index]? = k.roster[t.index]?.map (ch.on t) := by
    rw [h, Change.getElem?_apply]
  have bare : k'.timer t = k'.roster[t.index]?.map Task.timer := by
    rw [timer, roster, List.getElem?_map, Option.map_map]
    rfl
  rw [bare, entries, roster, List.getElem?_map, Option.map_map, Option.map_map]
  congr 1
  funext x
  exact Change.timer_on_bare x

theorem timer_of_block (old : t.index < k.tasks.length)
    (h : k'.roster = (Change.block t n).apply k.roster) :
    k'.timer t = some (.sleep, .invalid, n) := by
  rw [timer_of_roster h, List.getElem?_eq_getElem old, Option.map_some, Change.on, if_pos rfl]
  rfl

theorem timer_of_wake {status : TaskStatus} {x : Task} (found : k.tasks[t.index]? = some x)
    (h : k'.roster = (Change.wake t status).apply k.roster) :
    k'.timer t = some (.run, status, x.countdown) := by
  rw [timer_of_roster h, found, Option.map_some, Change.on, if_pos rfl]
  rfl

theorem Unmoved.timer (h : k.Unmoved k') : k'.timer t = k.timer t := timer_of_roster h.roster

theorem standing_of_timer : k.standing t = (k.timer t).map fun x => (x.1, x.2.1) := by
  rw [standing, TaskTable.standing, Kernel.timer, Option.map_map]
  rfl

theorem Rescheduled.timer (h : k.Rescheduled k') : k'.timer t = k.timer t := by
  obtain ⟨next, stats, rfl⟩ := h
  rfl

theorem timer_addTask {id : TaskId} {name : String} {priority : UInt8} {sp : StackPointer}
    {stackBytes : Nat} (h : k.addTask name priority sp stackBytes = some (id, k'))
    (old : t.index < k.tasks.length) : k'.timer t = k.timer t := by
  rw [timer, map_addTask h fun _ _ => rfl, List.getElem?_append_left old]
  rfl

end Kernel

theorem Tries.timer {r : Resource} {resumed : Option TaskId} {v : Verdict}
    (h : Tries r n resumed k v k') : k'.timer t = k.timer t ∨
      ∃ me, v = .asleep me ∧ k.current = some me ∧ k.InTime resumed := by
  cases h with
  | sleepsOn => exact .inl rfl
  | timedOut => exact .inl Kernel.unmoved_unlisted.timer
  | deeper => exact .inl rfl
  | claimed => exact .inl Kernel.unmoved_claimed.timer
  | polled => exact .inl rfl
  | asleep me _ inTime _ _ current => exact .inr ⟨me, rfl, current, inTime⟩

inductive Timed {β : Type} (a : Action β) (t : TaskId) (k k' : Kernel) : Prop
  | keeps (idle : a.isTick = false) (same : k'.timer t = k.timer t)
  | ticks (is : a.isTick) (after : k'.roster = Change.tick.apply k.roster)
  | blocks (n : Int32) (makes : a.Makes (.block t n)) (waits : n ≠ 0) (current : k.current = some t)
      (after : k'.roster = (Change.block t n).apply k.roster)
  | wakes (status : TaskStatus) (makes : a.Makes (.wake t status))
      (fits : (Change.wake t status).Fits k)
      (after : k'.roster = (Change.wake t status).apply k.roster)
  | ends (exits : a.exits) (current : k.current = some t)

theorem Action.timed {β : Type} {a : Action β} {b : β} {c c' : Core}
    (result : a.toSection c = .ok b c') (old : t.index < c.kernel.tasks.length) :
    Timed a t c.kernel c'.kernel := by
  by_cases isTick : a.isTick
  · cases a with
    | tick => exact .ticks rfl (Section.tick_decides result).roster
    | _ => cases isTick
  have idle : a.isTick = false := Bool.eq_false_iff.2 isTick
  -- A change that does nothing to `t` leaves its sleep alone.
  have aside {ch : Change} (after : c'.kernel.roster = ch.apply c.kernel.roster)
      (same : ch.on t = id) : Timed a t c.kernel c'.kernel := by
    refine .keeps idle ?_
    rw [Kernel.timer_of_roster after, same]
    rfl
  cases Action.taskStep result with
  | turns came =>
    cases came with
    | rests same => exact .keeps idle same.timer
    | decides ch may fits after =>
      cases ch with
      | rest => exact aside after.roster rfl
      | tick => exact (isTick (by cases a <;> first | rfl | exact may.elim)).elim
      | block u n =>
        by_cases other : t = u
        · subst other
          exact .blocks n may fits.2 fits.1 after.roster
        · exact aside after.roster (if_neg other)
      | wake u status =>
        by_cases other : t = u
        · subst other
          exact .wakes status may fits after.roster
        · exact aside after.roster (if_neg other)
      | exit u =>
        by_cases other : t = u
        · subst other
          exact .ends (by cases a <;> first | rfl | exact may.elim) fits
        · exact aside after.roster (if_neg other)
  | switches target _ took =>
    have roster : c'.kernel.roster = Change.rest.apply c.kernel.roster := took.roster
    exact aside roster rfl
  | recruits is =>
    cases a with
    | addTask =>
      rcases Section.adding_ok result with ⟨-, rfl⟩ | ⟨id, -, added⟩
      · exact .keeps idle rfl
      · exact .keeps idle (Kernel.timer_addTask added old)
    | startWith idle =>
      obtain ⟨_, -, -, kernel⟩ := Section.startWith_ok result
      exact .keeps rfl (kernel ▸ rfl)
    | _ => cases is

end

theorem Action.resumes_of_exits {β : Type} {a : Action β} (h : a.exits) : a.resumes = none := by
  cases a <;> first | rfl | exact nomatch h

/-- A section that wakes a task in time, without force, releases the object that the task is the
first to wait for. -/
theorem Action.first_of_wakes {β : Type} {a : Action β} {b : β} {c c' : Core} {t : TaskId}
    {status : TaskStatus} (result : a.toSection c = .ok b c') (order : c.kernel.WaitsInOrder)
    (makes : a.Makes (.wake t status)) (unforced : a.targets ≠ some t)
    (fits : (Change.wake t status).Fits c.kernel)
    (after : c'.kernel.roster = (Change.wake t status).apply c.kernel.roster) :
    ∃ w, a.releases c.kernel = some w ∧ (c.kernel.waiting w).head? = some t := by
  obtain ⟨x, found, asleep, -⟩ := fits
  have before : c.kernel.standing t = some (.sleep, x.status) := by
    rw [Kernel.standing, TaskTable.standing, found, ← asleep]
    rfl
  have later : c'.kernel.standing t = some (.run, status) := by
    rw [Kernel.standing_of_timer, Kernel.timer_of_wake found after]
    rfl
  have inTime : status = .ok ∧ ¬ a.suspends ∧ a.tried b = none := by
    cases a with
    | wake u => exact (unforced (congrArg some makes.1.symm)).elim
    | post | unlock | enqueue => exact ⟨makes, id, rfl⟩
    | _ => exact makes.elim
  obtain ⟨rfl, stays, idle⟩ := inTime
  cases Action.waitStep result with
  | calm _ _ _ calm =>
    have drift := calm.standing t
    rw [before, later] at drift
    cases drift
  | delays _ _ _ _ _ suspends => exact (stays suspends).elim
  | exits _ _ _ _ suspends => exact (stays suspends).elim
  | tries r ticks resumed v tried => cases idle.symm.trans tried
  | releases w k₁ _ _ releases frees woken =>
    refine ⟨w, releases, ?_⟩
    obtain ⟨order, lists⟩ := order.congr frees.lists (fun t => by rw [frees.tasks])
      (Nat.le_of_eq (by rw [frees.tasks]))
    have stands : k₁.standing t = c.kernel.standing t := by
      rw [Kernel.standing, Kernel.standing, frees.tasks]
    rw [Kernel.standing_of_timer, woken.timer, ← Kernel.standing_of_timer] at later
    cases (order.woken ((frees.has w).2 frees.found)).2 with
    | nobody same _ =>
      rw [same, stands, before] at later
      cases later
    | first u rest _ _ list _ stand =>
      rw [stand] at later
      split at later
      · next first => rw [← lists, list, first, List.head?_cons]
      · rw [stands, before] at later
        cases later

namespace System.Acts

variable {s : System} {p : Record} {c' : Core} {t : TaskId} {n : Int32}

theorem timer_of_tried (h : s.Acts p c') {w : Waitable} {v : Verdict}
    (tried : p.outcome.tried = some (w, v)) : c'.kernel.timer t = s.core.kernel.timer t ∨
      ∃ me, v = .asleep me ∧ s.core.kernel.current = some me ∧
        ∀ w u, p.outcome.action.resumes = some (w, u) → s.core.kernel.status u = some .ok := by
  cases Action.waitStep h.result with
  | calm idle => exact nomatch idle.symm.trans tried
  | delays _ _ idle => exact nomatch idle.symm.trans tried
  | exits _ idle => exact nomatch idle.symm.trans tried
  | releases _ _ idle => exact nomatch idle.symm.trans tried
  | tries r ticks resumed v' tried' _ _ resumes _ came =>
    obtain ⟨-, rfl⟩ := Prod.mk.inj (Option.some.inj (tried'.symm.trans tried))
    refine came.timer.imp_right ?_
    rintro ⟨me, is, current, inTime⟩
    refine ⟨me, is, current, fun w u hu => inTime u ?_⟩
    obtain ⟨u', found, same⟩ := Option.map_eq_some_iff.1 (resumes.symm.trans hu)
    rw [found, (Prod.mk.inj same).2]

theorem timer_of_undisturbed (h : s.Acts p c') (hr : Reachable s)
    (old : t.index < s.core.kernel.tasks.length) (vain : s.core.kernel.status t ≠ some .ok)
    (undisturbed : ¬ p.Disturbs t) : c'.kernel.timer t = s.core.kernel.tasks[t.index]?.map fun x =>
      (if p.outcome.action.isTick then x.tick else x).timer := by
  have kernel := h.kernel
  cases Action.timed h.result old with
  | keeps idle same =>
    rw [same, idle]
    rfl
  | ticks is after =>
    rw [Kernel.timer_of_roster after, is]
    rfl
  | blocks n makes waits current =>
    -- Only the wait in which the task sleeps goes on, and it has not been woken in time.
    have own := h.own_of_makes hr makes waits current
    obtain ⟨⟨w, u⟩, resumes⟩ := Option.ne_none_iff_exists'.1 fun fresh =>
      undisturbed (.own own fresh)
    obtain rfl : t = u :=
      Option.some.inj (Caller.thread.inj (own.symm.trans (h.own_of_resumes hr resumes)))
    obtain ⟨⟨w', v⟩, tried⟩ := Option.ne_none_iff_exists'.1 fun idle : p.outcome.tried = none =>
      nomatch resumes.symm.trans (Action.resumes_of_tried idle)
    have idle : p.outcome.action.isTick = false := Action.not_isTick tried
    rcases h.timer_of_tried (t := t) tried with same | ⟨me, -, -, inTime⟩
    · rw [same, idle]
      rfl
    · exact (vain (inTime w t resumes)).elim
  | wakes status makes fits after =>
    obtain ⟨w, releases, first⟩ := Action.first_of_wakes h.result hr.coheres.order makes
      (fun is => undisturbed (.targets is)) fits after
    exact (undisturbed (.releases w (kernel ▸ releases) (kernel ▸ first))).elim
  | ends exits current =>
    have own := h.own_of_exits hr exits current
    exact (undisturbed (.own own (Action.resumes_of_exits exits))).elim

theorem timer_of_up (h : s.Acts p c') (hr : Reachable s) {status : TaskStatus}
    (up : s.core.kernel.standing t = some (.run, status)) (wakeful : ∀ n, ¬ p.Lulls t n)
    (lives : ∀ status, ¬ p.Ends t status) : c'.kernel.timer t = s.core.kernel.timer t := by
  have kernel := h.kernel
  obtain ⟨x, found, stands⟩ := Option.map_eq_some_iff.1 up
  have awake : x.state ≠ .sleep := fun asleep => nomatch asleep.symm.trans (Prod.mk.inj stands).1
  cases Action.timed h.result (List.getElem?_eq_some_iff.1 found).1 with
  | keeps _ same => exact same
  | ticks _ after =>
    rw [Kernel.timer_of_roster after, Kernel.timer, found, Option.map_some, Option.map_some,
      Change.on, Task.tick, if_neg fun both => awake both.1]
  | blocks n makes waits current =>
    cases tried : p.outcome.tried with
    | none => exact (wakeful n ⟨Action.naps_eq_some.2 makes, kernel ▸ current, waits, .inl tried⟩).elim
    | some y =>
    obtain ⟨w, v⟩ := y
    rcases h.timer_of_tried (t := t) tried with same | ⟨me, rfl, current', inTime⟩
    · exact same
    obtain rfl : t = me := Option.some.inj (current.symm.trans current')
    have dozes := h.dozes_of_inTime hr tried inTime
    exact (wakeful n ⟨Action.naps_eq_some.2 makes, kernel ▸ current, waits, .inr dozes⟩).elim
  | wakes _ _ fits =>
    obtain ⟨y, found', asleep, -⟩ := fits
    exact (awake (Option.some.inj (found.symm.trans found') ▸ asleep)).elim
  | ends exits current =>
    refine (lives x.status ⟨exits, kernel ▸ current, ?_⟩).elim
    rw [kernel, Kernel.status, Kernel.standing, TaskTable.standing, found]
    rfl

theorem timer_of_lulls (h : s.Acts p c') (hr : Reachable s) (lulls : p.Lulls t n) :
    c'.kernel.timer t = some (.sleep, .invalid, n) := by
  have kernel := h.kernel
  have current : s.core.kernel.current = some t := kernel ▸ lulls.current
  have old : t.index < s.core.kernel.tasks.length := hr.coheres.current t current
  obtain ⟨naps, -, waits, sleeps⟩ := lulls
  rcases sleeps with idle | dozes
  · have result := h.result
    obtain ⟨_, _, _, a, b⟩ := p
    cases a with
    | delay m =>
      obtain rfl : m = n := Option.some.inj naps
      rcases Section.delay_ok result with ⟨none, -⟩ | ⟨-, me, current', after⟩
      · exact (waits none).elim
      · obtain rfl : t = me := Option.some.inj (current.symm.trans current')
        rw [after.timer, Kernel.timer, Kernel.updateTask, TaskTable.getElem?_update, if_pos rfl,
          List.getElem?_eq_getElem old]
        rfl
    | beginWait | resumeWait | beginLock | resumeLock => cases idle
    | _ => cases naps
  · obtain ⟨w, tried, fresh⟩ := Record.dozes_iff.1 dozes
    cases Action.dozes h.result tried with
    | sleepsOn resumes blocked =>
      -- It did not sleep before: this is its first try, or it was woken in vain.
      rcases fresh with fresh | roused
      · cases fresh.symm.trans resumes
      · cases (kernel ▸ roused).symm.trans blocked
    | asleep m makes _ _ _ roster =>
      obtain rfl : m = n := Option.some.inj ((Action.naps_eq_some.2 makes).symm.trans naps)
      exact Kernel.timer_of_block old roster

end System.Acts

namespace Kernel.HasSlept

variable {k k' : Kernel} {t : TaskId} {n : Int32} {ticks : Nat}

theorem begins (waits : n ≠ 0) (h : k.timer t = some (.sleep, .invalid, n)) :
    k.HasSlept t n 0 := by
  unfold HasSlept
  split
  · exact h
  next positive =>
  have above : 0 < n.toInt := by
    have nonzero : n.toInt ≠ 0 := fun zero => waits (Int32.toInt_inj.1 (zero.trans Int32.toInt_zero.symm))
    rw [Int32.lt_iff_toInt_lt, Int32.toInt_zero] at positive
    omega
  rw [if_pos (by omega)]
  exact ⟨n, h, by omega⟩

theorem timer_eq (h : k.HasSlept t n ticks) : ∃ x, k.tasks[t.index]? = some x ∧
    (x.state = .sleep ∧ x.status = .invalid ∨ x.state = .run ∧ x.status = .timeout) := by
  have found {y : TaskState × TaskStatus × Int32} (hy : k.timer t = some y) :
      ∃ x, k.tasks[t.index]? = some x ∧ x.state = y.1 ∧ x.status = y.2.1 := by
    obtain ⟨x, found, rfl⟩ := Option.map_eq_some_iff.1 hy
    exact ⟨x, found, rfl, rfl⟩
  unfold HasSlept at h
  split at h
  · obtain ⟨x, found, state⟩ := found h
    exact ⟨x, found, .inl state⟩
  split at h
  · obtain ⟨left, h, -⟩ := h
    obtain ⟨x, found, state⟩ := found h
    exact ⟨x, found, .inl state⟩
  · obtain ⟨x, found, stands⟩ := Option.map_eq_some_iff.1 h
    exact ⟨x, found, .inr (Prod.mk.inj stands)⟩

theorem old (h : k.HasSlept t n ticks) : t.index < k.tasks.length := by
  obtain ⟨x, found, -⟩ := h.timer_eq
  exact (List.getElem?_eq_some_iff.1 found).1

theorem not_ok (h : k.HasSlept t n ticks) : k.status t ≠ some .ok := by
  obtain ⟨x, found, stands⟩ := h.timer_eq
  rw [Kernel.status, Kernel.standing, TaskTable.standing, found]
  rcases stands with ⟨-, status⟩ | ⟨-, status⟩ <;> simp [status]

theorem same (h : k.HasSlept t n ticks) (eq : k'.timer t = k.timer t) : k'.HasSlept t n ticks := by
  unfold HasSlept at h ⊢
  rwa [standing_of_timer, eq, ← standing_of_timer]

theorem tick (h : k.HasSlept t n ticks)
    (eq : k'.timer t = k.tasks[t.index]?.map (·.tick.timer)) : k'.HasSlept t n (ticks + 1) := by
  unfold HasSlept at h ⊢
  split at h
  · next forever =>
    obtain ⟨x, found, timer⟩ := Option.map_eq_some_iff.1 h
    obtain ⟨-, -, countdown⟩ : x.state = .sleep ∧ x.status = .invalid ∧ x.countdown = n := by
      simpa [Task.timer] using timer
    have idle : ¬ 0 < x.countdown := by
      rw [countdown]
      exact Int32.lt_asymm forever
    rw [if_pos forever, eq, found, Option.map_some, Task.tick, if_neg fun both => idle both.2, timer]
  next bounded =>
  rw [if_neg bounded]
  split at h
  · next early =>
    -- There are ticks left: this one counts, and it may be the last.
    obtain ⟨left, h, remains⟩ := h
    obtain ⟨x, found, timer⟩ := Option.map_eq_some_iff.1 h
    obtain ⟨asleep, blocked, countdown⟩ :
        x.state = .sleep ∧ x.status = .invalid ∧ x.countdown = left := by
      simpa [Task.timer] using timer
    have positive : 0 < x.countdown := by
      rw [countdown, Int32.lt_iff_toInt_lt, Int32.toInt_zero]
      omega
    have less := Int32.toInt_sub_one positive
    rw [countdown] at less
    split
    · next more =>
      have goesOn : x.countdown - 1 ≠ 0 := by
        intro spent
        rw [countdown] at spent
        rw [spent, Int32.toInt_zero] at less
        omega
      refine ⟨left - 1, ?_, by omega⟩
      rw [eq, found, Option.map_some, Task.tick, if_pos ⟨asleep, positive⟩]
      dsimp only
      rw [if_neg goesOn, ← countdown, ← asleep, ← blocked]
      rfl
    · next last =>
      have spent : x.countdown - 1 = 0 := by
        rw [countdown, ← Int32.toInt_inj, Int32.toInt_zero]
        omega
      rw [standing_of_timer, eq, found, Option.map_some, Task.tick, if_pos ⟨asleep, positive⟩]
      simp [spent, Task.wake, Task.timer]
  · next late =>
    -- The time was over before, and a tick does nothing to a task that is awake.
    rw [if_neg (by omega)]
    obtain ⟨x, found, stands⟩ := Option.map_eq_some_iff.1 h
    have awake : x.state ≠ .sleep := by
      rw [(Prod.mk.inj stands).1]
      decide
    rw [standing_of_timer, eq, found, Option.map_some, Task.tick, if_neg fun both => awake both.1]
    exact congrArg some stands

end Kernel.HasSlept

/-- Task `t` sleeps for as long as it was told to, and no longer on account of what came before. -/
structure System.KeepsTime (s : System) (t : TaskId) : Prop where
  /-- Whoever goes to sleep for `n` ticks sleeps for `n` ticks, unless it is disturbed. -/
  sleeps : ∀ p s₁ n, System.Step s s₁ → s₁.log = p :: s.log → p.Lulls t n →
    ∀ s₂ newer, Relation.ReflTransGen System.Step s₁ s₂ → s₂.log = newer ++ s₁.log →
      (∀ q ∈ newer, ¬ q.Disturbs t) → s₂.core.kernel.HasSlept t n (ticksIn newer)
  /-- A task that is up stays as it is until it goes to sleep again or ends itself, whatever is left of
  its countdown. -/
  stays : ∀ status, s.core.kernel.standing t = some (.run, status) →
    ∀ s₂ newer, Relation.ReflTransGen System.Step s s₂ → s₂.log = newer ++ s.log →
      (∀ q ∈ newer, (∀ n, ¬ q.Lulls t n) ∧ ∀ status, ¬ q.Ends t status) →
        s₂.core.kernel.timer t = s.core.kernel.timer t
  /-- When a wait returns, the task is on no list. -/
  leaves : ∀ o ∈ s.calls, o.caller = .thread (some t) → o.call.limit.isSome →
    (∃ a, o.rest = .done a) → ∀ w, t ∉ s.core.kernel.waiting w

theorem KernelCall.Returns.not_blocked {α : Type} {call : KernelCall α} {a : α}
    {trail : List Passage} (h : call.Returns a trail) (waits : call.limit.isSome) {w : Waitable}
    {t : TaskId} :
    (trail.head?.map Passage.outcome).bind Outcome.tried ≠ some (w, .asleep t) := by
  have last {v : Verdict} {w : Waitable} {tries before : List Passage}
      (waited : Waited w v tries) : ((tries ++ before).head?.map Passage.outcome).bind Outcome.tried =
        some (w, v) := by
    obtain ⟨p, earlier, rfl, tried, -⟩ := waited
    exact tried
  have settled {s : Status} {w w' : Waitable} {tries : List Passage}
      (waited : Waited w' s.verdict tries) :
      (tries.head?.map Passage.outcome).bind Outcome.tried ≠ some (w, .asleep t) := by
    rw [← List.append_nil tries, last waited]
    cases s <;> exact nofun
  have received {q : QueueId} {got : Bool} (r : Received q got trail) :
      (trail.head?.map Passage.outcome).bind Outcome.tried ≠ some (w, .asleep t) := by
    cases r with
    | polled _ looked polled idle =>
      intro blocked
      exact nomatch idle.2.symm.trans blocked
    | missed looked s tries _ _ waited =>
      rw [last waited]
      exact nofun
    | taken looked took s tries idle =>
      intro blocked
      exact nomatch idle.2.symm.trans blocked
  cases call with
  | wait | lock => exact settled h
  | waitUntilClaimed | lockUntilClaimed => exact settled (s := .ok) h
  | receive | receiveTagged => exact received h
  | _ => cases waits

namespace Reachable

variable {s : System} {t : TaskId}

theorem not_waiting (h : Reachable s) {o : OpenCall} (ho : o ∈ s.calls)
    (own : o.caller = .thread (some t)) (waits : o.call.limit.isSome) {a : o.α}
    (returns : o.rest = .done a) (w : Waitable) : t ∉ s.core.kernel.waiting w := by
  intro listed
  obtain ⟨x, hx, caller, -, blocked⟩ := h.orderly.1.inside w t listed
  have contract := h.inContract
  have idle (y : OpenCall) (hy : y ∈ s.calls) (own : y.caller = .thread (some t))
      (routine : y.rest.isAtRoutine) : y.phase.blocked = none :=
    ((contract.sound y hy).at_routine routine).1
  have self : o.phase.blocked ≠ some (w, t) := by
    obtain ⟨trail, came⟩ := h.came o ho
    have returned := came.returns returns waits
    intro blocked
    refine returned.not_blocked waits (w := w) (t := t) (came.last ▸ ?_)
    unfold Phase.blocked at blocked
    split at blocked
    · next tried =>
      cases blocked
      exact tried
    · exact nomatch blocked
  -- The calls of one thread are nested: of two of them, one waits for a routine.
  have pairs : s.calls.Pairwise fun x y => x.caller = .thread (some t) →
      y.caller = .thread (some t) → x = y ∨ x.rest.isAtRoutine ∨ y.rest.isAtRoutine :=
    contract.nested.imp fun nests hx hy =>
      .inr (.inr (nests (by rw [hx]; exact nofun) (hx.trans hy.symm)))
  have one := List.Pairwise.forall_of_forall_of_flip (fun _ _ _ _ => .inl rfl) pairs
    (pairs.imp fun h hx hy => (h hy hx).imp Eq.symm Or.symm) ho hx own caller
  rcases one with rfl | routine | routine
  · exact self blocked
  · rw [returns] at routine
    exact nomatch routine
  · exact nomatch (idle x hx caller routine).symm.trans blocked

end Reachable

/-- Timers are exact: a task that goes to sleep for `n` ticks and is not disturbed sleeps until the
last of them, and forever if there are fewer than none. One that is up is not touched by what is left
of its countdown, and one whose wait has returned is on no list. -/
theorem Reachable.keepsTime {s : System} (h : Reachable s) (t : TaskId) : s.KeepsTime t where
  sleeps p s₁ n step log lulls s₂ newer run later undisturbed := by
    have asleep : s₁.core.kernel.HasSlept t n 0 := by
      rcases step.acts with ⟨-, same⟩ | ⟨q, c', acts, kernel, more⟩
      · exact (List.cons_ne_self p s.log (log.symm.trans same)).elim
      · obtain ⟨rfl, -⟩ := List.cons.inj (log.symm.trans more)
        exact kernel ▸ .begins lulls.waits (acts.timer_of_lulls h lulls)
    -- What the countdown has lost is the number of ticks in the log, section by section.
    obtain ⟨-, newer', log', slept⟩ := (h.step step).run_induction
      (P := fun k newer => (∀ q ∈ newer, ¬ q.Disturbs t) → k.HasSlept t n (ticksIn newer)) run
      (fun _ => asleep) fun s q c' newer hr acts ih undisturbed => by
        obtain ⟨calm, before⟩ := List.forall_mem_cons.1 undisturbed
        have slept := ih before
        have after := acts.timer_of_undisturbed hr slept.old slept.not_ok calm
        have ticks : ticksIn (q :: newer) =
            ticksIn newer + if q.outcome.action.isTick then 1 else 0 := List.countP_cons
        rw [ticks]
        split at after
        · next is =>
          rw [if_pos is]
          exact slept.tick after
        · next idle =>
          rw [if_neg idle]
          exact slept.same after
    obtain rfl : newer = newer' := List.append_cancel_right (later.symm.trans log')
    exact slept undisturbed
  stays status up s₂ newer run later wakeful := by
    obtain ⟨-, newer', log', same⟩ := h.run_induction
      (P := fun k newer => (∀ q ∈ newer, (∀ n, ¬ q.Lulls t n) ∧ ∀ status, ¬ q.Ends t status) →
        k.timer t = s.core.kernel.timer t) run (fun _ => rfl)
      fun s₁ q c' newer hr acts ih wakeful => by
        obtain ⟨⟨wakeful, lives⟩, before⟩ := List.forall_mem_cons.1 wakeful
        have same := ih before
        have up : s₁.core.kernel.standing t = some (.run, status) := by
          rw [Kernel.standing_of_timer, same, ← Kernel.standing_of_timer, up]
        exact (acts.timer_of_up hr up wakeful lives).trans same
    obtain rfl : newer = newer' := List.append_cancel_right (later.symm.trans log')
    exact same wakeful
  leaves o ho own waits := fun ⟨_, returns⟩ => h.not_waiting ho own waits returns

set_option maxRecDepth 2000 in
/-- A task sleeps for two ticks. After the first one, which came while another task ran, it is still
asleep, and one tick is left. -/
theorem keepsTime_naps :
    ((System.run Script.nods).after (.goesOn 0)).core.kernel.timer ⟨0⟩ = some (.sleep, .invalid, 2) ∧
      (System.run Script.nods).KeepsTime ⟨0⟩ ∧
      (System.run (Script.nods ++ .goesOn 0 :: Script.naps)).core.kernel.HasSlept ⟨0⟩ 2 1 := by
  have keeps := (System.reachable_run Script.nods).keepsTime ⟨0⟩
  have whole : (.goesOn 0 :: Script.naps).foldl System.after (System.run Script.nods) =
      System.run (Script.nods ++ .goesOn 0 :: Script.naps) := by
    rw [System.run, System.run, List.foldl_append]
  obtain ⟨p, s₁, step, log, latest, run, later⟩ := System.along (.goesOn 0) Script.naps whole
    (by decide +kernel) 3 (by decide +kernel) (System.reachable_run Script.nods)
  have lulls : ∀ p ∈ ((System.run Script.nods).after (.goesOn 0)).log.head?, p.Lulls ⟨0⟩ 2 := by
    decide +kernel
  have slept := keeps.sleeps p s₁ 2 step log (lulls p latest) _ _ run later (by decide +kernel)
  have one : ticksIn ((System.run (Script.nods ++ .goesOn 0 :: Script.naps)).log.take 3) = 1 := by
    decide +kernel
  rw [one] at slept
  exact ⟨by decide +kernel, keeps, slept⟩

end Rtos
