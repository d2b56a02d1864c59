import Rtos.Proofs.Extent
import Rtos.Proofs.Ownership
import Rtos.Proofs.Timer

/-!
# Waits without a time limit

A call that waits for as long as it takes puts its task to sleep with a countdown below zero, which
no tick ends. It goes on when somebody releases its object, and goes to sleep again if another task
was faster, so it comes back with a claim if it comes back at all.

There is one other way out. Any sleep can be ended by force, and then the task finds that its time
is over, though it had no end. A call that has to claim meets a fault there, and a take from a task
queue comes back without a message. `Reachable.holdsOut` says that nothing else does this.
-/

namespace Rtos

/-- Task `t` sleeps without end, or was woken in time. -/
inductive Kernel.Lasts (k : Kernel) (t : TaskId) : Prop
  | asleep (timer : k.timer t = some (.sleep, .invalid, waitForever))
  | woken (n : Int32) (timer : k.timer t = some (.run, .ok, n))

namespace Kernel.Lasts

variable {k : Kernel} {c c' : Core} {t : TaskId} {β : Type} {a : Action β} {b : β}

theorem not_late (h : k.Lasts t) : k.status t ≠ some .timeout := by
  rw [Kernel.status, Kernel.standing_of_timer]
  cases h with
  | asleep timer => simp [timer]
  | woken n timer => simp [timer]

theorem tick (h : c.kernel.Lasts t) (after : c'.kernel.roster = Change.tick.apply c.kernel.roster) :
    c'.kernel.Lasts t := by
  have timer := Kernel.timer_of_roster (t := t) after
  cases h with
  | asleep before =>
    obtain ⟨x, found, is⟩ := Option.map_eq_some_iff.1 before
    have countdown : x.countdown = waitForever := congrArg (·.2.2) is
    have still : x.tick = x := if_neg fun both => by
      rw [countdown] at both
      exact absurd both.2 (by decide)
    rw [found, Option.map_some, Change.on, still, is] at timer
    exact .asleep timer
  | woken n before =>
    obtain ⟨x, found, is⟩ := Option.map_eq_some_iff.1 before
    have state : x.state = .run := congrArg Prod.fst is
    have still : x.tick = x := if_neg fun both => by
      rw [state] at both
      cases both.1
    rw [found, Option.map_some, Change.on, still, is] at timer
    exact .woken n timer

theorem act (h : c.kernel.Lasts t) (result : a.toSection c = .ok b c')
    (unforced : a.targets ≠ some t) (lives : a.exits → c.kernel.current ≠ some t)
    (aside : ∀ n, a.Makes (.block t n) → n ≠ 0 → c.kernel.current ≠ some t) :
    c'.kernel.Lasts t := by
  have old : t.index < c.kernel.tasks.length := by
    have found {y : TaskState × TaskStatus × Int32} (timer : c.kernel.timer t = some y) :
        t.index < c.kernel.tasks.length := by
      obtain ⟨x, found, -⟩ := Option.map_eq_some_iff.1 timer
      exact (List.getElem?_eq_some_iff.1 found).1
    cases h with
    | asleep timer => exact found timer
    | woken n timer => exact found timer
  cases Action.timed result old with
  | keeps _ same =>
    cases h with
    | asleep timer => exact .asleep (same.trans timer)
    | woken n timer => exact .woken n (same.trans timer)
  | ticks _ after => exact h.tick after
  | blocks n makes waits current => exact (aside n makes waits current).elim
  | wakes status makes fits after =>
    obtain rfl : status = .ok := by
      cases a with
      | wake u => exact (unforced (congrArg some makes.1.symm)).elim
      | post | unlock | enqueue => exact makes
      | _ => exact makes.elim
    obtain ⟨x, found, -⟩ := fits
    exact .woken x.countdown (Kernel.timer_of_wake found after)
  | ends exits current => exact (lives exits current).elim

end Kernel.Lasts

theorem Tries.late_iff {r : Resource} {n : Int32} {resumed : Option TaskId} {k k' : Kernel}
    {v : Verdict} (h : Tries r n resumed k v k') (waits : n ≠ 0) :
    v = .timedOut ↔ ∃ t, resumed = some t ∧ k.status t = some .timeout := by
  have not_late (inTime : k.InTime resumed) :
      ¬ ∃ t, resumed = some t ∧ k.status t = some .timeout := by
    rintro ⟨t, back, late⟩
    cases late.symm.trans (inTime t back)
  cases h with
  | sleepsOn t back blocked =>
    refine ⟨nofun, fun ⟨u, back', late⟩ => ?_⟩
    obtain rfl : t = u := Option.some.inj (back.symm.trans back')
    cases late.symm.trans blocked
  | timedOut t _ back late => exact ⟨fun _ => ⟨t, back, late⟩, fun _ => rfl⟩
  | deeper _ _ _ first => exact ⟨nofun, fun ⟨_, back, _⟩ => nomatch first.symm.trans back⟩
  | claimed inTime => exact ⟨nofun, fun late => (not_late inTime late).elim⟩
  | polled _ _ poll => exact (waits poll).elim
  | asleep _ _ inTime => exact ⟨nofun, fun late => (not_late inTime late).elim⟩

namespace Action

variable {β : Type} {a : Action β} {b : β} {c c' : Core} {w : Waitable} {t : TaskId}

theorem late_iff {v : Verdict} (result : a.toSection c = .ok b c') (tried : a.tried b = some (w, v))
    (limit : ∀ t n, a.Makes (.block t n) → n = waitForever) :
    v = .timedOut ↔ ∃ t, a.resumes = some (w, t) ∧ c.kernel.status t = some .timeout := by
  have waits : waitForever ≠ 0 := by decide
  cases a with
  | beginWait s n =>
    obtain rfl : n = waitForever := limit ⟨0⟩ n rfl
    obtain ⟨rfl, rfl⟩ := Prod.mk.inj (Option.some.inj tried)
    simpa [resumes] using (Section.beginWait_ok result).late_iff waits
  | resumeWait s n u =>
    obtain rfl : n = waitForever := limit ⟨0⟩ n rfl
    obtain ⟨rfl, rfl⟩ := Prod.mk.inj (Option.some.inj tried)
    simpa [resumes] using (Section.resumeWait_ok result).late_iff waits
  | beginLock m n =>
    obtain rfl : n = waitForever := limit ⟨0⟩ n rfl
    obtain ⟨rfl, rfl⟩ := Prod.mk.inj (Option.some.inj tried)
    simpa [resumes] using (Section.beginLock_ok result).2.late_iff waits
  | resumeLock m l n u =>
    obtain rfl : n = waitForever := limit ⟨0⟩ n rfl
    obtain ⟨rfl, rfl⟩ := Prod.mk.inj (Option.some.inj tried)
    simpa [resumes] using (Section.resumeLock_ok result).late_iff waits
  | _ => cases tried

theorem lasts_of_tried (result : a.toSection c = .ok b c') (tried : a.tried b = some (w, .asleep t))
    (limit : ∀ t n, a.Makes (.block t n) → n = waitForever) (old : t.index < c.kernel.tasks.length)
    (slept : a.resumes = some (w, t) → c.kernel.status t = some .invalid → c.kernel.Lasts t) :
    c'.kernel.Lasts t := by
  cases Action.dozes result tried with
  | sleepsOn resumes blocked same => exact same ▸ slept resumes blocked
  | asleep n makes _ _ _ roster =>
    obtain rfl := limit t n makes
    exact .asleep (Kernel.timer_of_block old roster)

end Action

def Record.Forces (p : Record) (t : TaskId) : Prop :=
  p.outcome.action.targets = some t ∧ (p.kernel.nap t).isSome

/-- Task `t` has been woken by force since it last fell asleep on an object. -/
def Forced (t : TaskId) : List Record → Prop
  | [] => False
  | p :: earlier => p.Forces t ∨ ¬ p.dozes t ∧ Forced t earlier

/-- How a task fares that is inside a wait without a time limit. -/
structure Kernel.Endures (k : Kernel) (t : TaskId) (log : List Record) : Prop where
  lasts : ¬ Forced t log → k.Lasts t
  late : Forced t log → k.standing t = some (.run, .timeout)

namespace Kernel

variable {k : Kernel} {t : TaskId} {log : List Record}

theorem isSome_nap : (k.nap t).isSome ↔ ∃ status, k.standing t = some (.sleep, status) := by
  rw [nap, standing, TaskTable.standing]
  cases k.tasks[t.index]? with
  | none => simp
  | some x =>
    rw [Option.bind_some, Task.nap]
    split <;> simp_all

theorem Endures.late_iff (h : k.Endures t log) : k.status t = some .timeout ↔ Forced t log := by
  by_cases forced : Forced t log
  · rw [Kernel.status, h.late forced]
    exact ⟨fun _ => forced, fun _ => rfl⟩
  · exact ⟨fun late => ((h.lasts forced).not_late late).elim, fun is => (forced is).elim⟩

end Kernel

namespace System.Acts

variable {s : System} {p : Record} {c' : Core} {w : Waitable} {t : TaskId}

theorem endures (h : s.Acts p c') (hr : Reachable s) (stranger : p.caller ≠ .thread (some t))
    (endures : s.core.kernel.Endures t s.log) : c'.kernel.Endures t (p :: s.log) := by
  have kernel := h.kernel
  have wakeful : ¬ p.dozes t := fun dozes => by
    obtain ⟨w, tried, -⟩ := Record.dozes_iff.1 dozes
    exact stranger (h.own_of_asleep hr tried)
  have lives : p.outcome.action.exits → s.core.kernel.current ≠ some t :=
    fun exits current => stranger (h.own_of_exits hr exits current)
  have aside (n : Int32) (makes : p.outcome.action.Makes (.block t n)) (waits : n ≠ 0) :
      s.core.kernel.current ≠ some t :=
    fun current => stranger (h.own_of_makes hr makes waits current)
  have stays {status : TaskStatus} (up : s.core.kernel.standing t = some (.run, status)) :
      c'.kernel.timer t = s.core.kernel.timer t :=
    h.timer_of_up hr up (fun n lulls => aside n (Action.naps_eq_some.1 lulls.naps) lulls.waits
      (kernel ▸ lulls.current)) fun _ ends => lives ends.1 (kernel ▸ ends.2.1)
  by_cases forces : p.Forces t
  · have forced : Forced t (p :: s.log) := .inl forces
    obtain ⟨targets, asleep⟩ := forces
    refine ⟨fun unforced => (unforced forced).elim, fun _ => ?_⟩
    obtain ⟨status, stands⟩ := Kernel.isSome_nap.1 (kernel ▸ asleep)
    obtain ⟨x, found, is⟩ := Option.map_eq_some_iff.1 stands
    have result := h.result
    obtain ⟨_, _, _, a, b⟩ := p
    cases a with
    | wake u =>
      obtain rfl := Option.some.inj targets
      have woken := Section.wake_decides found (Prod.mk.inj is).1 result
      rw [Kernel.standing_of_timer, Kernel.timer_of_wake found woken.roster]
      rfl
    | _ => cases targets
  · have same : Forced t (p :: s.log) ↔ Forced t s.log :=
      ⟨fun forced => (forced.resolve_left forces).2, fun forced => .inr ⟨wakeful, forced⟩⟩
    refine ⟨fun unforced => ?_, fun forced => ?_⟩
    · have lasts := endures.lasts (mt same.2 unforced)
      cases lasts with
      | asleep timer =>
        refine Kernel.Lasts.act (.asleep timer) h.result (fun targets => ?_) lives aside
        refine forces ⟨targets, kernel ▸ Kernel.isSome_nap.2 ⟨.invalid, ?_⟩⟩
        rw [Kernel.standing_of_timer, timer]
        rfl
      | woken n timer =>
        have up : s.core.kernel.standing t = some (.run, .ok) := by
          rw [Kernel.standing_of_timer, timer]
          rfl
        exact .woken n ((stays up).trans timer)
    · have up := endures.late (same.1 forced)
      rw [Kernel.standing_of_timer, stays up, ← Kernel.standing_of_timer, up]

theorem endures_of_asleep (h : s.Acts p c') (hr : Reachable s)
    (tried : p.outcome.tried = some (w, .asleep t))
    (limit : ∀ t n, p.outcome.action.Makes (.block t n) → n = waitForever)
    (slept : p.outcome.action.resumes = some (w, t) → s.core.kernel.Endures t s.log) :
    c'.kernel.Endures t (p :: s.log) := by
  have gentle : ¬ p.Forces t := fun forces => by
    obtain ⟨_, _, _, a, b⟩ := p
    cases a with
    | wake => cases tried
    | _ => cases forces.1
  -- If the task is still asleep, then nobody has woken it by force.
  have unforced (resumes : p.outcome.action.resumes = some (w, t))
      (blocked : s.core.kernel.status t = some .invalid) : ¬ Forced t s.log := fun forced => by
    cases blocked.symm.trans ((slept resumes).late_iff.2 forced)
  have old : t.index < s.core.kernel.tasks.length := by
    cases Action.dozes h.result tried with
    | sleepsOn _ blocked =>
      obtain ⟨_, stands, -⟩ := Option.map_eq_some_iff.1 blocked
      obtain ⟨x, found, -⟩ := Option.map_eq_some_iff.1 stands
      exact (List.getElem?_eq_some_iff.1 found).1
    | asleep _ _ _ current => exact hr.coheres.current t current
  refine ⟨fun _ => Action.lasts_of_tried h.result tried limit old fun resumes blocked =>
    (slept resumes).lasts (unforced resumes blocked), fun forced => ?_⟩
  obtain ⟨goesOn, forced⟩ := forced.resolve_left gentle
  cases Action.dozes h.result tried with
  | sleepsOn resumes blocked => exact (unforced resumes blocked forced).elim
  | asleep _ _ _ _ inTime => exact (goesOn (h.dozes_of_inTime hr tried inTime)).elim

end System.Acts

namespace Reachable

variable {s : System}

theorem endures (h : Reachable s) {o : OpenCall} (ho : o ∈ s.calls) {w : Waitable} {t : TaskId}
    (blocked : o.phase.blocked = some (w, t)) (limit : o.call.limit = some waitForever) :
    s.core.kernel.Endures t s.log := by
  refine h.blocked_induction
    (P := fun call _ t k log => call.limit = some waitForever → k.Endures t log)
    (fun s p c' hr acts _ call w t stranger endures limit => ?_)
    (fun s p c' hr acts _ call w t _ tried heeds slept limit => ?_) o ho w t blocked limit
  · exact acts.endures hr stranger (endures limit)
  · exact acts.endures_of_asleep hr tried (heeds _ limit) fun resumes => slept w t resumes limit

/-- In every run a try without a time limit is too late exactly if its task was woken by force. -/
theorem late_iff_forced (h : Reachable s) : ∀ newer p older, s.log = newer ++ p :: older →
    ∀ x, p.call = some x → x.2.limit = some waitForever → ∀ w v, p.outcome.tried = some (w, v) →
      (v = .timedOut ↔ ∃ t, p.outcome.action.resumes = some (w, t) ∧ Forced t older) := by
  refine h.log_induction (P := fun _ log => ∀ newer p older, log = newer ++ p :: older →
    ∀ x, p.call = some x → x.2.limit = some waitForever → ∀ w v, p.outcome.tried = some (w, v) →
      (v = .timedOut ↔ ∃ t, p.outcome.action.resumes = some (w, t) ∧ Forced t older))
    (fun _ newer p older none =>
      (List.append_ne_nil_of_right_ne_nil _ (List.cons_ne_nil _ _) none.symm).elim)
    fun s p c' hr acts ih newer q older log x is limit w v tried => ?_
  cases newer with
  | cons p' newer => exact ih newer q older (List.cons.inj log).2 x is limit w v tried
  | nil =>
    obtain ⟨rfl, rfl⟩ := List.cons.inj log
    cases acts with
    | switch => cases is
    | call c' later earlier who call a next ph b calls may result =>
      obtain rfl := Option.some.inj is
      have ho : (⟨who, call, .ask (.act a) next, ph⟩ : OpenCall) ∈ s.calls :=
        calls ▸ mem_middle.2 (.inr rfl)
      obtain ⟨trail, came⟩ := hr.came _ ho
      have permits := hr.inContract.permits_of_mem ho rfl may.1
      have late := Action.late_iff result tried ((came.performs.heeds (limit ▸ rfl)).limit _ limit)
      refine late.trans (exists_congr fun t => and_congr_right fun resumes => ?_)
      exact (hr.endures ho (permits.resumes.symm.trans resumes) limit).late_iff

end Reachable

/-- The last section of the call is a try for `w` that its task made after it was woken by force. -/
def OpenCall.GaveUp (log : List Record) (o : OpenCall) (w : Waitable) : Prop :=
  ∃ newer p older t, log = newer ++ p :: older ∧ p.caller = o.caller ∧ p.call = some ⟨o.α, o.call⟩ ∧
    o.phase.last = some p.outcome ∧ p.outcome.tried = some (w, .timedOut) ∧
    p.outcome.action.resumes = some (w, t) ∧ Forced t older

theorem Reachable.gaveUp {s : System} (h : Reachable s) {o : OpenCall} {w : Waitable}
    {tries before : List Passage} (came : o.Came s.log (tries ++ before))
    (limit : o.call.limit = some waitForever) (waited : Waited w .timedOut tries) :
    o.GaveUp s.log w := by
  obtain ⟨last, earlier, rfl, tried, -⟩ := waited
  have logged : last.record o.caller o.call ∈ s.log := came.logged.subset List.mem_cons_self
  obtain ⟨newer, older, log⟩ := List.append_of_mem logged
  obtain ⟨t, resumes, forced⟩ :=
    (h.late_iff_forced newer _ older log _ rfl limit w _ tried).1 rfl
  exact ⟨newer, _, older, t, log, rfl, rfl, came.last, tried, resumes, forced⟩

namespace KernelCall

variable {α : Type}

/-- The object that the call must have claimed when it returns. -/
def promises : KernelCall α → Option Waitable
  | waitUntilClaimed s => some (.semaphore s)
  | lockUntilClaimed m => some (.mutex m)
  | _ => none

theorem waits_of_promises {call : KernelCall α} {w : Waitable} (h : call.promises = some w) :
    call.limit = some waitForever ∧ call.source = none ∧ call.isStart = false := by
  cases call <;> first | exact ⟨rfl, rfl, rfl⟩ | cases h

theorem awaits_iff_of_promises {call : KernelCall α} {w w' : Waitable} {k : Kernel}
    (h : call.promises = some w) : call.Awaits k w' ↔ w' = w := by
  cases call <;> cases h <;> rfl

theorem claimed_of_returns {call : KernelCall α} {w : Waitable} {a : α} {trail : List Passage}
    (h : call.promises = some w) (returns : call.Returns a trail) : Waited w .claimed trail := by
  cases call <;> cases h <;> exact returns

theorem timedOut_of_meets {call : KernelCall α} {w : Waitable} {f : Fault} {trail : List Passage}
    (h : call.promises = some w) (meets : call.Meets trail f) : Waited w .timedOut trail := by
  cases call <;> cases h <;> exact meets.2

theorem received_of_returns {call : KernelCall α} {q : QueueId} {a : α} {trail : List Passage}
    (source : call.source = some q) (returns : call.Returns a trail) (nothing : call.gives a = []) :
    Received q false trail := by
  cases call with
  | receive q' n =>
    obtain rfl := Option.some.inj source
    cases a with
    | none => exact returns
    | some m => cases nothing
  | receiveTagged q' n =>
    obtain rfl := Option.some.inj source
    cases a with
    | none => exact returns
    | some m => cases nothing
  | _ => cases source

end KernelCall

/-- What is wrong with the request itself: there is no such object, nobody is current who could own
it or sleep on it, or the mutex was locked too often already. -/
inductive Kernel.Misused (k : Kernel) (w : Waitable) : Prop
  | unknown (missing : ¬ k.Has w)
  | nobody (idle : k.current = none)
  | tooDeep (m : MutexId) (x : Mutex) (is : w = .mutex m) (found : k.mutexes[m.index]? = some x)
      (owns : x.owner = k.current) (full : x.depth + 1 = 0)

namespace Action

variable {β : Type} {a : Action β} {c c' : Core} {f : Fault} {w : Waitable} {t : TaskId}

theorem breach_of_tries (fault : a.toSection c = .error f c') (tries : a.tries = some w)
    (has : c.kernel.extent.Has w) (current : c.kernel.current = some t)
    (known : ∀ w u, a.resumes = some (w, u) → u.index < c.kernel.tasks.length)
    (room : a.resumes = none → ∀ m x, w = .mutex m → c.kernel.mutexes[m.index]? = some x →
      x.owner = some t → x.depth + 1 ≠ 0) : f.IsBreach := by
  cases a with
  | beginWait s n =>
    obtain rfl := Option.some.inj tries
    exact (Section.Sure.beginWait has current).at f c' fault
  | resumeWait s n u =>
    obtain rfl := Option.some.inj tries
    exact (Section.Sure.resumeWait has current (known _ u rfl)).at f c' fault
  | beginLock m n =>
    obtain rfl := Option.some.inj tries
    obtain ⟨x, found⟩ : ∃ x, c.kernel.mutexes[m.index]? = some x := ⟨_, List.getElem?_eq_getElem has⟩
    by_cases own : x.owner = some t
    · refine Section.SureAt.bind (Section.currentTask_eq_ok.2 ⟨current, rfl⟩)
        (.bind (Section.mutex_eq_ok.2 ⟨found, rfl⟩) ?_) f c' fault
      rw [if_pos own]
      have fits := room rfl m x rfl found own
      exact .bind (Section.increment_eq_ok.2 ⟨fits, rfl, rfl⟩)
        (.bind (Section.modify_apply _) (.pure _))
    · exact Section.sureAt_beginLock found current own f c' fault
  | resumeLock m l n u =>
    obtain rfl := Option.some.inj tries
    exact (Section.Sure.reattempt (r := .mutex m l) has current (known _ u rfl)).at f c' fault
  | _ => cases tries

theorem breaks_of_tries (fault : a.toSection c = .error f c') (breach : f.IsBreach)
    (tries : a.tries = some w) : ∃ r n resumed, Section.Breaks r n resumed c.kernel f := by
  cases a with
  | beginWait s n => exact ⟨_, _, _, Section.beginWait_error fault breach⟩
  | resumeWait s n u => exact ⟨_, _, _, Section.resumeWait_error fault breach⟩
  | beginLock m n =>
    obtain ⟨l, breaks⟩ := Section.beginLock_error fault breach
    exact ⟨_, _, _, breaks⟩
  | resumeLock m l n u =>
    exact ⟨.mutex m l, _, _, Section.reattempt_error fault breach⟩
  | _ => cases tries

end Action

namespace Reachable

variable {s : System}

theorem has_of_blocked (h : Reachable s) {o : OpenCall} (ho : o ∈ s.calls) {w : Waitable}
    {t : TaskId} (blocked : o.phase.blocked = some (w, t)) : s.core.kernel.Has w := by
  refine h.blocked_induction (P := fun _ w _ k _ => k.Has w)
    (fun s p c' _ acts _ _ w t _ has => (Action.waitStep acts.result).has has)
    (fun s p c' _ acts _ _ w t _ tried _ slept => ?_) o ho w t blocked
  refine (Action.waitStep acts.result).has ?_
  cases Action.waitStep acts.result with
  | calm idle => cases idle.symm.trans tried
  | delays _ _ idle => cases idle.symm.trans tried
  | exits _ idle => cases idle.symm.trans tried
  | releases _ _ idle => cases idle.symm.trans tried
  | tries r n resumed v is _ _ resumes _ came =>
    obtain ⟨rfl, rfl⟩ := Prod.mk.inj (Option.some.inj (is.symm.trans tried))
    generalize c'.kernel = k' at came
    cases came with
    | sleepsOn _ back =>
      rw [back, Option.map_some] at resumes
      exact slept _ _ resumes
    | asleep _ _ _ _ _ _ _ found => exact found

/-- A try of a call under way meets a fault only where its request is wrong, and not after it has
slept. -/
theorem misused_of_tries (h : Reachable s) {o : OpenCall} {f : Fault} (faults : s.FaultsIn o f)
    {later earlier : List OpenCall} (calls : s.calls = later ++ o :: earlier)
    (may : o.MayGoOn later s.core.kernel) {β : Type} {a : Action β}
    {next : Except Fault β → Program Unit o.α} {c : Core} (asks : o.rest = .ask (.act a) next)
    (fault : a.toSection s.core = .error f c) {w : Waitable} (tries : a.tries = some w)
    (waits : o.call.isStart = false) : o.phase.blocked = none ∧ s.core.kernel.Misused w := by
  have contract := h.inContract
  have ho : o ∈ s.calls := calls ▸ mem_middle.2 (.inr rfl)
  have permits := contract.permits_of_mem ho asks may.1
  -- A kernel in use is not broken.
  have whole : ¬ f.IsBreach := fun breach => by
    obtain ⟨_, _, _, status, unsound, -⟩ := Action.breaks_of_tries fault breach tries
    cases unsound with
    | alreadyWaiting => exact h.orderly.2 ⟨o, faults⟩
    | claimedWhileHeld _ _ x => exact h.excludes.2 x.name ⟨o, faults⟩
  have known (t : TaskId) (current : s.core.kernel.current = some t) :
      t.index < s.core.kernel.tasks.length := h.coheres.current t current
  cases blocked : o.phase.blocked with
  | none =>
    have first : a.resumes = none := permits.resumes.trans blocked
    refine ⟨rfl, ?_⟩
    by_contra proper
    obtain ⟨t, current⟩ := Option.ne_none_iff_exists'.1 (mt Kernel.Misused.nobody proper)
    refine whole (Action.breach_of_tries fault tries ?_ current (fun _ _ resumes => ?_)
      fun _ m x is found owns full => proper (.tooDeep m x is found (owns.trans current.symm) full))
    · have has := by_contra fun missing => proper (.unknown missing)
      cases w <;> exact has
    · exact nomatch first.symm.trans resumes
  | some x =>
    obtain ⟨w', t⟩ := x
    have resumes : a.resumes = some (w', t) := permits.resumes.trans blocked
    obtain ⟨sleeper, -⟩ := contract.awaits ho blocked
    have current : s.core.kernel.current = some t := by
      have runs := may.1
      rw [sleeper] at runs
      exact runs.resolve_right fun start => nomatch waits.symm.trans start
    obtain rfl : w = w' := by
      cases a <;> cases resumes <;> exact (Option.some.inj tries).symm
    refine (whole (Action.breach_of_tries fault tries ?_ current (fun _ u is => ?_)
      fun first => ?_)).elim
    · have has := h.has_of_blocked ho blocked
      cases w <;> exact has
    · obtain ⟨-, rfl⟩ := Prod.mk.inj (Option.some.inj (is.symm.trans resumes))
      exact known _ current
    · exact nomatch first.symm.trans resumes

end Reachable

theorem Reachable.precedes_of_log {s : System} (h : Reachable s) :
    ∀ p ∈ s.log, p.kernel.Precedes s.core.kernel := by
  refine h.log_induction (P := fun k log => ∀ p ∈ log, p.kernel.Precedes k) (fun _ _ h => nomatch h)
    fun s p c' _ acts ih => ?_
  have step := Action.precedes acts.result
  exact List.forall_mem_cons.2 ⟨acts.kernel ▸ step, fun q hq => (ih q hq).trans step⟩

/-- What the calls come to that wait for as long as it takes. -/
structure System.HoldsOut (s : System) : Prop where
  /-- A task that such a call has put to sleep sleeps without end, was woken in time or was woken by
  force. -/
  sleeps : ∀ o ∈ s.calls, o.call.limit = some waitForever → ∀ w t, o.phase.blocked = some (w, t) →
    s.core.kernel.Endures t s.log
  /-- A try is too late if the task was woken by force before it, and only then. -/
  tries : ∀ newer p older, s.log = newer ++ p :: older → ∀ x, p.call = some x →
    x.2.limit = some waitForever → ∀ w v, p.outcome.tried = some (w, v) →
      (v = .timedOut ↔ ∃ t, p.outcome.action.resumes = some (w, t) ∧ Forced t older)
  /-- A call that has to claim has done so when it returns. -/
  claims : ∀ o ∈ s.calls, ∀ w, o.call.promises = some w → (∃ a, o.rest = .done a) →
    o.phase.last.bind Outcome.tried = some (w, .claimed)
  /-- It meets a fault only if its task was woken by force, or else before it sleeps, if there is
  something wrong with its request. -/
  faults : ∀ o f, s.FaultsIn o f → ∀ w, o.call.promises = some w →
    o.GaveUp s.log w ∨ o.phase.blocked = none ∧ s.core.kernel.Misused w
  /-- A take from a task queue comes back without a message only if its task was woken by force. -/
  receives : ∀ o ∈ s.calls, o.call.limit = some waitForever → ∀ q sem, o.call.source = some q →
    s.core.kernel.queueSemaphore q = .ok (some sem) → ∀ a, o.rest = .done a → o.call.gives a = [] →
      o.GaveUp s.log (.semaphore sem)

namespace Reachable

variable {s : System}

theorem gaveUp_or_misused (h : Reachable s) {o : OpenCall} {f : Fault} (faults : s.FaultsIn o f)
    {w : Waitable} (promises : o.call.promises = some w) :
    o.GaveUp s.log w ∨ o.phase.blocked = none ∧ s.core.kernel.Misused w := by
  obtain ⟨limit, source, starts⟩ := KernelCall.waits_of_promises promises
  have waits : o.call.limit.isSome := limit ▸ rfl
  obtain ⟨later, earlier, calls, may, ⟨β, next, rest⟩ | ⟨β, a, next, c, rest, fault⟩⟩ := id faults
  · have ho : o ∈ s.calls := calls ▸ mem_middle.2 (.inr rfl)
    obtain ⟨trail, came⟩ := h.came o ho
    have waited := KernelCall.timedOut_of_meets promises (came.meets rest waits)
    rw [← List.append_nil trail] at came
    exact .inl (h.gaveUp came limit waited)
  · have ho : o ∈ s.calls := calls ▸ mem_middle.2 (.inr rfl)
    obtain ⟨trail, came⟩ := h.came o ho
    have heeds := came.heeds rest waits
    cases tries : a.tries with
    | none =>
      have takes := (heeds.fetches tries).2
      rw [source] at takes
      cases takes
    | some w' =>
      have awaits := (h.inContract.permits_of_mem ho rest may.1).awaits w' tries
      obtain rfl := (KernelCall.awaits_iff_of_promises promises).1 awaits
      exact .inr (h.misused_of_tries faults calls may rest fault tries starts)

theorem gaveUp_of_nothing (h : Reachable s) {o : OpenCall} (ho : o ∈ s.calls)
    (limit : o.call.limit = some waitForever) {q : QueueId} {sem : SemId}
    (source : o.call.source = some q) (queue : s.core.kernel.queueSemaphore q = .ok (some sem))
    {a : o.α} (rest : o.rest = .done a) (nothing : o.call.gives a = []) :
    o.GaveUp s.log (.semaphore sem) := by
  obtain ⟨trail, came⟩ := h.came o ho
  have returns := came.returns rest (limit ▸ rfl)
  have still (looked : Passage) (hl : looked ∈ trail) {x : Option SemId}
      (seen : looked.before.queueSemaphore q = .ok x) : x = some sem := by
    have logged := came.logged.subset (List.mem_map_of_mem hl)
    exact Except.ok.inj ((h.precedes_of_log _ logged q x seen).symm.trans queue)
  cases KernelCall.received_of_returns source returns nothing with
  | polled _ looked polled _ driver =>
    cases still looked (List.mem_cons_of_mem _ List.mem_cons_self) driver
  | missed looked s' tries _ found waited =>
    obtain rfl := Option.some.inj (still looked (List.mem_append_right _ List.mem_cons_self) found)
    exact h.gaveUp came limit waited

/-- A wait without a time limit ends in a claim, unless somebody wakes the task by force while it
sleeps. Neither ticks nor releases nor what else others do can end it otherwise. -/
theorem holdsOut (h : Reachable s) : s.HoldsOut where
  sleeps _ ho limit _ _ blocked := h.endures ho blocked limit
  tries := h.late_iff_forced
  claims o ho w promises := by
    rintro ⟨a, rest⟩
    obtain ⟨trail, came⟩ := h.came o ho
    have waits : o.call.limit.isSome := (KernelCall.waits_of_promises promises).1 ▸ rfl
    obtain ⟨last, earlier, rfl, tried, -⟩ :=
      KernelCall.claimed_of_returns promises (came.returns rest waits)
    rw [came.last]
    exact tried
  faults _ _ faults _ promises := h.gaveUp_or_misused faults promises
  receives _ ho limit _ _ source queue _ rest nothing :=
    h.gaveUp_of_nothing ho limit source queue rest nothing

end Reachable

def Script.forced : List Move :=
  .begins (.thread none) (.createSemaphore "s" 0) :: goesOn 5 ++ creates "a" 2 ++ creates "b" 1 ++
    starts ++ .begins (.thread (some ⟨0⟩)) (.waitUntilClaimed ⟨0⟩) :: goesOn 3 ++ .switches ::
    calls .handler (.wake ⟨0⟩) ++ .switches :: goesOn 7

def System.fault? (s : System) : Option Fault :=
  match s.calls with
  | ⟨who, call, .ask (.fault f) next, ph⟩ :: _ =>
    if canGoOn ⟨who, call, .ask (.fault f) next, ph⟩ [] s.core.kernel then some f else none
  | _ => none

theorem System.faultsIn_of_fault? {s : System} {f : Fault} (h : s.fault? = some f) :
    ∃ o earlier, s.calls = o :: earlier ∧ s.FaultsIn o f := by
  unfold fault? at h
  split at h
  · next who α call β f' next ph earlier calls =>
    split at h
    · next may =>
      obtain rfl := Option.some.inj h
      exact ⟨_, earlier, calls, [], earlier, calls, mayGoOn may, .inl ⟨β, next, rfl⟩⟩
    · cases h
  · cases h

/-- The semaphore is there and a task is current, and yet its call meets the fault. -/
theorem holdsOut_forced : ∃ o, (System.run Script.forced).FaultsIn o .waitForeverTimedOut ∧
    o.call.promises = some (.semaphore ⟨0⟩) ∧
    o.GaveUp (System.run Script.forced).log (.semaphore ⟨0⟩) := by
  obtain ⟨o, earlier, calls, faults⟩ := System.faultsIn_of_fault?
    (show (System.run Script.forced).fault? = some .waitForeverTimedOut by decide +kernel)
  have all : (System.run Script.forced).calls.map (·.call.promises) = [some (.semaphore ⟨0⟩)] := by
    decide +kernel
  rw [calls, List.map_cons] at all
  have promises : o.call.promises = some (.semaphore ⟨0⟩) := (List.cons.inj all).1
  refine ⟨o, faults, promises, ?_⟩
  have holdsOut := (System.reachable_run Script.forced).holdsOut
  refine (holdsOut.faults o _ faults _ promises).resolve_right ?_
  rintro ⟨-, missing | idle | ⟨_, _, is⟩⟩
  · have one : 0 < (System.run Script.forced).core.kernel.semaphores.length := by decide +kernel
    exact missing one
  · exact absurd idle (by decide +kernel)
  · cases is

end Rtos
