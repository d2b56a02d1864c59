import Rtos.Proofs.Script
import Rtos.Proofs.Trail

/-!
# How long a wait lasts

A call that waits with a time limit puts its task to sleep for that many ticks. If the task is woken
and finds nothing, because another one was faster, it goes to sleep again, and it does so for the
whole limit and not for what was left of it. So the limit holds for each sleep by itself, and the
ticks of the call as a whole are limited only by how often it fell asleep.
-/

namespace Rtos

def Action.isTick {β : Type} : Action β → Bool
  | tick => true
  | _ => false

/-- The countdown of the task, if it sleeps. -/
def Task.nap (x : Task) : Option Int32 := if x.state = .sleep then some x.countdown else none

def Kernel.nap (k : Kernel) (t : TaskId) : Option Int32 := k.tasks[t.index]?.bind Task.nap

/-- The ticks that a task still sleeps, if nobody wakes it. -/
def ticksLeft : Option Int32 → Nat
  | some n => n.toInt.toNat
  | none => 0

def Counting (nap : Option Int32) : Prop := ∀ n ∈ nap, 0 < n

namespace Record

/-- Task `t` begins to wait: this is the first try of a call. -/
def Begins (p : Record) (t : TaskId) : Prop :=
  p.caller = .thread (some t) ∧ p.outcome.action.tries.isSome ∧ p.outcome.action.resumes = none

def passes (p : Record) (t : TaskId) : Bool :=
  p.outcome.action.isTick && (p.kernel.nap t).isSome

/-- The section puts task `t` to sleep on an object, at first or after a wake-up in vain. -/
def dozes (p : Record) (t : TaskId) : Bool :=
  match p.outcome.tried with
  | some (_, .asleep t') =>
    t' = t ∧ (p.outcome.action.resumes = none ∨ p.kernel.status t = some .ok)
  | _ => false

end Record

theorem Record.dozes_iff {p : Record} {t : TaskId} : p.dozes t ↔
    ∃ w, p.outcome.tried = some (w, .asleep t) ∧
      (p.outcome.action.resumes = none ∨ p.kernel.status t = some .ok) := by
  unfold dozes
  split
  · next w u tried =>
    rw [tried]
    constructor
    · intro dozes
      obtain ⟨rfl, resumes⟩ := of_decide_eq_true dozes
      exact ⟨w, rfl, resumes⟩
    · rintro ⟨_, same, resumes⟩
      cases same
      exact decide_eq_true ⟨rfl, resumes⟩
  · next other =>
    constructor
    · intro dozes
      cases dozes
    · rintro ⟨w, tried, -⟩
      exact (other w t tried).elim

def ticksAsleep (log : List Record) (t : TaskId) : Nat := log.countP (·.passes t)

def sleeps (log : List Record) (t : TaskId) : Nat := log.countP (·.dozes t)

theorem Int32.toInt_sub_one {n : Int32} (h : 0 < n) : (n - 1).toInt = n.toInt - 1 := by
  have low := Int32.lt_iff_toInt_lt.1 h
  have high := n.toInt_lt
  rw [Int32.toInt_zero] at low
  rw [Int32.toInt_sub, Int32.toInt_one]
  apply Int.bmod_eq_of_le <;> omega

theorem Task.nap_tick {x : Task} (h : Counting x.nap) :
    x.tick.nap = x.nap.bind fun n => if n - 1 = 0 then none else some (n - 1) := by
  by_cases asleep : x.state = .sleep
  · have nap : x.nap = some x.countdown := if_pos asleep
    rw [tick, if_pos ⟨asleep, h _ nap⟩, nap, Option.bind_some]
    dsimp only
    split
    · rfl
    · exact if_pos asleep
  · have nap : x.nap = none := if_neg asleep
    rw [tick, if_neg fun both => asleep both.1, nap]
    rfl

namespace Counting

variable {nap : Option Int32}

theorem awake : Counting none := fun _ h => nomatch h

theorem ticksLeft_pos (h : Counting nap) (asleep : nap.isSome) : 0 < ticksLeft nap := by
  obtain ⟨n, rfl⟩ := Option.isSome_iff_exists.1 asleep
  have positive := Int32.lt_iff_toInt_lt.1 (h n rfl)
  rw [Int32.toInt_zero] at positive
  exact Int.lt_toNat.2 positive

theorem tick {x : Task} (h : Counting x.nap) :
    Counting x.tick.nap ∧ ticksLeft x.tick.nap = ticksLeft x.nap - 1 := by
  rw [Task.nap_tick h]
  cases hn : x.nap with
  | none => exact ⟨awake, rfl⟩
  | some n =>
    have positive : 0 < n := h n hn
    have low := Int32.lt_iff_toInt_lt.1 positive
    have left := Int32.toInt_sub_one positive
    rw [Int32.toInt_zero] at low
    rw [Option.bind_some]
    split
    · next ends =>
      rw [ends, Int32.toInt_zero] at left
      exact ⟨awake, by simp only [ticksLeft]; omega⟩
    · next more =>
      have more : (n - 1).toInt ≠ 0 := fun h =>
        more (Int32.toInt_inj.1 (h.trans Int32.toInt_zero.symm))
      refine ⟨fun m hm => ?_, by simp only [ticksLeft]; omega⟩
      obtain rfl := Option.some.inj hm
      rw [Int32.lt_iff_toInt_lt, Int32.toInt_zero]
      omega

theorem change {x : Task} {ch : Change} {t : TaskId} (h : Counting x.nap)
    (other : ∀ n, ch ≠ .block t n) :
    Counting (ch.on t x).nap ∧ ticksLeft (ch.on t x).nap ≤ ticksLeft x.nap := by
  cases ch with
  | rest => exact ⟨h, Nat.le_refl _⟩
  | tick => exact ⟨h.tick.1, h.tick.2 ▸ Nat.sub_le _ 1⟩
  | block u n =>
    have other : t ≠ u := fun same => other n (same ▸ rfl)
    rw [Change.on, if_neg other]
    exact ⟨h, Nat.le_refl _⟩
  | _ =>
    rw [Change.on]
    split
    · exact ⟨awake, Nat.zero_le _⟩
    · exact ⟨h, Nat.le_refl _⟩

end Counting

namespace Kernel

variable {k k' : Kernel} {ch : Change} {t : TaskId}

theorem nap_eq_roster : k.nap t = k.roster[t.index]?.bind Task.nap := by
  rw [nap, roster, List.getElem?_map]
  cases k.tasks[t.index]? <;> rfl

theorem nap_of_roster (h : k'.roster = ch.apply k.roster) :
    k'.nap t = k.roster[t.index]?.bind fun x => (ch.on t x).nap := by
  rw [nap_eq_roster, h, Change.getElem?_apply]
  cases k.roster[t.index]? <;> rfl

theorem counting_of_roster (h : k'.roster = ch.apply k.roster) (counting : Counting (k.nap t))
    (other : ∀ n, ch ≠ .block t n) :
    Counting (k'.nap t) ∧ ticksLeft (k'.nap t) ≤ ticksLeft (k.nap t) := by
  rw [nap_of_roster h]
  rw [nap_eq_roster] at counting ⊢
  cases hx : k.roster[t.index]? with
  | none => exact ⟨.awake, Nat.le_refl _⟩
  | some x =>
    rw [hx] at counting
    exact counting.change other

theorem counting_tick (h : k'.roster = Change.tick.apply k.roster) (counting : Counting (k.nap t)) :
    Counting (k'.nap t) ∧ ticksLeft (k'.nap t) = ticksLeft (k.nap t) - 1 := by
  rw [nap_of_roster h]
  rw [nap_eq_roster] at counting ⊢
  cases hx : k.roster[t.index]? with
  | none => exact ⟨.awake, rfl⟩
  | some x =>
    rw [hx] at counting
    exact counting.tick

theorem nap_block {n : Int32} (h : k'.roster = (Change.block t n).apply k.roster) :
    k'.nap t = some n ∨ k'.nap t = none := by
  rw [nap_of_roster h]
  cases hx : k.roster[t.index]? with
  | none => exact .inr rfl
  | some x => exact .inl (by rw [Option.bind_some, Change.on, if_pos rfl]; rfl)

end Kernel

theorem Kernel.nap_addTask {k k' : Kernel} {t id : TaskId} {name : String} {priority : UInt8}
    {sp : StackPointer} {stackBytes : Nat}
    (h : k.addTask name priority sp stackBytes = some (id, k')) : k'.nap t = k.nap t := by
  have links := congrArg Option.join (map_addTask (f := Task.nap) (t := t) h fun _ _ => rfl)
  rw [← Option.bind_id_eq_join, ← Option.bind_id_eq_join, Option.bind_map, Option.bind_map] at links
  refine links.trans ?_
  rw [nap]
  -- The new task is awake.
  by_cases old : t.index < k.tasks.length
  · rw [List.getElem?_append_left old]
    rfl
  · rw [List.getElem?_append_right (Nat.not_lt.1 old), List.getElem?_eq_none (Nat.not_lt.1 old)]
    cases t.index - k.tasks.length <;> rfl

theorem Action.counting {β : Type} {a : Action β} {b : β} {c c' : Core} {t : TaskId}
    (result : a.toSection c = .ok b c') (h : Counting (c.kernel.nap t))
    (other : ∀ n, a.Makes (.block t n) → n ≠ 0 → c.kernel.current ≠ some t) :
    Counting (c'.kernel.nap t) ∧ ticksLeft (c'.kernel.nap t) +
      (if a.isTick && (c.kernel.nap t).isSome then 1 else 0) ≤ ticksLeft (c.kernel.nap t) := by
  by_cases tick : a.isTick
  · have ticked : c'.kernel.roster = Change.tick.apply c.kernel.roster := by
      cases a with
      | tick => exact (Section.tick_decides result).roster
      | _ => cases tick
    obtain ⟨counting, left⟩ := Kernel.counting_tick ticked h
    refine ⟨counting, ?_⟩
    rw [left, tick, Bool.true_and]
    split
    · next asleep => exact Nat.le_of_eq (Nat.sub_add_cancel (h.ticksLeft_pos asleep))
    · exact Nat.sub_le _ 1
  · have idle : (a.isTick && (c.kernel.nap t).isSome) = false := by
      rw [Bool.eq_false_iff.2 tick, Bool.false_and]
    rw [idle, if_neg nofun, Nat.add_zero]
    have same (eq : c'.kernel.nap t = c.kernel.nap t) : Counting (c'.kernel.nap t) ∧
        ticksLeft (c'.kernel.nap t) ≤ ticksLeft (c.kernel.nap t) :=
      ⟨eq ▸ h, Nat.le_of_eq (by rw [eq])⟩
    cases Action.taskStep result with
    | turns came =>
      cases came with
      | rests unmoved => exact Kernel.counting_of_roster unmoved.roster h nofun
      | decides ch may fits after =>
        refine Kernel.counting_of_roster after.roster h fun n is => ?_
        subst is
        exact other n may fits.2 fits.1
    | switches target _ took =>
      have roster : c'.kernel.roster = Change.rest.apply c.kernel.roster := took.roster
      exact Kernel.counting_of_roster roster h nofun
    | recruits is =>
      cases a with
      | addTask =>
        rcases Section.adding_ok result with ⟨-, rfl⟩ | ⟨id, -, added⟩
        · exact same rfl
        · exact same (Kernel.nap_addTask added)
      | startWith idle =>
        obtain ⟨_, -, -, kernel⟩ := Section.startWith_ok result
        exact same (kernel ▸ rfl)
      | _ => cases is

inductive Dozes {β : Type} (a : Action β) (w : Waitable) (t : TaskId) (k k' : Kernel) : Prop
  | sleepsOn (resumes : a.resumes = some (w, t)) (blocked : k.status t = some .invalid)
      (same : k' = k)
  | asleep (n : Int32) (makes : a.Makes (.block t n)) (waits : n ≠ 0) (current : k.current = some t)
      (inTime : ∀ w u, a.resumes = some (w, u) → k.status u = some .ok)
      (roster : k'.roster = (Change.block t n).apply k.roster)

theorem Action.dozes {β : Type} {a : Action β} {b : β} {c c' : Core} {w : Waitable} {t : TaskId}
    (result : a.toSection c = .ok b c') (tried : a.tried b = some (w, .asleep t)) :
    Dozes a w t c.kernel c'.kernel := by
  have dozes {r : Resource} {n : Int32} {resumed : Option TaskId} {v : Verdict}
      (came : Tries r n resumed c.kernel v c'.kernel) (what : (r.waitable, v) = (w, .asleep t))
      (makes : a.Makes (.block t n)) (resumes : a.resumes = resumed.map (r.waitable, ·)) :
      Dozes a w t c.kernel c'.kernel := by
    obtain ⟨rfl, rfl⟩ := Prod.mk.inj what
    generalize c'.kernel = k' at came ⊢
    cases came with
    | sleepsOn _ back blocked =>
      rw [back, Option.map_some] at resumes
      exact .sleepsOn resumes blocked rfl
    | asleep _ _ inTime _ waits current _ _ after =>
      refine .asleep n makes waits current (fun w u h => inTime u ?_) ?_
      · obtain ⟨u', rfl, same⟩ := Option.map_eq_some_iff.1 (resumes.symm.trans h)
        rw [(Prod.mk.inj same).2]
      · obtain ⟨next, stats, rfl⟩ := after
        exact (Kernel.changes_enlisted waits).roster
  cases a with
  | beginWait s n => exact dozes (Section.beginWait_ok result) (Option.some.inj tried) rfl rfl
  | resumeWait s n u => exact dozes (Section.resumeWait_ok result) (Option.some.inj tried) rfl rfl
  | beginLock m n => exact dozes (Section.beginLock_ok result).2 (Option.some.inj tried) rfl rfl
  | resumeLock m l n u => exact dozes (Section.resumeLock_ok result) (Option.some.inj tried) rfl rfl
  | _ => exact nomatch tried

theorem Action.suspends_of_makes {β : Type} {a : Action β} {t : TaskId} {n : Int32}
    (h : a.Makes (.block t n)) (waits : n ≠ 0) : a.suspends := by
  cases a with
  | delay | beginWait | beginLock => exact h ▸ waits
  | resumeWait | resumeLock => trivial
  | _ => exact h.elim

namespace System.Acts

variable {s : System} {p : Record} {c' : Core} {t : TaskId} {n : Int32}

theorem own_of_suspends (h : s.Acts p c') (hr : Reachable s) (suspends : p.outcome.action.suspends)
    (current : s.core.kernel.current = some t) : p.caller = .thread (some t) := by
  obtain ⟨c, calls, held, lost, log⟩ := s
  cases h with
  | call c' later earlier who call a next ph b calls may result =>
    obtain rfl : _ = later ++ _ :: earlier := calls
    exact current ▸ (hr.inContract.permits may).own suspends
  | switch => exact suspends.elim

theorem own_of_makes (h : s.Acts p c') (hr : Reachable s)
    (makes : p.outcome.action.Makes (.block t n)) (waits : n ≠ 0)
    (current : s.core.kernel.current = some t) : p.caller = .thread (some t) :=
  h.own_of_suspends hr (Action.suspends_of_makes makes waits) current

theorem own_of_resumes (h : s.Acts p c') (hr : Reachable s) {w : Waitable}
    (resumes : p.outcome.action.resumes = some (w, t)) : p.caller = .thread (some t) := by
  obtain ⟨c, calls, held, lost, log⟩ := s
  cases h with
  | call c' later earlier who call a next ph b calls may result =>
    obtain rfl : _ = later ++ _ :: earlier := calls
    have contract := hr.inContract
    exact (contract.sound _ (mem_middle.2 (.inr rfl))).sleeper w t
      ((contract.permits may).resumes.symm.trans resumes)
  | switch => exact nomatch resumes

theorem own_of_exits (h : s.Acts p c') (hr : Reachable s) (exits : p.outcome.action.exits)
    (current : s.core.kernel.current = some t) : p.caller = .thread (some t) :=
  h.own_of_suspends hr (Action.suspends_of_exits exits) current

theorem own_of_asleep (h : s.Acts p c') (hr : Reachable s) {w : Waitable}
    (tried : p.outcome.tried = some (w, .asleep t)) : p.caller = .thread (some t) := by
  cases Action.dozes h.result tried with
  | sleepsOn resumes => exact h.own_of_resumes hr resumes
  | asleep n makes waits current => exact h.own_of_makes hr makes waits current

theorem dozes_of_inTime (h : s.Acts p c') (hr : Reachable s) {w : Waitable}
    (tried : p.outcome.tried = some (w, .asleep t))
    (inTime : ∀ w u, p.outcome.action.resumes = some (w, u) → s.core.kernel.status u = some .ok) :
    p.dozes t := by
  refine Record.dozes_iff.2 ⟨w, tried, ?_⟩
  cases resumes : p.outcome.action.resumes with
  | none => exact .inl rfl
  | some x =>
    obtain ⟨w', u⟩ := x
    -- Only its own thread takes up a wait, so it is `t` that was woken.
    have own := (h.own_of_asleep hr tried).symm.trans (h.own_of_resumes hr resumes)
    obtain rfl : t = u := Option.some.inj (Caller.thread.inj own)
    exact .inr (h.kernel ▸ inTime w' t resumes)

end System.Acts

/-- How long task `t` has slept in its call, which waits for at most `n` ticks at a time. -/
structure WithinLimit {α : Type} (call : KernelCall α) (n : Int32) (t : TaskId) (k : Kernel)
    (log : List Record) : Prop where
  counting : Counting (k.nap t)
  /-- Since the call began to wait, there were at most `n` ticks for each time it fell asleep. -/
  limited : ∃ newer first older, log = newer ++ first :: older ∧
    first.Begins t ∧ first.call = some ⟨α, call⟩ ∧ (∀ p ∈ newer, ¬ p.Begins t) ∧
    ticksAsleep newer t + ticksLeft (k.nap t) ≤ n.toInt.toNat * sleeps (newer ++ [first]) t

namespace WithinLimit

variable {α : Type} {call : KernelCall α} {n : Int32} {t : TaskId} {k k' : Kernel}
  {log : List Record} {p : Record}

theorem later (h : WithinLimit call n t k log) (goesOn : ¬ p.Begins t)
    (counting : Counting (k'.nap t))
    (left : ticksLeft (k'.nap t) + (if p.passes t then 1 else 0) ≤
      ticksLeft (k.nap t) + if p.dozes t then n.toInt.toNat else 0) :
    WithinLimit call n t k' (p :: log) := by
  obtain ⟨-, newer, first, older, rfl, begins, is, goOn, limited⟩ := h
  refine ⟨counting, p :: newer, first, older, rfl, begins, is,
    List.forall_mem_cons.2 ⟨goesOn, goOn⟩, ?_⟩
  have ticks : ticksAsleep (p :: newer) t = ticksAsleep newer t + if p.passes t then 1 else 0 :=
    List.countP_cons
  have dozed : sleeps (p :: newer ++ [first]) t =
      sleeps (newer ++ [first]) t + if p.dozes t then 1 else 0 := List.countP_cons
  have dozed : n.toInt.toNat * sleeps (p :: newer ++ [first]) t =
      n.toInt.toNat * sleeps (newer ++ [first]) t + if p.dozes t then n.toInt.toNat else 0 := by
    rw [dozed, Nat.mul_add]
    split <;> simp
  omega

theorem begins (h : p.Begins t) (is : p.call = some ⟨α, call⟩) (dozes : p.dozes t)
    (counting : Counting (k.nap t)) (left : ticksLeft (k.nap t) ≤ n.toInt.toNat) :
    WithinLimit call n t k (p :: log) := by
  refine ⟨counting, [], p, log, rfl, h, is, fun _ h => (nomatch h), ?_⟩
  have dozed : sleeps ([] ++ [p]) t = 1 := by simp [sleeps, dozes]
  rw [dozed, Nat.mul_one, ticksAsleep, List.countP_nil, Nat.zero_add]
  exact left

end WithinLimit

theorem Action.not_isTick {β : Type} {a : Action β} {b : β} {x : Waitable × Verdict}
    (tried : a.tried b = some x) : a.isTick = false := by
  cases a <;> first | rfl | exact nomatch tried

/-- What holds of a call whenever it has put its task to sleep or found it asleep, and what no
section of another thread changes, holds while the call is blocked. -/
theorem Reachable.blocked_induction
    {P : {α : Type} → KernelCall α → Waitable → TaskId → Kernel → List Record → Prop}
    (aside : ∀ s p c', Reachable s → s.Acts p c' → ∀ {α : Type} (call : KernelCall α) w t,
      p.caller ≠ .thread (some t) → P call w t s.core.kernel s.log →
        P call w t c'.kernel (p :: s.log))
    (own : ∀ s p c', Reachable s → s.Acts p c' → ∀ {α : Type} (call : KernelCall α) w t,
      p.call = some ⟨α, call⟩ → p.outcome.tried = some (w, .asleep t) →
      (∀ n, call.limit = some n → ∀ u m, p.outcome.action.Makes (.block u m) → m = n) →
      (∀ w' u, p.outcome.action.resumes = some (w', u) → P call w' u s.core.kernel s.log) →
      P call w t c'.kernel (p :: s.log))
    {s : System} (h : Reachable s) : ∀ o ∈ s.calls, ∀ w t, o.phase.blocked = some (w, t) →
      P o.call w t s.core.kernel s.log := by
  induction h with
  | boot clock => exact fun _ h => nomatch h
  | step hr hs ih =>
    cases hs with
    | begin => exact List.forall_mem_cons.2 ⟨fun _ _ blocked => (nomatch blocked), ih⟩
    | reply c c' later earlier held lost log who call r next ph b may answer =>
      rw [answer.kernel_eq]
      exact forall_middle ih id
    | act c c' later earlier held lost log who call a next ph b may result =>
      have contract := hr.inContract
      intro o ho w t blocked
      -- Another call is blocked, whose thread did nothing, or the section is one of this call.
      rcases mem_middle.1 ho with ho | rfl
      · have stranger : who ≠ .thread (some t) := contract.other_thread may ⟨o, ho, blocked⟩
        exact aside _ _ c' hr (.call c' later earlier who call a next ph b rfl may result) o.call w
          t stranger (ih o (mem_middle.2 (.inl ho)) w t blocked)
      · have tried : a.tried b = some (w, .asleep t) := Phase.blocked_after.1 blocked
        obtain ⟨trail, came⟩ := hr.came _ (mem_middle.2 (.inr rfl))
        refine own _ _ c' hr (.call c' later earlier who call a next ph b rfl may result) call w t
          rfl tried (fun n limit => ?_) fun w' u resumes => ?_
        · exact (came.performs.heeds (limit ▸ rfl)).limit n limit
        · have before : ph.blocked = some (w', u) :=
            (contract.permits may).resumes.symm.trans resumes
          exact ih _ (mem_middle.2 (.inr rfl)) w' u before
    | unroll => exact forall_middle ih id
    | finish => exact fun o ho => ih o (mem_middle.2 (.inl ho))
    | switch s c sp resumed result =>
      exact fun o ho w t blocked => aside _ _ c hr (.switch c sp resumed result) o.call w t nofun
        (ih o ho w t blocked)
    | write => exact ih
    | drop => exact ih
    | elapse => exact ih

theorem Reachable.withinLimit {s : System} (h : Reachable s) :
    ∀ o ∈ s.calls, ∀ w t, o.phase.blocked = some (w, t) → ∀ n, o.call.limit = some n → 0 < n →
      WithinLimit o.call n t s.core.kernel s.log := by
  refine h.blocked_induction (P := fun call _ t k log => ∀ n, call.limit = some n → 0 < n →
    WithinLimit call n t k log) (fun s p c' hr acts _ call w t stranger kept n limit positive => ?_)
    fun s p c' hr acts _ call w t is tried waits slept n limit positive => ?_
  · have kept := kept n limit positive
    obtain ⟨counting, left⟩ := Action.counting acts.result kept.counting
      fun m makes waits current => stranger (acts.own_of_makes hr makes waits current)
    refine kept.later (fun begins => stranger begins.1) counting
      (Nat.le_trans ?_ (Nat.le_add_right ..))
    rw [Record.passes, acts.kernel]
    exact left
  · have passes : p.passes t = false := by
      rw [Record.passes, Action.not_isTick tried, Bool.false_and]
    have own := acts.own_of_asleep hr tried
    -- The task was found asleep still, or it was put to sleep, at first or once more.
    cases Action.dozes acts.result tried with
    | sleepsOn resumes _ same =>
      have kept := slept w t resumes n limit positive
      rw [same]
      have resuming : p.outcome.action.resumes ≠ none := Option.ne_none_iff_exists'.2 ⟨_, resumes⟩
      refine kept.later (fun begins => resuming begins.2.2) kept.counting ?_
      rw [passes]
      exact Nat.le_add_right ..
    | asleep m makes _ current inTime roster =>
      obtain rfl : m = n := waits n limit t m makes
      obtain ⟨counting, left⟩ : Counting (c'.kernel.nap t) ∧
          ticksLeft (c'.kernel.nap t) ≤ m.toInt.toNat := by
        rcases Kernel.nap_block roster with nap | nap <;> rw [nap]
        · exact ⟨fun m' is => Option.some.inj is ▸ positive, Nat.le_refl _⟩
        · exact ⟨.awake, Nat.zero_le _⟩
      have dozes := acts.dozes_of_inTime hr tried inTime
      cases resumes : p.outcome.action.resumes with
      | none =>
        have tries := Option.isSome_iff_exists.2 ⟨w, Action.tries_of_tried tried⟩
        exact .begins ⟨own, tries, resumes⟩ is dozes counting left
      | some x =>
        obtain ⟨w', u⟩ := x
        obtain rfl : t = u :=
          Option.some.inj (Caller.thread.inj (own.symm.trans (acts.own_of_resumes hr resumes)))
        have kept := slept w' t resumes m limit positive
        have resuming : p.outcome.action.resumes ≠ none := Option.ne_none_iff_exists'.2 ⟨_, resumes⟩
        refine kept.later (fun begins => resuming begins.2.2) counting ?_
        rw [passes, dozes]
        exact Nat.le_trans left (Nat.le_add_left ..)

/-- A call that waits for at most `n` ticks goes to sleep for `n` ticks whenever it finds nothing.
So the ticks that its task has slept and those that it will still sleep are no more than `n` for
each time that it fell asleep. -/
theorem Reachable.ticksAsleep_le {s : System} (h : Reachable s) {o : OpenCall} (ho : o ∈ s.calls)
    {w : Waitable} {t : TaskId} {n : Int32} (blocked : o.phase.blocked = some (w, t))
    (limit : o.call.limit = some n) (positive : 0 < n) :
    ∃ newer first older, s.log = newer ++ first :: older ∧
      first.Begins t ∧ first.call = some ⟨o.α, o.call⟩ ∧ (∀ p ∈ newer, ¬ p.Begins t) ∧
      ticksAsleep newer t + ticksLeft (s.core.kernel.nap t) ≤
        n.toInt.toNat * sleeps (newer ++ [first]) t :=
  (h.withinLimit o ho w t blocked n limit positive).limited

/-- A task that was to wait for two ticks at most has slept for three and has just run out of time,
as another task took the unit that it was woken for after the first. -/
theorem ticksAsleep_oversleeps :
    (System.run Script.oversleeps).calls.map (·.phase.blocked) = [some (.semaphore ⟨0⟩, ⟨0⟩)] ∧
      (System.run Script.oversleeps).calls.map (·.call.limit) = [some 2] ∧
      ticksAsleep (System.run Script.oversleeps).log ⟨0⟩ = 3 ∧
      (System.run Script.oversleeps).core.kernel.standing ⟨0⟩ = some (.run, .timeout) ∧
      ∃ o ∈ (System.run Script.oversleeps).calls, ∃ newer first older,
        (System.run Script.oversleeps).log = newer ++ first :: older ∧
        first.Begins ⟨0⟩ ∧ first.call = some ⟨o.α, o.call⟩ ∧ (∀ p ∈ newer, ¬ p.Begins ⟨0⟩) ∧
        ticksAsleep newer ⟨0⟩ + ticksLeft ((System.run Script.oversleeps).core.kernel.nap ⟨0⟩) ≤
          (2 : Int32).toInt.toNat * sleeps (newer ++ [first]) ⟨0⟩ := by
  have one : 0 < (System.run Script.oversleeps).calls.length := by decide +kernel
  refine ⟨by decide +kernel, by decide +kernel, by decide +kernel, by decide +kernel,
    (System.run Script.oversleeps).calls.get ⟨0, one⟩, List.get_mem _ _, ?_⟩
  exact (System.reachable_run Script.oversleeps).ticksAsleep_le (List.get_mem _ _)
    (w := .semaphore ⟨0⟩) (by decide +kernel +revert) (by decide +kernel +revert) (by decide)

end Rtos
