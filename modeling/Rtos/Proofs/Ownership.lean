import Rtos.Proofs.Ledger

/-!
# Who owns a mutex

A task owns a mutex while it has locked it more often than it has unlocked it, and the depth is the
difference. A lock is a claim by the current task, so two tasks never own one mutex. A try that does
not claim leaves every mutex as it is, and so does an unlock by a task that is not the owner.
-/

namespace Rtos

namespace Record

def Locks (p : Record) (m : MutexId) (t : TaskId) : Prop :=
  p.claims = some (.mutex m) ∧ p.kernel.current = some t

def Unlocks (p : Record) (m : MutexId) (t : TaskId) : Prop :=
  p.outcome.action.unlocks = some m ∧ p.kernel.current = some t

instance (p : Record) (m : MutexId) (t : TaskId) : Decidable (p.Locks m t) :=
  inferInstanceAs (Decidable (_ ∧ _))

instance (p : Record) (m : MutexId) (t : TaskId) : Decidable (p.Unlocks m t) :=
  inferInstanceAs (Decidable (_ ∧ _))

end Record

def locksOf (log : List Record) (m : MutexId) (t : TaskId) : Nat := log.countP (·.Locks m t)

def unlocksOf (log : List Record) (m : MutexId) (t : TaskId) : Nat := log.countP (·.Unlocks m t)

section

variable {p : Record} {log : List Record} {m : MutexId} {t : TaskId}

theorem locksOf_cons : locksOf (p :: log) m t = locksOf log m t + if p.Locks m t then 1 else 0 := by
  simp [locksOf, List.countP_cons]

theorem unlocksOf_cons :
    unlocksOf (p :: log) m t = unlocksOf log m t + if p.Unlocks m t then 1 else 0 := by
  simp [unlocksOf, List.countP_cons]

end

/-- The locks of a mutex are those of its owner, which have not all been undone. -/
structure Owned (k : Kernel) (log : List Record) (m : MutexId) : Prop where
  free : (k.hold m).2 = 0 ↔ (k.hold m).1 = none
  counts : ∀ t, locksOf log m t = unlocksOf log m t +
    if (k.hold m).1 = some t then (k.hold m).2.toNat else 0

namespace Owned

variable {k k' : Kernel} {log : List Record} {m : MutexId} {p : Record}

theorem initial (clock : Clock) (m : MutexId) : Owned ({ clock : Core }).kernel [] m :=
  ⟨⟨fun _ => rfl, fun _ => rfl⟩, fun _ => rfl⟩

theorem keeps (h : Owned k log m) (hold : k'.hold m = k.hold m) (locks : ∀ t, ¬ p.Locks m t)
    (unlocks : ∀ t, ¬ p.Unlocks m t) : Owned k' (p :: log) m := by
  refine ⟨hold ▸ h.free, fun t => ?_⟩
  rw [locksOf_cons, unlocksOf_cons, if_neg (locks t), if_neg (unlocks t), hold, h.counts t]
  omega

theorem locks (h : Owned k log m) {me : TaskId} (claims : p.claims = some (.mutex m))
    (current : p.kernel.current = some me) (unlocks : ∀ t, ¬ p.Unlocks m t)
    (free : (k.hold m).2 = 0 ∨ (k.hold m).1 = some me) (room : (k.hold m).2 + 1 ≠ 0)
    (after : k'.hold m = (some me, (k.hold m).2 + 1)) : Owned k' (p :: log) m := by
  refine ⟨?_, fun t => ?_⟩
  · rw [after]
    exact ⟨fun h => (room h).elim, fun h => nomatch h⟩
  have counts := h.counts t
  have locks : p.Locks m t ↔ me = t :=
    ⟨fun h => Option.some.inj (current.symm.trans h.2), fun h => ⟨claims, h ▸ current⟩⟩
  rw [locksOf_cons, unlocksOf_cons, if_neg (unlocks t), after]
  simp only [locks, Option.some.injEq, UInt32.toNat_add_one room]
  -- Nobody but the one that locks now had locks left before.
  have owned : (k.hold m).1 = none ∧ (k.hold m).2.toNat = 0 ∨ (k.hold m).1 = some me := by
    refine free.imp_left fun depth => ⟨h.free.1 depth, ?_⟩
    rw [depth]
    rfl
  rcases owned with ⟨owner, depth⟩ | owner
  · simp only [owner, depth] at counts ⊢
    split <;> simp_all
  · simp only [owner, Option.some.injEq] at counts
    split <;> simp_all
    omega

theorem unlocks (h : Owned k log m) {me : TaskId} (unlocks : p.outcome.action.unlocks = some m)
    (current : p.kernel.current = some me) (locks : ∀ t, ¬ p.Locks m t)
    (owner : (k.hold m).1 = some me) (held : (k.hold m).2 ≠ 0)
    (after : k'.hold m = (if (k.hold m).2 = 1 then none else some me, (k.hold m).2 - 1)) :
    Owned k' (p :: log) m := by
  have less := UInt32.toNat_sub_one held
  have last : (k.hold m).2 = 1 ↔ (k.hold m).2 - 1 = 0 := by
    rw [← UInt32.toNat_inj, ← UInt32.toNat_inj]
    simp only [UInt32.toNat_one, UInt32.toNat_zero]
    omega
  constructor
  · rw [after, ← last]
    dsimp only
    split <;> simp_all
  · intro t
    have counts := h.counts t
    have unlocks : p.Unlocks m t ↔ me = t :=
      ⟨fun h => Option.some.inj (current.symm.trans h.2), fun h => ⟨unlocks, h ▸ current⟩⟩
    rw [locksOf_cons, unlocksOf_cons, if_neg (locks t), after]
    simp only [unlocks, owner, Option.some.injEq] at counts ⊢
    by_cases one : (k.hold m).2 = 1
    · simp only [one] at counts ⊢
      split <;> simp_all
    · simp only [one] at counts ⊢
      split <;> simp_all
      omega

theorem act {β : Type} {a : Action β} {b : β} {c c' : Core} (h : Owned c.kernel log m)
    (result : a.toSection c = .ok b c') (own : ∀ l, a.locker = some l → c.kernel.current = some l)
    {p : Record} (kernel : p.kernel = c.kernel) (outcome : p.outcome = ⟨a, b⟩) :
    Owned c'.kernel (p :: log) m := by
  obtain ⟨_, caller, call, _⟩ := p
  subst kernel outcome
  cases Action.objectStep result with
  | alike claims unlocks _ alike =>
    exact h.keeps (alike.holds m) (fun t h => claims m h.1) fun t h =>
      nomatch unlocks.symm.trans h.1
  | creates _ _ claims unlocks _ _ _ mutexes =>
    refine h.keeps ?_ (fun t h => nomatch claims.symm.trans h.1) fun t h =>
      nomatch unlocks.symm.trans h.1
    rw [Kernel.hold, Kernel.hold, mutexes]
  | locks m' me claims unlocks _ who free room after others _ =>
    have idle (t : TaskId) : ¬ Record.Unlocks ⟨c.kernel, caller, call, ⟨a, b⟩⟩ m t := fun h =>
      nomatch unlocks.symm.trans h.1
    by_cases same : m = m'
    · subst same
      exact h.locks claims (who.elim id (own me)) idle free room after
    · refine h.keeps (others m same) (fun t h => same ?_) idle
      exact Waitable.mutex.inj (Option.some.inj (h.1.symm.trans claims))
  | unlocks m' me claims unlocks _ current owner held after others _ =>
    have idle (t : TaskId) : ¬ Record.Locks ⟨c.kernel, caller, call, ⟨a, b⟩⟩ m t := fun h =>
      nomatch claims.symm.trans h.1
    by_cases same : m = m'
    · subst same
      exact h.unlocks unlocks current idle owner held after
    · exact h.keeps (others m same) idle fun t h => same (Option.some.inj (h.1.symm.trans unlocks))

end Owned

theorem Action.suspends_of_locker {β : Type} {a : Action β} {l : TaskId} (h : a.locker = some l) :
    a.suspends ∧ a.tries.isSome := by
  cases a <;> first | exact ⟨trivial, rfl⟩ | exact nomatch h

theorem Performs.runs {who : Caller} {γ : Type} {call : KernelCall γ} {trail : List Passage}
    {p : Program Unit γ} (h : Performs who call trail p) :
    ∀ x ∈ trail, who.Runs call x.before := by
  induction h with
  | begins => exact fun _ h => nomatch h
  | acts _ runs _ ih => exact List.forall_mem_cons.2 ⟨runs, ih⟩
  | goesOn _ _ ih => exact ih
  | unrolls _ ih => exact ih

theorem Reachable.locker {s : System} (h : Reachable s) {p : Record} {c' : Core}
    (acts : s.Acts p c') {l : TaskId} (locker : p.outcome.action.locker = some l) :
    s.core.kernel.current = some l := by
  cases acts with
  | switch => exact nomatch locker
  | call _ later earlier who call a next ph b calls may =>
    obtain ⟨c, _, held, lost, log⟩ := s
    obtain rfl : _ = later ++ _ :: earlier := calls
    obtain ⟨suspends, tries⟩ := Action.suspends_of_locker locker
    obtain ⟨w, tries⟩ := Option.isSome_iff_exists.1 tries
    have permits := h.inContract.permits may
    have waits := (permits.awaits w tries).waits
    obtain ⟨trail, came⟩ := h.came _ (mem_middle.2 (.inr rfl))
    obtain ⟨p, hp, current⟩ := (came.performs.heeds waits).locker l locker
    -- The first section of the call was one of the same thread.
    have runs := came.performs.runs p hp
    obtain rfl : who = .thread c.kernel.current := permits.own suspends
    rcases runs with runs | runs
    · exact runs.symm.trans current
    · exact nomatch (KernelCall.not_isStart waits).symm.trans runs

theorem Reachable.locks {s : System} (h : Reachable s) {p : Record} {c' : Core}
    (acts : s.Acts p c') {m : MutexId} (claims : p.claims = some (.mutex m)) :
    ∃ t, s.core.kernel.current = some t ∧
      ((s.core.kernel.hold m).2 = 0 ∨ (s.core.kernel.hold m).1 = some t) := by
  cases Action.objectStep acts.result with
  | alike none => exact (none m claims).elim
  | creates _ _ none => exact nomatch none.symm.trans claims
  | unlocks _ _ none => exact nomatch none.symm.trans claims
  | locks m' me is _ _ who free =>
    obtain rfl : m' = m := Waitable.mutex.inj (Option.some.inj (is.symm.trans claims))
    exact ⟨me, who.elim id (h.locker acts), free⟩

theorem Reachable.owned {s : System} (h : Reachable s) (m : MutexId) :
    Owned s.core.kernel s.log m :=
  h.log_induction (P := (Owned · · m)) (.initial · m) fun _ _ _ hr acts ih =>
    ih.act acts.result (fun _ => hr.locker acts) acts.kernel rfl

theorem Reachable.locks_of_claims {s : System} (h : Reachable s) : ∀ p ∈ s.log, ∀ m,
    p.claims = some (.mutex m) → ∃ t, p.Locks m t ∧
      (p.caller = .handler ∨ p.caller = .thread (some t)) := by
  refine h.log_induction (P := fun _ log => ∀ p ∈ log, ∀ m, p.claims = some (.mutex m) →
    ∃ t, p.Locks m t ∧ (p.caller = .handler ∨ p.caller = .thread (some t)))
    (fun _ _ h => nomatch h)
    fun s p c' hr acts ih => List.forall_mem_cons.2 ⟨fun m claims => ?_, ih⟩
  have tries := Action.tries_of_tried (Action.claims_eq_some.1 claims)
  obtain ⟨t, current, -⟩ := hr.locks acts claims
  obtain ⟨-, -, -, caller⟩ := hr.waits_of_tries acts tries
  exact ⟨t, ⟨claims, acts.kernel ▸ current⟩, current ▸ caller⟩

theorem Owned.exclusive {k : Kernel} {log : List Record} {m : MutexId} (h : Owned k log m)
    {t u : TaskId} (free : (k.hold m).2 = 0 ∨ (k.hold m).1 = some t) (other : u ≠ t) :
    locksOf log m u = unlocksOf log m u := by
  rw [h.counts u, if_neg, Nat.add_zero]
  rcases free with depth | owner
  · rw [h.free.1 depth]
    exact nofun
  · rw [owner]
    exact fun h => other (Option.some.inj h).symm

theorem Reachable.exclusive {s : System} (h : Reachable s) : ∀ newer p older,
    s.log = newer ++ p :: older → ∀ m t, p.Locks m t → ∀ u ≠ t,
      locksOf older m u = unlocksOf older m u := by
  refine h.log_induction (P := fun _ log => ∀ newer p older, log = newer ++ p :: older →
    ∀ m t, p.Locks m t → ∀ u ≠ t, locksOf older m u = unlocksOf older m u)
    (fun _ newer p older split => ?_) fun s p c' hr acts ih newer q older split => ?_
  · exact (List.append_ne_nil_of_right_ne_nil newer (List.cons_ne_nil p older) split.symm).elim
  · cases newer with
    | cons _ newer => exact ih newer q older (List.cons.inj split).2
    | nil =>
      obtain ⟨rfl, rfl⟩ := List.cons.inj split
      intro m t locks u other
      obtain ⟨me, current, free⟩ := hr.locks acts locks.1
      obtain rfl : me = t := Option.some.inj (current.symm.trans (acts.kernel ▸ locks.2))
      exact (hr.owned m).exclusive free other

theorem Action.claims_of_vain {β : Type} {a : Action β} {b : β} {w : Waitable} {v : Verdict}
    (tried : a.tried b = some (w, v)) (vain : v ≠ .claimed) : a.claims b = none := by
  unfold claims
  split
  · next h => exact (vain (Prod.mk.inj (Option.some.inj (tried.symm.trans h))).2).elim
  · rfl

theorem Action.unlocks_of_tried {β : Type} {a : Action β} {b : β} {x : Waitable × Verdict}
    (h : a.tried b = some x) : a.unlocks = none := by
  cases a <;> first | rfl | exact nomatch h

theorem Performs.objectStep {who : Caller} {γ : Type} {call : KernelCall γ} {trail : List Passage}
    {p : Program Unit γ} (h : Performs who call trail p) :
    ∀ x ∈ trail, ObjectStep x.outcome.action x.outcome.result x.before x.after := by
  induction h with
  | begins => exact fun _ h => nomatch h
  | acts _ _ result ih => exact List.forall_mem_cons.2 ⟨Action.objectStep result, ih⟩
  | goesOn _ _ ih => exact ih
  | unrolls _ ih => exact ih

/-- A wait that runs out of time leaves every mutex as it was, section by section. -/
theorem Performs.hold_of_timedOut {who : Caller} {γ : Type} {call : KernelCall γ}
    {trail : List Passage} {p : Program Unit γ} {w : Waitable} (h : Performs who call trail p)
    (waited : Waited w .timedOut trail) : ∀ x ∈ trail, ∀ m, x.after.hold m = x.before.hold m := by
  intro x hx m
  have vain : ∃ v, x.tried = some (w, v) ∧ v ≠ .claimed := by
    obtain ⟨last, earlier, rfl, timedOut, asleep⟩ := waited
    rcases List.mem_cons.1 hx with rfl | hx
    · exact ⟨_, timedOut, nofun⟩
    · obtain ⟨t, asleep⟩ := asleep x hx
      exact ⟨_, asleep, nofun⟩
  obtain ⟨v, tried, vain⟩ := vain
  cases h.objectStep x hx with
  | alike _ _ _ alike => exact alike.holds m
  | creates _ _ _ _ _ _ _ mutexes => rw [Kernel.hold, Kernel.hold, mutexes]
  | locks _ _ claims => cases (Action.claims_of_vain tried vain).symm.trans claims
  | unlocks _ _ _ unlocks => cases (Action.unlocks_of_tried tried).symm.trans unlocks

theorem Section.unlock_eq_error {c : Core} {m : MutexId} {x : Mutex}
    (found : c.kernel.mutexes[m.index]? = some x)
    (other : ∀ t, c.kernel.current = some t → x.owner ≠ some t) :
    Section.unlock m c = .error
      (if c.kernel.current.isNone then .notStarted else .unlockedByNonOwner x.name) c := by
  cases hc : c.kernel.current with
  | none =>
    refine bind_eq_error.2 (.inl (reading_eq_error.2 ⟨?_, rfl⟩))
    rw [Kernel.currentTask, hc]
    rfl
  | some me =>
    refine bind_eq_error.2 (.inr ⟨me, c, currentTask_eq_ok.2 ⟨hc, rfl⟩, ?_⟩)
    refine bind_eq_error.2 (.inr ⟨x, c, mutex_eq_ok.2 ⟨found, rfl⟩, ?_⟩)
    rw [if_pos (other me hc)]
    rfl

theorem System.InContract.not_claimedWhileHeld {s : System} (contract : s.InContract)
    (owned : ∀ m, Owned s.core.kernel s.log m) (name : String) :
    ¬ s.Faults (.claimedWhileHeld name) := by
  rintro ⟨o, faults⟩
  rcases faults.breaches contract trivial with ⟨he, -⟩ | ⟨_, _, _, _, _, _, _, breaches⟩
  · exact nomatch he
  cases breaches with
  | vacant q _ vacant =>
    obtain ⟨_, _, _, _, _, -, -, -, -, he⟩ := vacant
    exact nomatch he
  | tries r ticks resumed _ _ _ _ breaks =>
    obtain ⟨status, unsound, -⟩ := breaks
    cases unsound with
    | claimedWhileHeld m l x _ found free held =>
      have hold := Kernel.hold_of_found found
      have owned := (owned m).free
      rw [hold] at owned
      exact held (owned.1 free)

/-- Who owns the mutexes, by the locks and unlocks so far. -/
structure System.Excludes (s : System) : Prop where
  held : ∀ (m : MutexId) x, s.core.kernel.mutexes[m.index]? = some x →
    (0 < x.depth ↔ x.owner ≠ none)
  owner : ∀ (m : MutexId) x, s.core.kernel.mutexes[m.index]? = some x → ∀ t,
    x.owner = some t ↔ unlocksOf s.log m t < locksOf s.log m t
  depth : ∀ (m : MutexId) x, s.core.kernel.mutexes[m.index]? = some x → ∀ t, x.owner = some t →
    x.depth.toNat = locksOf s.log m t - unlocksOf s.log m t
  alone : ∀ m t u, unlocksOf s.log m t < locksOf s.log m t →
    unlocksOf s.log m u < locksOf s.log m u → t = u
  /-- A lock is one by the current task, whose thread makes it unless a handler does. -/
  locker : ∀ p ∈ s.log, ∀ m, p.claims = some (.mutex m) → ∃ t, p.Locks m t ∧
    (p.caller = .handler ∨ p.caller = .thread (some t))
  /-- All others had undone all their locks by then. -/
  exclusive : ∀ newer p older, s.log = newer ++ p :: older → ∀ m t, p.Locks m t → ∀ u ≠ t,
    locksOf older m u = unlocksOf older m u
  /-- A lock call claims in its last section, or it runs out of time and changes no mutex. -/
  calls : ∀ who m n rest ph, ⟨who, .lock m n, rest, ph⟩ ∈ s.calls →
    (∃ trail, OpenCall.Came s.log ⟨who, .lock m n, rest, ph⟩ trail) ∧
    ∀ trail, OpenCall.Came s.log ⟨who, .lock m n, rest, ph⟩ trail →
      (rest = .done .ok → Waited (.mutex m) .claimed trail) ∧
      (rest = .done .timeout → Waited (.mutex m) .timedOut trail ∧
        ∀ p ∈ trail, ∀ m', p.after.hold m' = p.before.hold m')
  /-- One without a time limit does not return otherwise. -/
  forever : ∀ who m ph, ⟨who, .lockUntilClaimed m, .done (), ph⟩ ∈ s.calls →
    ∀ trail, OpenCall.Came s.log ⟨who, .lockUntilClaimed m, .done (), ph⟩ trail →
      Waited (.mutex m) .claimed trail
  /-- Nobody else can unlock, and nothing changes when they try. -/
  strangers : ∀ (m : MutexId) x, s.core.kernel.mutexes[m.index]? = some x →
    (∀ t, s.core.kernel.current = some t → x.owner ≠ some t) →
      Section.unlock m s.core = .error
        (if s.core.kernel.current.isNone then .notStarted else .unlockedByNonOwner x.name) s.core

/-- In every run a mutex has at most one owner, who has locked it more often than unlocked it, and
no task that was woken ever finds it claimed by halves. -/
theorem Reachable.excludes {s : System} (h : Reachable s) :
    s.Excludes ∧ ∀ name, ¬ s.Faults (.claimedWhileHeld name) := by
  have owned := h.owned
  -- By the books of a mutex, its owner is the task whose locks are not all undone.
  have owner (m : MutexId) (t : TaskId) : (s.core.kernel.hold m).1 = some t ↔
      unlocksOf s.log m t < locksOf s.log m t := by
    have counts := (owned m).counts t
    constructor
    · intro owner
      rw [if_pos owner] at counts
      have held : (s.core.kernel.hold m).2 ≠ 0 := fun depth =>
        nomatch owner.symm.trans ((owned m).free.1 depth)
      have := UInt32.toNat_sub_one held
      omega
    · intro more
      by_contra other
      rw [if_neg other] at counts
      omega
  refine ⟨?_, h.inContract.not_claimedWhileHeld owned⟩
  constructor
  case held =>
    intro m x found
    have free := (owned m).free
    rw [Kernel.hold_of_found found] at free
    rw [UInt32.pos_iff_ne_zero]
    exact not_congr free
  case owner =>
    intro m x found t
    rw [← owner, Kernel.hold_of_found found]
  case depth =>
    intro m x found t owner
    have counts := (owned m).counts t
    rw [Kernel.hold_of_found found, if_pos owner] at counts
    dsimp only at counts
    omega
  case alone =>
    intro m t u ht hu
    exact Option.some.inj (((owner m t).2 ht).symm.trans ((owner m u).2 hu))
  case locker => exact h.locks_of_claims
  case exclusive => exact h.exclusive
  case calls =>
    refine fun who m n rest ph ho => ⟨h.came _ ho, fun trail came => ⟨?_, ?_⟩⟩
    · rintro rfl
      exact came.performs.returns rfl
    · rintro rfl
      have waited : Waited (.mutex m) .timedOut trail := came.performs.returns rfl
      exact ⟨waited, came.performs.hold_of_timedOut waited⟩
  case forever => exact fun who m ph _ trail came => came.performs.returns rfl
  case strangers => exact fun m x found => Section.unlock_eq_error found

/-- The unlock woke a task, but its last owner took the mutex again, so the task waits on. -/
theorem excludes_barges :
    locksOf (System.run Script.barges).log ⟨0⟩ ⟨1⟩ = 2 ∧
      unlocksOf (System.run Script.barges).log ⟨0⟩ ⟨1⟩ = 1 ∧
      (System.run Script.barges).core.kernel.hold ⟨0⟩ = (some ⟨1⟩, 1) ∧
      (System.run Script.barges).core.kernel.current = some ⟨0⟩ ∧
      (System.run Script.barges).calls.map (·.phase.blocked) = [some (.mutex ⟨0⟩, ⟨0⟩)] ∧
      (System.run Script.barges).Excludes :=
  ⟨by decide +kernel, by decide +kernel, by decide +kernel, by decide +kernel, by decide +kernel,
    (System.reachable_run Script.barges).excludes.1⟩

end Rtos
