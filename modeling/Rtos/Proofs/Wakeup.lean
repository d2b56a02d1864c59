import Rtos.Proofs.Coherence
import Rtos.Proofs.Script

/-!
# Wake-ups that get lost

A release wakes the first waiter only if that one still sleeps. So a unit can be free while tasks
sleep in line for it and nobody is about to claim it. `Reachable.lost_iff` says when: a release once
found a first waiter whose time was over and passed over the sleepers behind it.

The invariant counts. As long as a task sleeps in line, every free unit has a woken task that is going
to claim it, unless a release has passed a sleeper over.
-/

namespace Rtos

namespace Kernel

/-- Some task sleeps in line for `w`. -/
def Sleeps (k : Kernel) (w : Waitable) : Prop :=
  ∃ t ∈ k.waiting w, (k.standing t).map Prod.fst = some .sleep

/-- A release of `w` would wake nobody, as the time of the first waiter is over, though another
one sleeps. -/
def Overlooks (k : Kernel) (w : Waitable) : Prop :=
  k.Sleeps w ∧ ∃ t, (k.waiting w).head? = some t ∧ k.standing t = some (.run, .timeout)

instance (k : Kernel) (w : Waitable) : Decidable (k.Sleeps w) :=
  inferInstanceAs (Decidable (∃ t ∈ _, _))

variable {k k' : Kernel} {w : Waitable} {t me : TaskId} {ticks : Int32}

theorem standing_enlisted_of_ne (h : t ≠ me) : (k.enlisted w me ticks).standing t = k.standing t := by
  rw [standing, enlisted, tasks_withWaiters, WaitList.add]
  dsimp only
  split <;> rw [TaskTable.standing_update, if_neg h]
  · rw [TaskTable.standing_update_same]
    · rfl
    · intro _
      exact ⟨rfl, rfl⟩
  · rfl

theorem Rescheduled.standing (h : k.Rescheduled k') : k'.standing t = k.standing t := by
  obtain ⟨next, stats, rfl⟩ := h
  rfl

theorem Rescheduled.waiting (h : k.Rescheduled k') : k'.waiting w = k.waiting w := by
  obtain ⟨next, stats, rfl⟩ := h
  cases w <;> rfl

theorem Sleeps.congr (h : k'.Sleeps w) (lists : k'.waiting w = k.waiting w)
    (stands : ∀ t ∈ k.waiting w, k'.standing t = k.standing t) : k.Sleeps w := by
  obtain ⟨t, ht, asleep⟩ := h
  rw [lists] at ht
  exact ⟨t, ht, stands t ht ▸ asleep⟩

theorem Sleeps.of_updateTask {f : Task → Task} (h : k'.Sleeps w) (order : k.WaitsInOrder)
    (after : (k.updateTask me f).Rescheduled k') (link : ∀ x, (f x).nextWaiter = x.nextWaiter)
    (absent : me ∉ k.waiting w) : k.Sleeps w := by
  apply h.congr (after.waiting.trans ((order.updateTask link).2 w))
  intro t ht
  have other : t ≠ me := fun he => absent (he ▸ ht)
  rw [after.standing, standing_updateTask, if_neg other]

theorem Frees.order (h : k.Frees w k') (order : k.WaitsInOrder) :
    k'.WaitsInOrder ∧ ∀ w, k'.waiting w = k.waiting w :=
  order.congr h.lists (fun t => by rw [h.tasks]) (Nat.le_of_eq (by rw [h.tasks]))

theorem Frees.standing (h : k.Frees w k') : k'.standing t = k.standing t := by
  rw [Kernel.standing, Kernel.standing, h.tasks]

end Kernel

namespace WaitStep

variable {β : Type} {a : Action β} {b : β} {k k' : Kernel} {w : Waitable} {t : TaskId}

theorem stays_roused (h : WaitStep a b k k') (order : k.WaitsInOrder)
    (other : a.suspends → k.current ≠ some t) (roused : k.standing t = some (.run, .ok)) :
    k'.standing t = some (.run, .ok) := by
  cases h with
  | calm _ _ _ after =>
    have drift := after.standing t
    rw [roused] at drift
    generalize k'.standing t = x at drift
    cases drift with
    | same => rfl
  | delays me ticks _ _ _ suspends current after =>
    have hne : t ≠ me := fun ht => other suspends (ht ▸ current)
    rw [after.standing, Kernel.standing_updateTask, if_neg hne, roused]
  | exits me _ _ _ suspends current after =>
    have hne : t ≠ me := fun ht => other suspends (ht ▸ current)
    rw [after.standing, Kernel.standing_updateTask, if_neg hne, roused]
  | tries r ticks resumed v _ _ _ _ suspends came =>
    cases came with
    | sleepsOn => exact roused
    | timedOut => rw [Kernel.standing_unlisted, roused]
    | deeper => exact roused
    | claimed => cases r <;> exact roused
    | polled => exact roused
    | asleep me _ _ _ waits current _ _ after =>
      have hne : t ≠ me := fun ht => other (suspends (.inl waits)) (ht ▸ current)
      rw [after.standing, Kernel.standing_enlisted_of_ne hne, roused]
  | releases w k₁ _ _ _ frees after =>
    rw [after.standing]
    cases ((frees.order order).1.woken ((frees.has w).2 frees.found)).2 with
    | nobody same _ => rw [same, frees.standing, roused]
    | first u rest status _ _ _ stands =>
      rw [stands]
      split
      · rfl
      · rw [frees.standing, roused]

/-- A release wakes a waiter that slept, or it overlooks those that sleep. -/
theorem wakes_or_overlooks (h : WaitStep a b k k') (order : k.WaitsInOrder)
    (listed : ∀ t, t ∈ k.waiting w →
      k.standing t = some (.sleep, .invalid) ∨ k.standing t = some (.run, .timeout))
    (releases : a.releases k = some w) (sleeps : k'.Sleeps w) :
    k.Overlooks w ∨ ∃ t ∈ k.waiting w, k.standing t ≠ some (.run, .ok) ∧
      k'.standing t = some (.run, .ok) := by
  cases h with
  | calm _ _ idle _ => exact nomatch idle.symm.trans releases
  | delays _ _ _ _ idle _ _ _ => exact nomatch idle.symm.trans releases
  | exits _ _ _ idle _ _ _ => exact nomatch idle.symm.trans releases
  | tries _ _ _ _ _ _ idle _ _ _ => exact nomatch idle.symm.trans releases
  | releases w' k₁ _ _ which frees after =>
    obtain rfl : w' = w := Option.some.inj (which.symm.trans releases)
    obtain ⟨order₁, lists⟩ := frees.order order
    cases (order₁.woken ((frees.has w').2 frees.found)).2 with
    | nobody same awake =>
      refine .inl ?_
      rw [same] at after
      have before : k.Sleeps w' := sleeps.congr (after.waiting.trans (lists w')) fun t _ =>
        after.standing.trans frees.standing
      refine ⟨before, ?_⟩
      obtain ⟨t, ht, -⟩ := before
      obtain ⟨first, hf⟩ := Option.isSome_iff_exists.1 (List.isSome_head?.2 (List.ne_nil_of_mem ht))
      refine ⟨first, hf, (listed first (List.mem_of_head? hf)).resolve_left fun asleep => ?_⟩
      exact awake first (lists w' ▸ hf) .invalid (frees.standing.trans asleep)
    | first t rest status asleep list _ stands =>
      refine .inr ⟨t, ?_, ?_, ?_⟩
      · rw [← lists, list]
        exact List.mem_cons_self
      · rw [← frees.standing, asleep]
        intro h
        exact nomatch h
      · rw [after.standing, stands, if_pos rfl]

theorem claims_of_roused (h : WaitStep a b k k') (resumes : a.resumes = some (w, t))
    (roused : k.standing t = some (.run, .ok)) (free : k'.units w ≠ 0) : a.claims b = some w := by
  rw [Action.claims_eq_some]
  have status : k.status t = some .ok := by rw [Kernel.status, roused, Option.map_some]
  have tries (tried : a.tried b = none) : False := by
    rw [Action.resumes_of_tried tried] at resumes
    cases resumes
  cases h with
  | calm tried _ _ _ => exact (tries tried).elim
  | delays _ _ tried _ _ _ _ _ => exact (tries tried).elim
  | exits _ tried _ _ _ _ _ => exact (tries tried).elim
  | releases _ _ tried _ _ _ _ => exact (tries tried).elim
  | tries r ticks resumed v tried _ _ back _ came =>
    rw [resumes] at back
    obtain ⟨u, rfl, he⟩ := Option.map_eq_some_iff.1 back.symm
    obtain ⟨rfl, rfl⟩ := Prod.mk.inj he
    cases came with
    | sleepsOn _ back blocked =>
      cases back
      cases blocked.symm.trans status
    | timedOut _ _ back late _ =>
      cases back
      cases late.symm.trans status
    | deeper _ _ _ first => cases first
    | claimed => exact tried
    | polled _ busy _ => exact (free busy).elim
    | asleep me _ _ busy _ _ _ _ after =>
      rw [after.units, Kernel.enlisted, Kernel.units_withWaiters] at free
      exact (free busy).elim

end WaitStep

namespace Kernel

variable {k k' : Kernel} {W : Waitable → TaskId → Prop} {G : TaskId → Prop} {w : Waitable}
  {ticks : Int32}

theorem Coheres.sleeps_before_try {r : Resource} {resumed : Option TaskId} {v : Verdict}
    (h : k.Coheres W G) (came : Tries r ticks resumed k v k')
    (up : k.TakesUp W (ticks ≠ 0 ∨ resumed ≠ none) (resumed.map (r.waitable, ·)))
    (free : k'.units w ≠ 0) (sleeps : k'.Sleeps w) : k.Sleeps w := by
  cases came with
  | sleepsOn => exact sleeps
  | timedOut t me back late current =>
    subst back
    obtain ⟨hW, ht⟩ := up.waits r.waitable t rfl
    obtain rfl : me = t := Option.some.inj (current.symm.trans ht)
    have listed := h.listed_of_timeout hW late
    obtain ⟨-, lists, stands⟩ := h.order.unlisted (has_of_mem listed) listed
    obtain ⟨u, hu, asleep⟩ := sleeps
    rw [lists] at hu
    refine ⟨u, ?_, stands u ▸ asleep⟩
    split at hu
    · next he => exact he ▸ List.mem_of_mem_erase hu
    · exact hu
  | deeper m me x =>
    have order : (k.withDepth m (x.depth + 1)).WaitsInOrder ∧
        ∀ w, (k.withDepth m (x.depth + 1)).waiting w = k.waiting w :=
      h.order.congr (fun w => waitersOf_modifyMutex fun _ => rfl) (fun _ => rfl) (Nat.le_refl _)
    exact sleeps.congr (order.2 w) fun _ _ => rfl
  | claimed =>
    have tasks : (k.claimed r).tasks = k.tasks := by cases r <;> rfl
    have order : (k.claimed r).WaitsInOrder ∧ ∀ w, (k.claimed r).waiting w = k.waiting w :=
      h.order.congr (fun _ => waitersOf_claimed) (fun t => by rw [tasks])
        (Nat.le_of_eq (by rw [tasks]))
    exact sleeps.congr (order.2 w) fun t _ => by rw [standing, standing, tasks]
  | polled => exact sleeps
  | asleep me _ inTime busy waits current _ found after =>
    have absent := h.absent (fun w hW => up.own (.inl waits) w me current hW) inTime
    obtain ⟨-, lists, stands⟩ := h.order.enlisted found absent (h.current me current) waits
    rw [after.units, Kernel.enlisted, units_withWaiters] at free
    have hne : w ≠ r.waitable := by
      rintro rfl
      exact free busy
    apply sleeps.congr (after.waiting.trans ((lists w).trans (if_neg hne)))
    intro t ht
    have other : t ≠ me := fun he => absent w (he ▸ ht)
    rw [after.standing, stands, if_neg other]

theorem Frees.sleeps_before {w' : Waitable} {k₁ : Kernel} (frees : k.Frees w' k₁)
    (order : k.WaitsInOrder) (after : (k₁.woken w').Rescheduled k') (sleeps : k'.Sleeps w) :
    k.Sleeps w := by
  obtain ⟨order, lists₁⟩ := frees.order order
  cases (order.woken ((frees.has w').2 frees.found)).2 with
  | nobody same _ =>
    rw [same] at after
    exact sleeps.congr (after.waiting.trans (lists₁ w)) fun t _ =>
      after.standing.trans frees.standing
  | first t rest _ _ list lists stands =>
    obtain ⟨u, hu, asleep⟩ := sleeps
    rw [after.standing, stands] at asleep
    split at asleep
    · cases asleep
    rw [frees.standing] at asleep
    refine ⟨u, ?_, asleep⟩
    rw [after.waiting, lists] at hu
    rw [← lists₁]
    split at hu
    · next he => exact he ▸ list ▸ List.mem_cons_of_mem t hu
    · exact hu

/-- Who sleeps in line for an object that has units slept there before. -/
theorem Coheres.sleeps_before {β : Type} {a : Action β} {b : β}
    {blocked : Option (Waitable × TaskId)} (h : k.Coheres W G) (step : WaitStep a b k k')
    (resumes : a.resumes = blocked) (up : k.TakesUp W a.suspends blocked)
    (free : k'.units w ≠ 0) (sleeps : k'.Sleeps w) : k.Sleeps w := by
  subst resumes
  -- The task that puts itself to sleep, or ends, is on no list.
  have absent {me : TaskId} (tried : a.tried b = none) (suspends : a.suspends)
      (current : k.current = some me) : me ∉ k.waiting w := by
    intro listed
    have hb := up.own suspends w me current (h.inside w me listed)
    exact nomatch (Action.resumes_of_tried tried).symm.trans hb
  cases step with
  | calm _ _ _ after =>
    obtain ⟨t, ht, asleep⟩ := sleeps
    rw [(h.order.calm after).2] at ht
    refine ⟨t, ht, ?_⟩
    have drift := after.standing t
    generalize k.standing t = x, k'.standing t = y at drift asleep ⊢
    cases drift with
    | same => exact asleep
    | roused => cases asleep
    | created => cases asleep
  | delays me ticks tried _ _ suspends current after =>
    exact sleeps.of_updateTask h.order after (fun _ => rfl) (absent tried suspends current)
  | exits me tried _ _ suspends current after =>
    exact sleeps.of_updateTask h.order after (fun _ => rfl) (absent tried suspends current)
  | tries r ticks resumed v _ _ _ resumes suspends came =>
    rw [resumes] at up
    exact h.sleeps_before_try came (up.mono suspends) free sleeps
  | releases w' k₁ _ _ _ frees after => exact frees.sleeps_before h.order after sleeps

end Kernel

/-- The task of the call was woken by a release of `w` and has not gone on yet. -/
def OpenCall.isRoused (k : Kernel) (w : Waitable) (o : OpenCall) : Bool :=
  match o.phase.blocked with
  | some (w', t) => w' = w ∧ k.standing t = some (.run, .ok)
  | none => false

def roused (k : Kernel) (w : Waitable) (calls : List OpenCall) : Nat := calls.countP (·.isRoused k w)

section

variable {k k' : Kernel} {w : Waitable} {o : OpenCall} {calls later earlier : List OpenCall}

theorem OpenCall.isRoused_iff : o.isRoused k w ↔
    ∃ t, o.phase.blocked = some (w, t) ∧ k.standing t = some (.run, .ok) := by
  unfold isRoused
  split
  · next w' t h =>
    rw [h, decide_eq_true_iff]
    constructor
    · rintro ⟨rfl, ht⟩
      exact ⟨t, rfl, ht⟩
    · rintro ⟨_, ⟨⟩, ht⟩
      exact ⟨rfl, ht⟩
  · next h =>
    rw [h]
    exact ⟨fun h => (nomatch h), fun ⟨_, h, _⟩ => nomatch h⟩

theorem roused_middle : roused k w (later ++ o :: earlier) =
    roused k w (later ++ earlier) + if o.isRoused k w then 1 else 0 := by
  simp only [roused, List.countP_append, List.countP_cons, Nat.add_assoc]

theorem roused_mono (h : ∀ o ∈ calls, o.isRoused k w → o.isRoused k' w) :
    roused k w calls ≤ roused k' w calls := List.countP_mono_left h

theorem roused_lt (h : ∀ o ∈ calls, o.isRoused k w → o.isRoused k' w) (ho : o ∈ calls)
    (before : ¬ o.isRoused k w) (after : o.isRoused k' w) :
    roused k w calls < roused k' w calls := by
  obtain ⟨later, earlier, rfl⟩ := List.append_of_mem ho
  rw [roused_middle, roused_middle, if_neg before, if_pos after]
  exact Nat.lt_succ_of_le (roused_mono fun x hx => h x (mem_middle.2 (.inl hx)))

end

def Record.Overlooks (p : Record) (w : Waitable) : Prop :=
  p.outcome.action.releases p.kernel = some w ∧ p.kernel.Overlooks w

namespace System

/-- A release of `w` has overlooked sleepers, and ever since units have been free while tasks slept
in line. -/
def Overlooked (s : System) (w : Waitable) : Prop :=
  0 < s.core.kernel.units w ∧ s.core.kernel.Sleeps w ∧
    ∃ newer p older, s.log = newer ++ p :: older ∧ p.Overlooks w ∧
      ∀ x ∈ newer, 0 < x.kernel.units w ∧ x.kernel.Sleeps w

/-- Every free unit has a woken task that is going to claim it, unless sleepers were overlooked. -/
def Tended (s : System) (w : Waitable) : Prop :=
  s.core.kernel.Sleeps w →
    s.core.kernel.units w ≤ roused s.core.kernel w s.calls ∨ s.Overlooked w

theorem Overlooked.after {s s' : System} {w : Waitable} {p : Record} (h : s.Overlooked w)
    (log : s'.log = p :: s.log) (before : p.kernel = s.core.kernel)
    (free : 0 < s'.core.kernel.units w) (sleeps : s'.core.kernel.Sleeps w) : s'.Overlooked w := by
  obtain ⟨free', sleeps', newer, x, older, hlog, overlooks, since⟩ := h
  refine ⟨free, sleeps, p :: newer, x, older, by rw [log, hlog, List.cons_append], overlooks,
    List.forall_mem_cons.2 ⟨?_, since⟩⟩
  rw [before]
  exact ⟨free', sleeps'⟩

theorem Tended.act {c c' : Core} {later earlier : List OpenCall} {held : List Message}
    {lost : List MessageId} {log : List Record} {who : Caller} {α β : Type} {call : KernelCall α}
    {a : Action β} {next : Except Fault β → Program Unit α} {ph : Phase} {b : β} {w : Waitable}
    (contract : InContract
      ⟨c, later ++ ⟨who, call, .ask (.act a) next, ph⟩ :: earlier, held, lost, log⟩)
    (coheres : Coheres ⟨c, later ++ ⟨who, call, .ask (.act a) next, ph⟩ :: earlier, held, lost, log⟩)
    (h : Tended ⟨c, later ++ ⟨who, call, .ask (.act a) next, ph⟩ :: earlier, held, lost, log⟩ w)
    (may : OpenCall.MayGoOn ⟨who, call, .ask (.act a) next, ph⟩ later c.kernel)
    (result : a.toSection c = .ok b c') :
    Tended ⟨c', later ++ ⟨who, call, next (.ok b), ph.after ⟨a, b⟩⟩ :: earlier, held, lost,
      ⟨c.kernel, who, some ⟨α, call⟩, ⟨a, b⟩⟩ :: log⟩ w := by
  intro sleeps
  have step := Action.waitStep result
  have permits := contract.permits may
  by_cases free : c'.kernel.units w = 0
  · exact .inl (Nat.le_trans (Nat.le_of_eq free) (Nat.zero_le _))
  have before : c.kernel.Sleeps w :=
    coheres.sleeps_before step permits.resumes (contract.takesUp may) free sleeps
  rcases h before with enough | overlooked
  swap
  · exact .inr (overlooked.after rfl rfl (Nat.pos_of_ne_zero free) sleeps)
  obtain ⟨_, listed, -⟩ := before
  have units := (step.units (Kernel.has_of_mem listed)).resolve_right fun hm => free hm.2
  dsimp only at enough ⊢
  rw [roused_middle] at enough ⊢
  -- The other calls whose tasks were woken are still there.
  have stays : ∀ o ∈ later ++ earlier, o.isRoused c.kernel w → o.isRoused c'.kernel w := by
    intro o ho up
    obtain ⟨t, blocked, up⟩ := OpenCall.isRoused_iff.1 up
    refine OpenCall.isRoused_iff.2 ⟨t, blocked, step.stays_roused coheres.order ?_ up⟩
    intro suspends current
    apply contract.other_thread may ⟨o, ho, blocked⟩
    rw [← current]
    exact permits.own suspends
  have others := roused_mono stays
  by_cases roused : OpenCall.isRoused c.kernel w ⟨who, call, .ask (.act a) next, ph⟩
  · -- The call goes on and claims the unit that it was woken for.
    obtain ⟨t, blocked, up⟩ := OpenCall.isRoused_iff.1 roused
    have resumes := permits.resumes.trans blocked
    have claims := step.claims_of_roused resumes up free
    have releases : a.releases c.kernel = none := Action.releases_of_resumes resumes
    simp only [claims, releases, roused, ↓reduceIte, reduceCtorEq] at units enough
    exact .inl (by omega)
  by_cases releases : a.releases c.kernel = some w
  swap
  · simp only [releases, roused, ↓reduceIte, Bool.false_eq_true] at units enough
    exact .inl (by omega)
  rcases step.wakes_or_overlooks coheres.order (coheres.listed w) releases sleeps with
    overlooks | ⟨t, ht, down, up⟩
  · exact .inr ⟨Nat.pos_of_ne_zero free, sleeps, [], _, log, rfl, ⟨releases, overlooks⟩,
      fun _ h => nomatch h⟩
  · -- The task that was woken is inside another call.
    obtain ⟨o, ho, blocked⟩ := (waits_middle.1 (coheres.inside w t ht)).resolve_right fun blocked =>
      nomatch (Action.releases_of_resumes (permits.resumes.trans blocked)).symm.trans releases
    have more := roused_lt stays ho
      (fun h => by
        obtain ⟨u, hu, hup⟩ := OpenCall.isRoused_iff.1 h
        cases blocked.symm.trans hu
        exact down hup)
      (OpenCall.isRoused_iff.2 ⟨t, blocked, up⟩)
    simp only [releases, roused, ↓reduceIte, Bool.false_eq_true] at units enough
    exact .inl (by omega)

theorem Tended.step {s s' : System} {w : Waitable} (contract : s.InContract) (coheres : s.Coheres)
    (h : s.Tended w) (hs : System.Step s s') : s'.Tended w := by
  -- A step that carries out no section and after which the same tasks are roused.
  have same {s' : System} (kernel : s'.core.kernel = s.core.kernel) (log : s'.log = s.log)
      (calls : roused s.core.kernel w s'.calls = roused s.core.kernel w s.calls) :
      s'.Tended w := by
    simp only [Tended, Overlooked, kernel, log, calls]
    exact h
  cases hs with
  | begin _ who call held may _ => exact same rfl rfl (List.countP_cons_of_neg (nomatch ·))
  | reply c c' later earlier held lost log who call r next ph b may answer =>
    refine same answer.kernel_eq rfl ?_
    rw [roused_middle, roused_middle]
    rfl
  | act c c' later earlier held lost log who call a next ph b may result =>
    exact h.act contract coheres may result
  | unroll c later earlier held lost log who call body t next ph =>
    refine same rfl rfl ?_
    rw [roused_middle, roused_middle]
    rfl
  | finish c later earlier held lost log who call a ph =>
    have rests := (contract.sound _ (List.mem_append_right later List.mem_cons_self)).keeps
    have down : ¬ OpenCall.isRoused c.kernel w ⟨who, call, .done a, ph⟩ := fun up => by
      obtain ⟨t, blocked, -⟩ := OpenCall.isRoused_iff.1 up
      exact nomatch rests.blocked.symm.trans blocked
    refine same rfl rfl ?_
    rw [roused_middle, if_neg down]
    rfl
  | switch _ c sp resumed result =>
    intro sleeps
    have step := Action.waitStep (a := .switch sp) result
    have calm := (Section.Quiets.switch sp _ _ _ result).calm
    by_cases free : c.kernel.units w = 0
    · exact .inl (Nat.le_trans (Nat.le_of_eq free) (Nat.zero_le _))
    have before : s.core.kernel.Sleeps w := coheres.sleeps_before step rfl .nothing free sleeps
    rcases h before with enough | overlooked
    swap
    · exact .inr (overlooked.after rfl rfl (Nat.pos_of_ne_zero free) sleeps)
    obtain ⟨t, listed, -⟩ := before
    have units := calm.units w (Kernel.has_of_mem listed)
    refine .inl (Nat.le_trans (Nat.le_of_eq units) (Nat.le_trans enough ?_))
    apply roused_mono
    intro o _ up
    obtain ⟨t, blocked, up⟩ := OpenCall.isRoused_iff.1 up
    exact OpenCall.isRoused_iff.2 ⟨t, blocked, step.stays_roused coheres.order (fun h => h.elim) up⟩
  | write => exact same rfl rfl rfl
  | drop => exact same rfl rfl rfl
  | elapse => exact same rfl rfl rfl

def NobodyUp (s : System) (w : Waitable) : Prop :=
  ∀ o ∈ s.calls, ∀ t, o.phase.blocked = some (w, t) →
    ¬ TaskTable.isRunnable s.core.kernel.tasks t

/-- A wake-up for `w` got lost: units are free and tasks sleep in line for them, but nobody who waits
can run. -/
def Lost (s : System) (w : Waitable) : Prop :=
  0 < s.core.kernel.units w ∧ s.core.kernel.Sleeps w ∧ s.NobodyUp w

end System

theorem TaskTable.isRunnable_of_standing {tasks : List Task} {t : TaskId} {status : TaskStatus}
    (h : standing tasks t = some (.run, status)) : isRunnable tasks t := by
  obtain ⟨x, found, hx⟩ := Option.map_eq_some_iff.1 h
  simp [isRunnable, found, Task.isRunnable, (Prod.mk.inj hx).1]

theorem Reachable.tended {s : System} (h : Reachable s) (w : Waitable) : s.Tended w := by
  induction h with
  | boot clock => exact fun ⟨t, ht, _⟩ => by cases w <;> exact nomatch ht
  | step hr hs ih => exact ih.step hr.inContract hr.coheres hs

/-- A wake-up gets lost exactly if a release overlooked sleepers and nobody has come by since: the
units have not run out, the line is not empty and none of those who wait can run. -/
theorem Reachable.lost_iff {s : System} (h : Reachable s) (w : Waitable) :
    s.Lost w ↔ s.Overlooked w ∧ s.NobodyUp w := by
  constructor
  · rintro ⟨free, sleeps, nobody⟩
    refine ⟨(h.tended w sleeps).resolve_left fun enough => ?_, nobody⟩
    obtain ⟨o, ho, up⟩ := List.countP_pos_iff.1 (Nat.lt_of_lt_of_le free enough)
    obtain ⟨t, blocked, up⟩ := OpenCall.isRoused_iff.1 up
    exact nobody o ho t blocked (TaskTable.isRunnable_of_standing up)
  · rintro ⟨⟨free, sleeps, -⟩, nobody⟩
    exact ⟨free, sleeps, nobody⟩

/-- The second waiter sleeps on, next to a unit that nobody else wants. -/
theorem lost_passesOver : (System.run Script.passesOver).Lost (.semaphore ⟨0⟩) ∧
    (System.run Script.passesOver).Overlooked (.semaphore ⟨0⟩) := by
  have second : ∀ o ∈ (System.run Script.passesOver).calls,
      o.phase.blocked = some (.semaphore ⟨0⟩, ⟨1⟩) := by decide +kernel
  have asleep : ¬ TaskTable.isRunnable (System.run Script.passesOver).core.kernel.tasks ⟨1⟩ := by
    decide +kernel
  have nobody : (System.run Script.passesOver).NobodyUp (.semaphore ⟨0⟩) := by
    intro o ho t blocked
    cases (second o ho).symm.trans blocked
    exact asleep
  have lost : (System.run Script.passesOver).Lost (.semaphore ⟨0⟩) :=
    ⟨by decide +kernel, by decide +kernel, nobody⟩
  exact ⟨lost, (((System.reachable_run Script.passesOver).lost_iff _).1 lost).1⟩

end Rtos
