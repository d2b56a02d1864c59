import Rtos.Proofs.Script
import Rtos.Proofs.Tickets
import Rtos.Proofs.Trail

/-!
# The units of a semaphore

A semaphore has the units that it started with and those that were posted, less those that were
claimed. Claims are made by calls that wait, each at most once: in the last try of a wait that says
so, and in no other.
-/

namespace Rtos

namespace Record

def claims (p : Record) : Option Waitable := p.outcome.action.claims p.outcome.result

def releases (p : Record) : Option Waitable := p.outcome.action.releases p.kernel

def startsWith (p : Record) (s : SemId) : Option UInt32 :=
  (p.outcome.action.creates p.outcome.result).bind fun (s', n) => if s' = s then some n else none

end Record

def Passage.claims (p : Passage) : Option Waitable := p.outcome.action.claims p.outcome.result

def startsOf (log : List Record) (s : SemId) : List UInt32 := log.filterMap (·.startsWith s)

/-- The count that the semaphore started with, or zero before it exists. -/
def firstCount (log : List Record) (s : SemId) : Nat :=
  ((startsOf log s).head?.map UInt32.toNat).getD 0

def claimsOf (log : List Record) (w : Waitable) : Nat := log.countP (·.claims = some w)

/-- How often a unit was added: by a post, a put on a task queue, or the last unlock of a mutex. -/
def releasesOf (log : List Record) (w : Waitable) : Nat := log.countP (·.releases = some w)

section

variable {p : Record} {log : List Record} {w : Waitable} {s : SemId}

theorem claimsOf_cons :
    claimsOf (p :: log) w = claimsOf log w + if p.claims = some w then 1 else 0 := by
  simp [claimsOf, List.countP_cons]

theorem releasesOf_cons :
    releasesOf (p :: log) w = releasesOf log w + if p.releases = some w then 1 else 0 := by
  simp [releasesOf, List.countP_cons]

theorem startsOf_cons : startsOf (p :: log) s = (p.startsWith s).toList ++ startsOf log s := by
  unfold startsOf
  cases h : p.startsWith s <;> simp [h]

end

theorem Kernel.units_eq_zero {k : Kernel} {s : SemId} (h : ¬ s.index < k.semaphores.length) :
    k.units (.semaphore s) = 0 := by
  simp [Kernel.units, List.getElem?_eq_none (Nat.not_lt.1 h)]

namespace WaitStep

variable {β : Type} {a : Action β} {b : β} {k k' : Kernel}

theorem has_of_claims {s : SemId} (h : WaitStep a b k k')
    (claims : a.claims b = some (.semaphore s)) : k.Has (.semaphore s) := by
  have tried := Action.claims_eq_some.1 claims
  cases h with
  | calm none => exact nomatch none.symm.trans tried
  | delays _ _ none => exact nomatch none.symm.trans tried
  | exits _ none => exact nomatch none.symm.trans tried
  | releases _ _ none => exact nomatch none.symm.trans tried
  | tries r ticks resumed v tries _ _ _ _ came =>
    obtain ⟨hr, rfl⟩ := Prod.mk.inj (Option.some.inj (tries.symm.trans tried))
    cases came with
    | deeper m _ _ _ what =>
      subst what
      exact nomatch hr
    | claimed _ free =>
      rw [hr] at free
      by_contra none
      exact absurd (Kernel.units_eq_zero none) (Nat.ne_of_gt free)

theorem has_of_releases {w : Waitable} (h : WaitStep a b k k') (releases : a.releases k = some w) :
    k.Has w := by
  cases h with
  | calm _ _ none => exact nomatch none.symm.trans releases
  | delays _ _ _ _ none => exact nomatch none.symm.trans releases
  | exits _ _ _ none => exact nomatch none.symm.trans releases
  | tries _ _ _ _ _ _ none => exact nomatch none.symm.trans releases
  | releases w' _ _ _ found frees =>
    obtain rfl := Option.some.inj (found.symm.trans releases)
    exact frees.found

end WaitStep

theorem Action.releases_of_creates {β : Type} {a : Action β} {b : β} {k : Kernel}
    {x : SemId × UInt32} (h : a.creates b = some x) : a.releases k = none := by
  cases a <;> first | rfl | exact nomatch h

structure Balanced (k : Kernel) (log : List Record) (s : SemId) : Prop where
  units : k.units (.semaphore s) + claimsOf log (.semaphore s) =
    firstCount log s + releasesOf log (.semaphore s)
  made : (startsOf log s).length = if s.index < k.semaphores.length then 1 else 0

namespace Balanced

variable {k : Kernel} {log : List Record} {s : SemId}

theorem initial (clock : Clock) (s : SemId) : Balanced ({ clock : Core }).kernel [] s :=
  ⟨rfl, rfl⟩

theorem keeps {β : Type} {a : Action β} {b : β} {c c' : Core} (h : Balanced c.kernel log s)
    (result : a.toSection c = .ok b c') (creates : a.creates b = none)
    (size : c'.kernel.semaphores.length = c.kernel.semaphores.length) {p : Record}
    (kernel : p.kernel = c.kernel) (outcome : p.outcome = ⟨a, b⟩) :
    Balanced c'.kernel (p :: log) s := by
  obtain ⟨_, who, call, _⟩ := p
  subst kernel outcome
  have step := Action.waitStep result
  have starts : Record.startsWith ⟨c.kernel, who, call, ⟨a, b⟩⟩ s = none := by
    rw [Record.startsWith, creates, Option.bind_none]
  have units : c'.kernel.units (.semaphore s) +
      (if Record.claims ⟨c.kernel, who, call, ⟨a, b⟩⟩ = some (.semaphore s) then 1 else 0) =
        c.kernel.units (.semaphore s) +
          if Record.releases ⟨c.kernel, who, call, ⟨a, b⟩⟩ = some (.semaphore s) then 1 else 0 := by
    by_cases has : s.index < c.kernel.semaphores.length
    · exact Kernel.InStep.units result has
    · have claims : Record.claims ⟨c.kernel, who, call, ⟨a, b⟩⟩ ≠ some (.semaphore s) := fun h =>
        has (step.has_of_claims h)
      have releases : Record.releases ⟨c.kernel, who, call, ⟨a, b⟩⟩ ≠ some (.semaphore s) :=
        fun h => has (step.has_of_releases h)
      rw [if_neg claims, if_neg releases, Kernel.units_eq_zero has,
        Kernel.units_eq_zero (size ▸ has)]
  have stays : startsOf (⟨c.kernel, who, call, ⟨a, b⟩⟩ :: log) s = startsOf log s := by
    rw [startsOf_cons, starts, Option.toList_none, List.nil_append]
  constructor
  · have balance := h.units
    rw [claimsOf_cons, releasesOf_cons, firstCount, stays, ← firstCount]
    omega
  · rw [stays, h.made, size]

theorem creates {β : Type} {a : Action β} {b : β} {c c' : Core} (h : Balanced c.kernel log s)
    {s' : SemId} {x : Semaphore} (claims : a.claims b = none)
    (creates : a.creates b = some (s', x.count)) (new : s'.index = c.kernel.semaphores.length)
    (semaphores : c'.kernel.semaphores = c.kernel.semaphores ++ [x]) {p : Record}
    (kernel : p.kernel = c.kernel) (outcome : p.outcome = ⟨a, b⟩) :
    Balanced c'.kernel (p :: log) s := by
  obtain ⟨_, who, call, _⟩ := p
  subst kernel outcome
  have releases : a.releases c.kernel = none := Action.releases_of_creates creates
  have starts : Record.startsWith ⟨c.kernel, who, call, ⟨a, b⟩⟩ s =
      if s' = s then some x.count else none := by
    rw [Record.startsWith, creates, Option.bind_some]
  have size : c'.kernel.semaphores.length = c.kernel.semaphores.length + 1 := by
    rw [semaphores, List.length_append, List.length_singleton]
  have balance := h.units
  have made := h.made
  have nobody : claimsOf (⟨c.kernel, who, call, ⟨a, b⟩⟩ :: log) (.semaphore s) =
      claimsOf log (.semaphore s) := by
    rw [claimsOf_cons, Record.claims, claims, if_neg nofun, Nat.add_zero]
  have nothing : releasesOf (⟨c.kernel, who, call, ⟨a, b⟩⟩ :: log) (.semaphore s) =
      releasesOf log (.semaphore s) := by
    rw [releasesOf_cons, Record.releases, releases, if_neg nofun, Nat.add_zero]
  by_cases same : s' = s
  · subst same
    have absent : ¬ s'.index < c.kernel.semaphores.length := new ▸ Nat.lt_irrefl _
    have units : c'.kernel.units (.semaphore s') = x.count.toNat := by
      simp [Kernel.units, semaphores, new]
    rw [Kernel.units_eq_zero absent] at balance
    rw [if_neg absent] at made
    have none : startsOf log s' = [] := List.eq_nil_of_length_eq_zero made
    have zero : firstCount log s' = 0 := by rw [firstCount, none, List.head?_nil]; rfl
    have begins : startsOf (⟨c.kernel, who, call, ⟨a, b⟩⟩ :: log) s' = [x.count] := by
      rw [startsOf_cons, starts, if_pos rfl, none]
      rfl
    have first : firstCount (⟨c.kernel, who, call, ⟨a, b⟩⟩ :: log) s' = x.count.toNat := by
      rw [firstCount, begins]
      rfl
    constructor
    · rw [nobody, nothing, first, units]
      omega
    · rw [begins, if_pos (by omega), List.length_singleton]
  · have other : s.index ≠ c.kernel.semaphores.length := fun h =>
      same (by cases s; cases s'; simp_all)
    have units : c'.kernel.units (.semaphore s) = c.kernel.units (.semaphore s) := by
      simp only [Kernel.units, semaphores, List.getElem?_append]
      split
      · rfl
      · next behind =>
        rw [List.getElem?_eq_none (Nat.not_lt.1 behind), List.getElem?_eq_none]
        rw [List.length_singleton]
        omega
    have stays : startsOf (⟨c.kernel, who, call, ⟨a, b⟩⟩ :: log) s = startsOf log s := by
      rw [startsOf_cons, starts, if_neg same, Option.toList_none, List.nil_append]
    constructor
    · rw [nobody, nothing, firstCount, stays, units]
      exact balance
    · rw [stays, size, made]
      split <;> split <;> omega

theorem act {β : Type} {a : Action β} {b : β} {c c' : Core} (h : Balanced c.kernel log s)
    (result : a.toSection c = .ok b c') {p : Record} (kernel : p.kernel = c.kernel)
    (outcome : p.outcome = ⟨a, b⟩) : Balanced c'.kernel (p :: log) s := by
  cases Action.objectStep result with
  | alike _ _ creates alike => exact h.keeps result creates alike.semaphores kernel outcome
  | locks _ _ _ _ creates _ _ _ _ _ size => exact h.keeps result creates size kernel outcome
  | unlocks _ _ _ _ creates _ _ _ _ _ size => exact h.keeps result creates size kernel outcome
  | creates s' x claims _ creates new semaphores =>
    exact h.creates claims creates new semaphores kernel outcome

end Balanced

theorem Reachable.balanced {s : System} (h : Reachable s) (sem : SemId) :
    Balanced s.core.kernel s.log sem :=
  h.log_induction (P := (Balanced · · sem)) (.initial · sem) fun _ _ _ _ acts ih =>
    ih.act acts.result acts.kernel rfl

theorem KernelCall.Awaits.waits {γ : Type} {call : KernelCall γ} {k : Kernel} {w : Waitable}
    (h : call.Awaits k w) : call.limit.isSome := by
  cases call <;> first | rfl | exact h.elim

theorem KernelCall.not_isStart {γ : Type} {call : KernelCall γ} (h : call.limit.isSome) :
    call.isStart = false := by
  cases call <;> first | rfl | cases h

theorem Reachable.waits_of_tries {s : System} (h : Reachable s) {p : Record} {c' : Core}
    (acts : s.Acts p c') {w : Waitable} (tries : p.outcome.action.tries = some w) :
    ∃ call : Sigma KernelCall, p.call = some call ∧ call.2.limit.isSome ∧
      (p.caller = .handler ∨ p.caller = .thread s.core.kernel.current) := by
  cases acts with
  | switch => exact nomatch tries
  | call _ later earlier who call a next ph b calls may =>
    obtain ⟨c, _, held, lost, log⟩ := s
    obtain rfl : _ = later ++ _ :: earlier := calls
    have waits := ((h.inContract.permits may).awaits w tries).waits
    refine ⟨_, rfl, waits, ?_⟩
    cases who with
    | handler => exact .inl rfl
    | thread t =>
      rcases may.1 with runs | runs
      · exact .inr (congrArg Caller.thread runs.symm)
      · exact nomatch (KernelCall.not_isStart waits).symm.trans runs

theorem Reachable.waits_of_claims {s : System} (h : Reachable s) : ∀ p ∈ s.log, ∀ w,
    p.claims = some w → ∃ call : Sigma KernelCall, p.call = some call ∧ call.2.limit.isSome := by
  refine h.log_induction (P := fun _ log => ∀ p ∈ log, ∀ w, p.claims = some w →
    ∃ call : Sigma KernelCall, p.call = some call ∧ call.2.limit.isSome) (fun _ _ h => nomatch h)
    fun s p c' hr acts ih => List.forall_mem_cons.2 ⟨fun w claims => ?_, ih⟩
  have tries := Action.tries_of_tried (Action.claims_eq_some.1 claims)
  obtain ⟨call, is, waits, -⟩ := hr.waits_of_tries acts tries
  exact ⟨call, is, waits⟩

/-- A call claims at most once: with a claim its tries are over. -/
theorem Performs.claims_le_one {who : Caller} {γ : Type} {call : KernelCall γ}
    {trail : List Passage} {p : Program Unit γ} (h : Performs who call trail p)
    (waits : call.limit.isSome) : trail.countP (·.claims.isSome) ≤ 1 := by
  induction h with
  | begins => exact Nat.zero_le 1
  | @acts _ trail a _ b c c' before runs result ih =>
    rw [List.countP_cons]
    by_cases claims : (a.claims b).isSome
    · obtain ⟨w, claims⟩ := Option.isSome_iff_exists.1 claims
      have tries := Action.tries_of_tried (Action.claims_eq_some.1 claims)
      -- All tries before the latest one have left the caller asleep.
      have none : trail.countP (·.claims.isSome) = 0 := by
        refine List.countP_eq_zero.2 fun p hp hc => ?_
        obtain ⟨w', hc⟩ := Option.isSome_iff_exists.1 hc
        obtain ⟨t, asleep⟩ := (before.heeds waits).again w tries p hp w' .claimed
          (Action.claims_eq_some.1 hc)
        exact nomatch asleep
      rw [none]
      split <;> decide
    · rw [if_neg (show ¬ (Passage.claims ⟨c.kernel, ⟨a, b⟩, c'.kernel⟩).isSome from claims)]
      exact ih
  | goesOn _ _ ih => exact ih
  | unrolls _ ih => exact ih

/-- The books of the semaphores, and what each call that waits has done for its claim. -/
structure System.Balances (s : System) : Prop where
  /-- The units are those at first and those posted since, less those claimed. -/
  units : ∀ (sem : SemId) x, s.core.kernel.semaphores[sem.index]? = some x → ∃ n,
    startsOf s.log sem = [n] ∧ x.count.toNat + claimsOf s.log (.semaphore sem) =
      n.toNat + releasesOf s.log (.semaphore sem)
  claimants : ∀ p ∈ s.log, ∀ w, p.claims = some w →
    ∃ call : Sigma KernelCall, p.call = some call ∧ call.2.limit.isSome
  /-- A call claims once at most, and it returns what its last try came to. -/
  calls : ∀ o ∈ s.calls, o.call.limit.isSome → (∃ trail, o.Came s.log trail) ∧
    ∀ trail, o.Came s.log trail → trail.countP (·.claims.isSome) ≤ 1 ∧
      ∀ a, o.rest = .done a → o.call.Returns a trail

/-- In every run the books of each semaphore balance, and a count never runs out. -/
theorem Reachable.balances {s : System} (h : Reachable s) :
    s.Balances ∧ ¬ s.Faults .subtractOverflow := by
  refine ⟨⟨fun sem x found => ?_, h.waits_of_claims, fun o ho waits => ?_⟩,
    h.inContract.not_subtractOverflow⟩
  · obtain ⟨units, made⟩ := h.balanced sem
    rw [if_pos (List.getElem?_eq_some_iff.1 found).1] at made
    obtain ⟨n, starts⟩ := List.length_eq_one_iff.1 made
    refine ⟨n, starts, ?_⟩
    simpa [firstCount, starts, Kernel.units, found] using units
  · refine ⟨h.came o ho, fun trail came => ⟨came.performs.claims_le_one waits, fun a done => ?_⟩⟩
    have performs := came.performs
    rw [done] at performs
    exact performs.returns waits

/-- The unit that woke a task was taken by another one before it went on, so it waits again. -/
theorem balances_outrun :
    startsOf (System.run Script.outrun).log ⟨0⟩ = [0] ∧
      releasesOf (System.run Script.outrun).log (.semaphore ⟨0⟩) = 1 ∧
      claimsOf (System.run Script.outrun).log (.semaphore ⟨0⟩) = 1 ∧
      (System.run Script.outrun).core.kernel.units (.semaphore ⟨0⟩) = 0 ∧
      (System.run Script.outrun).calls.map (·.phase.blocked) = [some (.semaphore ⟨0⟩, ⟨0⟩)] ∧
      (System.run Script.outrun).Balances :=
  ⟨by decide +kernel, by decide +kernel, by decide +kernel, by decide +kernel, by decide +kernel,
    (System.reachable_run Script.outrun).balances.1⟩

end Rtos
