import Rtos.Proofs.Custody
import Rtos.Proofs.Interference

/-!
# Pools and their slots

The slots of a pool are made for a queue that the same call has added in the section before. That
queue is a pool from then on, and so the home of every slot is one.
-/

namespace Rtos

def Action.fills {β : Type} : Action β → Option QueueId
  | addPool q _ => some q
  | _ => none

namespace Outcome

def opened : Outcome → Option QueueId
  | ⟨.addQueue .., q⟩ => q
  | _ => none

def filled : Outcome → Option QueueId
  | ⟨.addPool q _, some _⟩ => some q
  | _ => none

theorem filled_of_made {o : Outcome} {m : Message} (hm : m ∈ o.made) : o.filled = some m.home := by
  obtain ⟨a, b⟩ := o
  cases a with
  | addPool q shape =>
    cases b with
    | none => cases hm
    | some first => rw [filled, Call.home_of_fresh hm]
  | _ => cases hm

theorem fills_of_filled {o : Outcome} {q : QueueId} (h : o.filled = some q) :
    o.action.fills = some q := by
  obtain ⟨a, b⟩ := o
  cases a with
  | addPool => cases b <;> cases h; rfl
  | _ => cases h

end Outcome

namespace Queue

variable {queue queue' : Queue} {slots slots' : List Slot} {id : MessageId}

theorem pool_push : (queue.push slots id).1.pool = queue.pool := by
  rw [push]
  split <;> rfl

theorem pool_pop (h : queue.pop slots = some (id, queue', slots')) : queue'.pool = queue.pool := by
  unfold pop at h
  split at h <;> cases h
  rfl

end Queue

/-- A queue that is a pool stays one. -/
theorem MoveStep.pool {β : Type} {a : Action β} {b : β} {k k' : Kernel} (h : MoveStep a b k k')
    {q : QueueId} {queue : Queue} (found : k.queues[q.index]? = some queue) :
    ∃ queue', k'.queues[q.index]? = some queue' ∧ (queue.pool.isSome → queue'.pool.isSome) := by
  have set {q₁ : QueueId} {x x' : Queue} (which : k.queues[q₁.index]? = some x)
      (same : x'.pool = x.pool) (queues : k'.queues = k.queues.set q₁.index x') :
      ∃ queue', k'.queues[q.index]? = some queue' ∧ (queue.pool.isSome → queue'.pool.isSome) := by
    rw [Kernel.QueuesInOrder.getElem?_queues which queues]
    split
    · next he =>
      obtain rfl : x = queue := Option.some.inj (which.symm.trans (he ▸ found))
      exact ⟨x', rfl, fun pool => same ▸ pool⟩
    · exact ⟨queue, found, id⟩
  cases h with
  | still _ _ _ after => exact ⟨queue, after.queues ▸ found, id⟩
  | adds name d _ _ _ _ _ queues =>
    refine ⟨queue, ?_, id⟩
    rw [queues, List.getElem?_append_left (List.getElem?_eq_some_iff.1 found).1, found]
  | pools q₁ shape _ _ _ _ queues _ =>
    rw [queues, List.getElem?_modify, found]
    refine ⟨_, rfl, fun pool => ?_⟩
    split
    · rfl
    · exact pool
  | puts q₁ m slot x _ _ _ _ _ _ which _ _ queues =>
    refine set which ?_ queues
    exact Queue.pool_push
  | takes q₁ m slot x x' slots₁ d _ _ _ which pop _ _ _ _ _ queues =>
    have kept := Queue.pool_pop pop
    refine set which ?_ queues
    exact kept
  | hangs q₁ x d d' _ _ _ which _ _ _ queues =>
    refine set which ?_ queues
    rfl

namespace Action

variable {β : Type} {a : Action β} {b : β} {c c' : Core} {q : QueueId}

theorem found_of_opened (result : a.toSection c = .ok b c') (new : Outcome.opened ⟨a, b⟩ = some q) :
    ∃ queue, c'.kernel.queues[q.index]? = some queue := by
  cases a with
  | addQueue name d =>
    obtain rfl : b = some q := new
    rcases Section.adding_eq_ok result with ⟨none, -, -⟩ | ⟨_, _, is, added, rfl⟩
    · cases none
    · cases is
      obtain ⟨-, rfl, rfl⟩ := Kernel.addQueue_eq_some added
      exact ⟨_, List.getElem?_concat_length⟩
  | _ => cases new

theorem pool_of_filled (result : a.toSection c = .ok b c') {queue : Queue}
    (found : c.kernel.queues[q.index]? = some queue) (new : Outcome.filled ⟨a, b⟩ = some q) :
    ∃ queue', c'.kernel.queues[q.index]? = some queue' ∧ queue'.pool.isSome := by
  cases a with
  | addPool q' shape =>
    rcases Section.adding_eq_ok result with ⟨rfl, -, -⟩ | ⟨first, _, rfl, added, rfl⟩
    · cases new
    · obtain rfl : q' = q := Option.some.inj new
      obtain ⟨-, -, rfl⟩ := Kernel.addPool_eq_some added
      exact ⟨{ queue with pool := some shape }, by simp [found], rfl⟩
  | _ => cases new

end Action

/-- If the section makes a pool, then of the queue that the section before it added. -/
def FillsOwn (trail : List Passage) {β : Type} (a : Action β) : Prop :=
  ∀ q, a.fills = some q → ∃ p, trail.head? = some p ∧ p.outcome.opened = some q

namespace FillsOwn

variable {who : Caller} {γ : Type} {call : KernelCall γ} {trail : List Passage} {name : String}
  {q : QueueId}

theorem other {β : Type} {a : Action β} (h : a.fills = none) : FillsOwn trail a :=
  fun _ hq => nomatch h.symm.trans hq

theorem createDiscipline {kind : QueueKind} : Follows who call FillsOwn AnyFault
    (Call.createDiscipline name kind) (fun _ _ => True) trail := by
  cases kind with
  | driver => trivial
  | task =>
    refine .bind (.bind (.critical (other rfl) fun _ s _ _ => ?_))
    cases s <;> exact fun _ => trivial

theorem createQueue {kind : QueueKind} {Q : Except Error QueueId → List Passage → Prop}
    (refuses : ∀ e trail, Q (.error e) trail)
    (adds : ∀ p trail q, p.outcome.opened = some q → Q (.ok q) (p :: trail)) :
    Follows who call FillsOwn AnyFault (Call.createQueue name kind) Q trail := by
  refine .bind (.critical (other rfl) fun _ full _ _ => ?_)
  cases full with
  | true => exact fun _ => refuses _ _
  | false =>
    refine .bind (createDiscipline.imp fun d trail _ => ?_)
    cases d with
    | error e => exact refuses e trail
    | ok d =>
      refine .bind (.critical (other rfl) fun _ q _ _ => ?_)
      cases q with
      | none => exact fun _ => refuses _ _
      | some q => exact fun _ => adds _ _ q rfl

theorem puts (messages : List Message) : Follows who call FillsOwn AnyFault
    (messages.forM (Call.put q)) (fun _ _ => True) trail := by
  induction messages generalizing trail with
  | nil => trivial
  | cons m messages ih =>
    have put : Follows who call FillsOwn AnyFault (Call.put q m) (fun _ _ => True) trail := by
      refine .bind (.critical (other rfl) fun _ r _ _ => ?_)
      cases r with
      | none => trivial
      | some r => exact fun _ => trivial
    exact .bind (put.imp fun _ _ _ => ih)

theorem fillPool {shape : PoolShape} {storage : Payload} {p : Passage}
    (own : p.outcome.opened = some q) :
    Follows who call FillsOwn AnyFault (Call.fillPool name q shape storage) (fun _ _ => True)
      (p :: trail) := by
  refine .bind (.critical ?_ fun _ first _ _ => ?_)
  · rintro _ ⟨⟩
    exact ⟨p, rfl, own⟩
  · cases first with
    | none => exact fun _ => trivial
    | some first => exact .bind ((puts _).imp fun _ _ _ _ => trivial)

theorem reserveStorage {shape : PoolShape} : Follows who call FillsOwn AnyFault
    (Call.reserveStorage name shape) (fun _ _ => True) trail := by
  unfold Call.reserveStorage
  dsimp only
  split
  · trivial
  intro granted
  cases granted with
  | true => trivial
  | false => exact fun _ => trivial

theorem createPool {kind : QueueKind} {count size : Nat} : Follows who call FillsOwn AnyFault
    (Call.createPool name kind count size) (fun _ _ => True) trail := by
  unfold Call.createPool Call.createPoolWith
  dsimp only
  split
  · trivial
  refine .bind (.critical (other rfl) fun _ fits _ _ => ?_)
  cases fits with
  | false => exact fun _ => trivial
  | true =>
    refine .bind (reserveStorage.imp fun granted _ _ => ?_)
    cases granted with
    | false => trivial
    | true => exact .bind (createQueue (fun _ _ => trivial) fun _ _ _ own => fillPool own)

theorem createTaggedPool {kind : QueueKind} {count size : Nat} : Follows who call FillsOwn AnyFault
    (Call.createTaggedPool name kind count size) (fun _ _ => True) trail := by
  unfold Call.createTaggedPool
  split
  · trivial
  · exact createPool

end FillsOwn

theorem KernelCall.fillsOwn {γ : Type} (call : KernelCall γ) (size : call.slotSize.isSome)
    (who : Caller) :
    Follows who call FillsOwn AnyFault call.program (fun _ _ => True) [] := by
  cases call with
  | createPool => exact FillsOwn.createPool
  | createTaggedPool => exact FillsOwn.createTaggedPool
  | _ => cases size

/-- The home of every slot is a pool. -/
def Kernel.Housed (k : Kernel) : Prop := ∀ id home, k.homeOf id = some home →
  ∃ queue shape, k.queues[home.index]? = some queue ∧ queue.pool = some shape

namespace Reachable

variable {s : System} {q : QueueId}

/-- A pool is made of a queue that a section in the log has added. -/
theorem opened_of_fills (h : Reachable s) {p : Record} {c' : Core} (acts : s.Acts p c')
    (fills : p.outcome.action.fills = some q) : ∃ r ∈ s.log, r.outcome.opened = some q := by
  obtain ⟨c, calls, held, lost, log⟩ := s
  cases acts with
  | call c' later earlier who call a next ph b calls may result =>
    obtain rfl : _ = later ++ _ :: earlier := calls
    have sizes := (h.inContract.permits may).sizes
    have size : call.slotSize.isSome := by
      cases a with
      | addPool q shape => rw [sizes shape rfl]; rfl
      | _ => cases fills
    obtain ⟨trail, came⟩ := h.came _ (mem_middle.2 (.inr rfl))
    obtain ⟨own, -⟩ := came.performs.follows (call.fillsOwn size who)
    obtain ⟨before, latest, opened⟩ := own q fills
    refine ⟨before.record who call, came.logged.subset (List.mem_map_of_mem ?_), opened⟩
    exact List.mem_of_head? latest
  | switch => cases fills

/-- What became of the queues that sections have added or made pools. -/
theorem queues_of_log (h : Reachable s) :
    (∀ p ∈ s.log, ∀ q, p.outcome.opened = some q →
      ∃ queue, s.core.kernel.queues[q.index]? = some queue) ∧
    ∀ p ∈ s.log, ∀ q, p.outcome.filled = some q →
      ∃ queue, s.core.kernel.queues[q.index]? = some queue ∧ queue.pool.isSome := by
  refine h.log_induction (P := fun k log =>
      (∀ p ∈ log, ∀ q, p.outcome.opened = some q → ∃ queue, k.queues[q.index]? = some queue) ∧
      ∀ p ∈ log, ∀ q, p.outcome.filled = some q →
        ∃ queue, k.queues[q.index]? = some queue ∧ queue.pool.isSome)
    (fun _ => ⟨fun _ h => (nomatch h), fun _ h => nomatch h⟩) fun s p c' hr acts ⟨opened, filled⟩ => ?_
  have step := Action.moveStep acts.result
  refine ⟨List.forall_mem_cons.2 ⟨fun q new => ?_, fun p hp q new => ?_⟩,
    List.forall_mem_cons.2 ⟨fun q new => ?_, fun p hp q new => ?_⟩⟩
  · exact Action.found_of_opened acts.result new
  · obtain ⟨queue, found⟩ := opened p hp q new
    obtain ⟨queue', found', -⟩ := step.pool found
    exact ⟨queue', found'⟩
  · obtain ⟨r, hr', added⟩ := hr.opened_of_fills acts (Outcome.fills_of_filled new)
    obtain ⟨queue, found⟩ := opened r hr' q added
    exact Action.pool_of_filled acts.result found new
  · obtain ⟨queue, found, pool⟩ := filled p hp q new
    obtain ⟨queue', found', stays⟩ := step.pool found
    exact ⟨queue', found', stays pool⟩

theorem housed (h : Reachable s) : s.core.kernel.Housed := by
  intro id home hh
  obtain ⟨x, label, -⟩ := Option.map_eq_some_iff.1 hh
  obtain ⟨-, ⟨made, born, -⟩⟩ := h.accounts
  obtain ⟨p, hp, m, hm, rfl⟩ := born id x label
  obtain rfl : m.home = home := Option.some.inj ((made p hp m hm).symm.trans hh)
  obtain ⟨queue, found, pool⟩ := h.queues_of_log.2 p hp m.home (Outcome.filled_of_made hm)
  obtain ⟨shape, pool⟩ := Option.isSome_iff_exists.1 pool
  exact ⟨queue, shape, found, pool⟩

end Reachable

end Rtos
