import Rtos.Proofs.Queued
import Rtos.Proofs.Run

/-!
# Counts of queues

A driver queue counts its messages. A task queue has one message for each unit of its semaphore, and
one more for each ticket: a unit that a call has claimed and not yet turned into a message.
`Kernel.InStep` says so, and every section that minds the counts keeps it.
-/

namespace Rtos

namespace Action

variable {β : Type}

def posts : Action β → Option SemId
  | post s => some s
  | _ => none

theorem releases_of_puts {a : Action β} {k : Kernel} {q : QueueId} {m : Message} {s : SemId}
    (puts : a.puts = some (q, m)) (hs : k.queueSemaphore q = .ok (some s)) :
    a.releases k = some (.semaphore s) := by
  cases a
  case enqueue q' m' =>
    obtain ⟨rfl, rfl⟩ := Prod.mk.inj (Option.some.inj puts)
    simp only [releases, hs]
  all_goals cases puts

theorem posts_or_puts {a : Action β} {k : Kernel} {s : SemId}
    (h : a.releases k = some (.semaphore s)) : a.posts = some s ∨
      ∃ q m, a.puts = some (q, m) ∧ k.queueSemaphore q = .ok (some s) := by
  cases a
  case post s' =>
    cases h
    exact .inl rfl
  case enqueue q m =>
    simp only [releases] at h
    split at h
    · next hs =>
      cases h
      exact .inr ⟨q, m, rfl, hs⟩
    · cases h
  case unlock m =>
    simp only [releases] at h
    split at h <;> cases h
  all_goals cases h

theorem claims_of_adds {a : Action β} {b : β} {d : Discipline} (h : a.adds = some d) :
    a.claims b = none := by
  cases a <;> first | rfl | exact nomatch h

theorem tries_of_claims {a : Action β} {b : β} {w : Waitable} (h : a.claims b = some w) :
    a.tries = some w := tries_of_tried (claims_eq_some.1 h)

theorem releases_of_adds {a : Action β} {k : Kernel} {d : Discipline} (h : a.adds = some d) :
    a.releases k = none := by
  cases a <;> first | rfl | exact nomatch h

theorem moves_of_adds {a : Action β} {b : β} {d : Discipline} (h : a.adds = some d) :
    a.puts = none ∧ Outcome.taken ⟨a, b⟩ = none := by
  cases a <;> first | exact ⟨rfl, rfl⟩ | exact nomatch h

theorem newSemaphore_ok {a : Action β} {b : β} {c c' : Core} {s : SemId}
    (h : a.toSection c = .ok b c') (new : Outcome.newSemaphore ⟨a, b⟩ = some s) :
    ¬ c.kernel.Has (.semaphore s) ∧ c'.kernel.Has (.semaphore s) ∧
      c'.kernel.units (.semaphore s) = 0 := by
  cases a
  case addSemaphore name n =>
    simp only [Outcome.newSemaphore] at new
    split at new
    · next hn =>
      subst hn new
      rcases Section.adding_ok h with ⟨hb, -⟩ | ⟨s', hb, hk⟩ <;> cases hb
      obtain ⟨-, rfl, kernel⟩ := Kernel.addSemaphore_eq_some hk
      rw [kernel]
      simp [Kernel.Has, Kernel.units]
    · cases new
  all_goals cases new

theorem missed_ok {a : Action β} {b : β} {c c' : Core} (h : a.toSection c = .ok b c')
    (missed : Outcome.Missed ⟨a, b⟩) : ∃ q queue, a.redeems = some q ∧
      c.kernel.queues[q.index]? = some queue ∧ queue.first = none := by
  cases a
  case dequeue q =>
    obtain rfl : b = none := missed
    obtain ⟨queue, which, ⟨first, -⟩ | ⟨_, _, _, _, _, -, -, -, hb, -⟩⟩ := Section.dequeue_ok h
    · exact ⟨q, queue, rfl, which, first⟩
    · exact nomatch hb
  all_goals exact missed.elim

theorem taken_of_redeems {a : Action β} {b : β} {q : QueueId} (h : a.redeems = some q) :
    Outcome.Missed ⟨a, b⟩ ∨ ∃ m, Outcome.taken ⟨a, b⟩ = some (q, m) := by
  cases a
  case dequeue q' =>
    cases h
    cases b with
    | none => exact .inl rfl
    | some m => exact .inr ⟨m, rfl⟩
  all_goals exact nomatch h

end Action

theorem Phase.ticket_after {α β : Type} (call : KernelCall α) (ph : Phase) (a : Action β) (b : β) :
    (ph.after ⟨a, b⟩).ticket call = (a.claims b).bind fun _ => call.source := by
  have last : (ph.after ⟨a, b⟩).last.bind Outcome.tried = a.tried b := rfl
  rw [Phase.ticket, last, Action.claims]
  cases a.tried b with
  | none => rfl
  | some x =>
    obtain ⟨w, v⟩ := x
    cases v <;> rfl

namespace Discipline

variable {d : Discipline} {x' : Driver}

theorem count_more (room : d.HasRoom) (h : d.more = .driver x') :
    ∃ x, d = .driver x ∧ x'.count.toNat = x.count.toNat + 1 := by
  cases d with
  | task s => exact nomatch h
  | driver x =>
    cases h
    exact ⟨x, rfl, UInt32.toNat_add_one room⟩

theorem count_less (counts : d.Counts) (h : d.less = .driver x') :
    ∃ x, d = .driver x ∧ x'.count.toNat + 1 = x.count.toNat := by
  cases d with
  | task s => exact nomatch h
  | driver x =>
    cases h
    exact ⟨x, rfl, UInt32.toNat_sub_one counts⟩

end Discipline

/-- Queue `q`, which was `queue`, is `queue'` after section `o`: it has the same semaphore, and has
counted what came and what went. -/
structure Outcome.Leaves (o : Outcome) (q : QueueId) (queue queue' : Queue) : Prop where
  semaphore : queue'.discipline.semaphore = queue.discipline.semaphore
  count : ∀ x', queue'.discipline = .driver x' → ∃ x, queue.discipline = .driver x ∧
    x'.count.toNat + (o.takenFrom q).length = x.count.toNat + (o.putOn q).length

theorem Outcome.leaves_of_eq {o : Outcome} {q : QueueId} {queue queue' : Queue}
    (h : queue'.discipline = queue.discipline) (put : o.putOn q = []) (taken : o.takenFrom q = []) :
    o.Leaves q queue queue' where
  semaphore := by rw [h]
  count x' hx := ⟨x', h ▸ hx, by rw [put, taken]⟩

theorem MoveStep.leaves {β : Type} {a : Action β} {b : β} {k k' : Kernel} (h : MoveStep a b k k')
    (redeems : ∀ q, a.redeems = some q → ∃ s, k.queueSemaphore q = .ok (some s)) {q : QueueId}
    {queue' : Queue} (which' : k'.queues[q.index]? = some queue') :
    (∃ queue, k.queues[q.index]? = some queue ∧ Outcome.Leaves ⟨a, b⟩ q queue queue') ∨
      q.index = k.queues.length ∧ a.adds = some queue'.discipline := by
  have came (put : a.puts = none) : Outcome.putOn ⟨a, b⟩ q = [] := Outcome.putOn_of_none put
  have went (taken : Outcome.taken ⟨a, b⟩ = none) : Outcome.takenFrom ⟨a, b⟩ q = [] :=
    Outcome.takenFrom_of_none taken
  cases h with
  | still put taken made after =>
    rw [after.queues] at which'
    exact .inl ⟨queue', which', Outcome.leaves_of_eq rfl (came put) (went taken)⟩
  | adds name d put adds taken made slots queues =>
    rw [queues] at which'
    by_cases hi : q.index < k.queues.length
    · rw [List.getElem?_append_left hi] at which'
      exact .inl ⟨queue', which', Outcome.leaves_of_eq rfl (came put) (went taken)⟩
    · rw [List.getElem?_append_right (Nat.le_of_not_lt hi)] at which'
      have hj := (List.getElem?_eq_some_iff.1 which').1
      rw [List.mem_singleton.1 (List.mem_of_getElem? which')]
      refine .inr ⟨?_, adds⟩
      rw [List.length_singleton] at hj
      omega
  | pools q' shape put taken made slots queues fits =>
    rw [queues, List.getElem?_modify] at which'
    obtain ⟨queue, which, he⟩ := Option.map_eq_some_iff.1 which'
    refine .inl ⟨queue, which, Outcome.leaves_of_eq ?_ (came put) (went taken)⟩
    rw [← he]
    split <;> rfl
  | puts q' m slot queue put taken made found free home which room slots queues =>
    rw [Kernel.QueuesInOrder.getElem?_queues which queues] at which'
    have came : Outcome.putOn ⟨a, b⟩ q = if q' = q then [m] else [] := Outcome.putOn_of_some put
    split at which'
    · next hq =>
      subst hq
      cases which'
      refine .inl ⟨queue, which, queue.discipline.semaphore_more, fun x' hx' => ?_⟩
      obtain ⟨x, hx, count⟩ := Discipline.count_more room hx'
      refine ⟨x, hx, ?_⟩
      rw [came, if_pos rfl, went taken, count]
      rfl
    · next hq =>
      rw [if_neg (Ne.symm hq)] at came
      exact .inl ⟨queue', which', Outcome.leaves_of_eq rfl came (went taken)⟩
  | takes q' m slot queue old slots₁ d put taken made which pop found home payload how slots queues =>
    rw [Kernel.QueuesInOrder.getElem?_queues which queues] at which'
    have went : Outcome.takenFrom ⟨a, b⟩ q = if q' = q then [m] else [] :=
      Outcome.takenFrom_of_some taken
    split at which'
    · next hq =>
      subst hq
      cases which'
      rcases how with ⟨mine, rfl⟩ | ⟨-, counts, rfl⟩
      · obtain ⟨s, hs⟩ := redeems q mine
        rw [Kernel.queueSemaphore_eq_ok, which, Option.map_some, Option.some.injEq] at hs
        refine .inl ⟨queue, which, rfl, fun x' hx' => ?_⟩
        rw [hx'] at hs
        exact nomatch hs
      · refine .inl ⟨queue, which, queue.discipline.semaphore_less, fun x' hx' => ?_⟩
        obtain ⟨x, hx, count⟩ := Discipline.count_less counts hx'
        refine ⟨x, hx, ?_⟩
        rw [went, if_pos rfl, came put, ← count]
        rfl
    · next hq =>
      rw [if_neg (Ne.symm hq)] at went
      exact .inl ⟨queue', which', Outcome.leaves_of_eq rfl (came put) went⟩
  | hangs q' queue x x' put taken made which before count slots queues =>
    rw [Kernel.QueuesInOrder.getElem?_queues which queues] at which'
    split at which'
    · next hq =>
      subst hq
      cases which'
      refine .inl ⟨queue, which, by rw [before]; rfl, fun y hy => ⟨x, before, ?_⟩⟩
      cases hy
      rw [count, came put, went taken]
    · exact .inl ⟨queue', which', Outcome.leaves_of_eq rfl (came put) (went taken)⟩

/-- What a queue holds, what is put on it and what is taken off it balance in number. -/
theorem Kernel.Moves.length {o : Outcome} {k k' : Kernel} (h : k.Moves o k')
    (order : k.QueuesInOrder) (order' : k'.QueuesInOrder) (q : QueueId) :
    (k.queued q).length + (o.putOn q).length = (o.takenFrom q).length + (k'.queued q).length := by
  have balance := congrArg List.length (h.parked order order' q)
  rw [List.length_append, List.length_append] at balance
  rwa [← order.ids_parked, ← order'.ids_parked, List.length_map, List.length_map]

/-- The counts of all queues are right. `pending` are the semaphores that a call has made and not yet
given to its queue, `tickets` the queues from which a call is about to take its message. Nothing is
said of the units of a semaphore that was touched by other calls. -/
structure Kernel.InStep (k : Kernel) (pending : List SemId) (tickets : List QueueId)
    (touched : SemId → Prop) : Prop where
  drivers : ∀ (q : QueueId) queue d, k.queues[q.index]? = some queue →
    queue.discipline = .driver d → d.count.toNat = (k.queued q).length
  tasks : ∀ q s, k.queueSemaphore q = .ok (some s) → ¬ touched s →
    (k.queued q).length = k.units (.semaphore s) + tickets.count q
  known : ∀ q s, k.queueSemaphore q = .ok (some s) → k.Has (.semaphore s)
  distinct : ∀ q q' s, k.queueSemaphore q = .ok (some s) →
    k.queueSemaphore q' = .ok (some s) → q = q'
  tickets : ∀ q ∈ tickets, ∃ s, k.queueSemaphore q = .ok (some s)
  fresh : pending.Nodup
  pending : ∀ s ∈ pending, k.Has (.semaphore s) ∧ (∀ q, k.queueSemaphore q ≠ .ok (some s)) ∧
    (¬ touched s → k.units (.semaphore s) = 0)

/-- What a section of a call may do to semaphores: `new` is the one that the call has made for a
queue, `ticket` the queue whose next message is the caller's, `source` the one that it takes messages
from, and `touched` are the semaphores that calls have posted or claimed otherwise. -/
structure Action.MindsCounts {β : Type} (a : Action β) (b : β) (k : Kernel) (new : Option SemId)
    (ticket source : Option QueueId) (touched : SemId → Prop) : Prop where
  redeems : a.redeems = ticket
  fresh : ∀ s, a.adds = some (.task s) → new = some s
  empty : ∀ d, a.adds = some (.driver d) → d.count = 0
  awaits : ∀ w q, a.claims b = some w → source = some q →
    ∃ s, k.queueSemaphore q = .ok (some s) ∧ w = .semaphore s
  claims : ∀ s, a.claims b = some (.semaphore s) → source = none → touched s
  posts : ∀ s, a.posts = some s → touched s

namespace Action.MindsCounts

variable {β : Type} {a : Action β} {b : β} {k : Kernel} {new : Option SemId}
  {ticket source : Option QueueId} {touched : SemId → Prop} {q : QueueId} {s : SemId}

theorem claims_iff (h : a.MindsCounts b k new ticket source touched)
    (hs : k.queueSemaphore q = .ok (some s)) (clean : ¬ touched s)
    (own : ∀ q', k.queueSemaphore q' = .ok (some s) → q' = q) :
    a.claims b = some (.semaphore s) ↔ (a.claims b).bind (fun _ => source) = some q := by
  constructor
  · intro claims
    rw [claims, Option.bind_some]
    cases source with
    | none => exact (clean (h.claims s claims rfl)).elim
    | some q' =>
      obtain ⟨s', hs', he⟩ := h.awaits _ q' claims rfl
      cases he
      rw [own q' hs']
  · intro hb
    obtain ⟨w, claims, rfl⟩ := Option.bind_eq_some_iff.1 hb
    obtain ⟨s', hs', rfl⟩ := h.awaits w q claims rfl
    rw [hs] at hs'
    cases hs'
    exact claims

theorem releases_iff (h : a.MindsCounts b k new ticket source touched)
    (hs : k.queueSemaphore q = .ok (some s)) (clean : ¬ touched s)
    (own : ∀ q', k.queueSemaphore q' = .ok (some s) → q' = q) :
    a.releases k = some (.semaphore s) ↔ ∃ m, a.puts = some (q, m) := by
  constructor
  · intro releases
    rcases Action.posts_or_puts releases with posts | ⟨q', m, puts, hs'⟩
    · exact (clean (h.posts s posts)).elim
    · exact ⟨m, own q' hs' ▸ puts⟩
  · rintro ⟨m, puts⟩
    exact Action.releases_of_puts puts hs

theorem length_putOn (h : a.MindsCounts b k new ticket source touched)
    (hs : k.queueSemaphore q = .ok (some s)) (clean : ¬ touched s)
    (own : ∀ q', k.queueSemaphore q' = .ok (some s) → q' = q) :
    (Outcome.putOn ⟨a, b⟩ q).length = if a.releases k = some (.semaphore s) then 1 else 0 := by
  split
  · next releases =>
    obtain ⟨m, puts⟩ := (h.releases_iff hs clean own).1 releases
    rw [Outcome.putOn_of_some (o := ⟨a, b⟩) puts, if_pos rfl, List.length_singleton]
  · next releases =>
    cases puts : a.puts with
    | none => rw [Outcome.putOn_of_none (o := ⟨a, b⟩) puts, List.length_nil]
    | some x =>
      obtain ⟨q', m⟩ := x
      have hq : q' ≠ q := fun hq => releases ((h.releases_iff hs clean own).2 ⟨m, hq ▸ puts⟩)
      rw [Outcome.putOn_of_some (o := ⟨a, b⟩) puts, if_neg hq, List.length_nil]

theorem idle (h : a.MindsCounts b k new ticket source touched)
    (nobody : ∀ q, k.queueSemaphore q ≠ .ok (some s)) (clean : ¬ touched s) :
    a.claims b ≠ some (.semaphore s) ∧ a.releases k ≠ some (.semaphore s) := by
  constructor
  · intro claims
    cases source with
    | none => exact clean (h.claims s claims rfl)
    | some q =>
      obtain ⟨s', hs', he⟩ := h.awaits _ q claims rfl
      cases he
      exact nobody q hs'
  · intro releases
    rcases Action.posts_or_puts releases with posts | ⟨q, m, -, hs⟩
    · exact clean (h.posts s posts)
    · exact nobody q hs

end Action.MindsCounts

theorem MoveStep.redeems_of_taken {β : Type} {a : Action β} {b : β} {k k' : Kernel} {q : QueueId}
    {s : SemId} {m : Message} (h : MoveStep a b k k') (hs : k.queueSemaphore q = .ok (some s))
    (taken : Outcome.taken ⟨a, b⟩ = some (q, m)) : a.redeems = some q := by
  cases h with
  | still _ none => exact nomatch none.symm.trans taken
  | adds _ _ _ _ none => exact nomatch none.symm.trans taken
  | pools _ _ _ none => exact nomatch none.symm.trans taken
  | puts _ _ _ _ _ none => exact nomatch none.symm.trans taken
  | hangs _ _ _ _ _ none => exact nomatch none.symm.trans taken
  | takes q' m' slot queue queue' slots₁ d _ taken' _ which _ _ _ _ how =>
    obtain ⟨rfl, rfl⟩ := Prod.mk.inj (Option.some.inj (taken.symm.trans taken'))
    rcases how with ⟨mine, -⟩ | ⟨-, counts, -⟩
    · exact mine
    · rw [Kernel.queueSemaphore_eq_ok, which, Option.map_some, Option.some.injEq] at hs
      cases hd : queue.discipline with
      | task s => exact (hd ▸ counts : (Discipline.task s).Counts).elim
      | driver x =>
        rw [hd] at hs
        exact nomatch hs

theorem MoveStep.length_takenFrom {β : Type} {a : Action β} {b : β} {k k' : Kernel} {q : QueueId}
    {s : SemId} (h : MoveStep a b k k') (hs : k.queueSemaphore q = .ok (some s))
    (found : a.redeems = some q → ¬ Outcome.Missed ⟨a, b⟩) :
    (Outcome.takenFrom ⟨a, b⟩ q).length = if a.redeems = some q then 1 else 0 := by
  split
  · next redeems =>
    obtain ⟨m, taken⟩ := (Action.taken_of_redeems redeems).resolve_left (found redeems)
    rw [Outcome.takenFrom_of_some taken, if_pos rfl, List.length_singleton]
  · next redeems =>
    cases taken : Outcome.taken ⟨a, b⟩ with
    | none => rw [Outcome.takenFrom_of_none taken, List.length_nil]
    | some x =>
      obtain ⟨q', m⟩ := x
      have hq : q' ≠ q := fun hq => redeems (h.redeems_of_taken hs (hq ▸ taken))
      rw [Outcome.takenFrom_of_some taken, if_neg hq, List.length_nil]

namespace Kernel.InStep

variable {k : Kernel} {pending pending' : List SemId} {tickets tickets' : List QueueId}
  {touched touched' : SemId → Prop}

theorem initial (clock : Clock) : ({ clock : Core }).kernel.InStep [] [] touched where
  drivers _ _ _ h := by simp at h
  tasks _ _ h := by simp [Kernel.queueSemaphore_eq_ok] at h
  known _ _ h := by simp [Kernel.queueSemaphore_eq_ok] at h
  distinct _ _ _ h := by simp [Kernel.queueSemaphore_eq_ok] at h
  tickets _ h := nomatch h
  fresh := .nil
  pending _ h := nomatch h

theorem perm (h : k.InStep pending tickets touched) (hp : pending.Perm pending')
    (ht : tickets.Perm tickets') : k.InStep pending' tickets' touched := by
  refine { h with tasks := ?_, tickets := ?_, fresh := hp.nodup h.fresh, pending := ?_ }
  · intro q s hs
    rw [← ht.count_eq]
    exact h.tasks q s hs
  · intro q hq
    exact h.tickets q (ht.mem_iff.2 hq)
  · intro s hs
    exact h.pending s (hp.mem_iff.2 hs)

theorem sublist (h : k.InStep pending tickets touched) (hp : pending'.Sublist pending) :
    k.InStep pending' tickets touched :=
  { h with fresh := h.fresh.sublist hp, pending := fun s hs => h.pending s (hp.subset hs) }

/-- A caller with a ticket finds a message. -/
theorem not_missed {β : Type} {a : Action β} {b : β} {c c' : Core} {q : QueueId} {s : SemId}
    (h : c.kernel.InStep pending tickets touched) (order : c.kernel.QueuesInOrder)
    (result : a.toSection c = .ok b c') (redeems : a.redeems = some q) (ticket : q ∈ tickets)
    (hs : c.kernel.queueSemaphore q = .ok (some s)) (clean : ¬ touched s) :
    ¬ Outcome.Missed ⟨a, b⟩ := by
  intro missed
  obtain ⟨q', queue, redeems', which, first⟩ := Action.missed_ok result missed
  obtain rfl : q = q' := Option.some.inj (redeems.symm.trans redeems')
  have empty : c.kernel.queued q = [] := (order.holds q queue which).strung.eq_nil first
  have count := h.tasks q s hs clean
  have one := List.one_le_count_iff.2 ticket
  rw [empty, List.length_nil] at count
  omega

variable {β : Type} {a : Action β} {b : β} {c c' : Core} {new : Option SemId}
  {ticket source : Option QueueId}

theorem units {s : SemId} (result : a.toSection c = .ok b c') (has : c.kernel.Has (.semaphore s)) :
    c'.kernel.units (.semaphore s) + (if a.claims b = some (.semaphore s) then 1 else 0) =
      c.kernel.units (.semaphore s) +
        (if a.releases c.kernel = some (.semaphore s) then 1 else 0) := by
  rcases (Action.waitStep result).units has with h | ⟨⟨m, hm⟩, -⟩
  · exact h
  · exact nomatch hm

theorem count_toList {o : Option QueueId} {q : QueueId} :
    o.toList.count q = if o = some q then 1 else 0 := by
  cases o with
  | none => rfl
  | some q' =>
    rw [Option.toList_some, List.count_singleton]
    by_cases hq : q' = q <;> simp [hq]

theorem semaphore_before {q : QueueId} {s : SemId} (h : c.kernel.InStep pending tickets touched)
    (result : a.toSection c = .ok b c') (redeems : ∀ q, a.redeems = some q → q ∈ tickets)
    (hs : c'.kernel.queueSemaphore q = .ok (some s)) : c.kernel.queueSemaphore q = .ok (some s) ∨
      q.index = c.kernel.queues.length ∧ a.adds = some (.task s) := by
  rw [Kernel.queueSemaphore_eq_ok] at hs ⊢
  obtain ⟨queue', which', hd⟩ := Option.map_eq_some_iff.1 hs
  rcases (Action.moveStep result).leaves (fun q hq => h.tickets q (redeems q hq)) which' with
    ⟨queue, which, leaves⟩ | ⟨hi, adds⟩
  · rw [which, Option.map_some, ← leaves.semaphore, hd]
    exact .inl rfl
  · cases he : queue'.discipline with
    | task s' =>
      rw [he] at hd adds
      cases hd
      exact .inr ⟨hi, adds⟩
    | driver x =>
      rw [he] at hd
      exact nomatch hd

theorem fresh_of_adds {s : SemId}
    (h : c.kernel.InStep (new.toList ++ pending) (ticket.toList ++ tickets) touched)
    (minds : a.MindsCounts b c.kernel new ticket source touched')
    (adds : a.adds = some (.task s)) : s ∉ pending ∧ c.kernel.Has (.semaphore s) ∧
      (∀ q, c.kernel.queueSemaphore q ≠ .ok (some s)) ∧
      (¬ touched s → c.kernel.units (.semaphore s) = 0) := by
  have hn : new = some s := minds.fresh s adds
  have nodup := h.fresh
  rw [hn] at nodup
  refine ⟨(List.nodup_cons.1 nodup).1, h.pending s ?_⟩
  rw [hn]
  exact List.mem_append_left _ List.mem_cons_self

theorem empty_of_adds {q : QueueId} {d : Discipline} (order : c.kernel.QueuesInOrder)
    (result : a.toSection c = .ok b c') (hi : q.index = c.kernel.queues.length)
    (adds : a.adds = some d) : (c'.kernel.queued q).length = 0 := by
  obtain ⟨order', moves⟩ := (Action.moveStep result).moves order
  have before : c.kernel.queued q = [] := by
    rw [queued, List.getElem?_eq_none (Nat.le_of_eq hi.symm)]
    rfl
  obtain ⟨put, taken⟩ := Action.moves_of_adds (b := b) adds
  have balance := moves.length order order' q
  rw [before, Outcome.putOn_of_none (o := ⟨a, b⟩) put, Outcome.takenFrom_of_none taken] at balance
  simpa using balance.symm

theorem redeems_mem {q : QueueId} (minds : a.MindsCounts b c.kernel new ticket source touched')
    (redeems : a.redeems = some q) : q ∈ ticket.toList ++ tickets := by
  rw [← minds.redeems, redeems]
  exact List.mem_append_left _ List.mem_cons_self

/-- The units of the semaphore of a queue and the tickets for the queue make up its length. -/
theorem tasks_step {q : QueueId} {s : SemId}
    (h : c.kernel.InStep (new.toList ++ pending) (ticket.toList ++ tickets) touched)
    (order : c.kernel.QueuesInOrder) (result : a.toSection c = .ok b c')
    (minds : a.MindsCounts b c.kernel new ticket source touched')
    (more : ∀ s, touched s → touched' s) (hs : c'.kernel.queueSemaphore q = .ok (some s))
    (clean : ¬ touched' s) : (c'.kernel.queued q).length = c'.kernel.units (.semaphore s) +
      (((a.claims b).bind fun _ => source).toList ++ tickets).count q := by
  have dirty (ht : touched s) : False := clean (more s ht)
  rcases h.semaphore_before result (fun q => redeems_mem minds) hs with hs | ⟨hi, adds⟩
  · have own (q' : QueueId) (hs' : c.kernel.queueSemaphore q' = .ok (some s)) : q' = q :=
      h.distinct q' q s hs' hs
    obtain ⟨order', moves⟩ := (Action.moveStep result).moves order
    have before := h.tasks q s hs dirty
    have balance := moves.length order order' q
    have units := InStep.units result (h.known q s hs)
    have put := minds.length_putOn hs clean own
    have taken := (Action.moveStep result).length_takenFrom hs fun mine =>
      h.not_missed order result mine (redeems_mem minds mine) hs dirty
    have claims : (if (a.claims b).bind (fun _ => source) = some q then 1 else 0) =
        if a.claims b = some (.semaphore s) then 1 else 0 :=
      if_congr (minds.claims_iff hs clean own).symm rfl rfl
    rw [minds.redeems] at taken
    rw [List.count_append, count_toList] at before ⊢
    rw [claims]
    omega
  · obtain ⟨-, known, -, units⟩ := h.fresh_of_adds minds adds
    have balance := InStep.units result known
    have none : tickets.count q = 0 := by
      apply List.count_eq_zero.2
      intro hq
      obtain ⟨s', hs'⟩ := h.tickets q (List.mem_append_right _ hq)
      rw [Kernel.queueSemaphore_eq_ok, List.getElem?_eq_none (Nat.le_of_eq hi.symm)] at hs'
      exact nomatch hs'
    rw [Action.claims_of_adds adds, Action.releases_of_adds adds, units dirty] at balance
    rw [empty_of_adds order result hi adds, Action.claims_of_adds adds, Option.bind_none,
      Option.toList_none, List.nil_append, none]
    simpa using balance.symm

theorem pending_step {s : SemId}
    (h : c.kernel.InStep (new.toList ++ pending) (ticket.toList ++ tickets) touched)
    (result : a.toSection c = .ok b c') (minds : a.MindsCounts b c.kernel new ticket source touched')
    (more : ∀ s, touched s → touched' s)
    (hs : s ∈ (Outcome.newSemaphore ⟨a, b⟩).toList ++ pending) : c'.kernel.Has (.semaphore s) ∧
      (∀ q, c'.kernel.queueSemaphore q ≠ .ok (some s)) ∧
      (¬ touched' s → c'.kernel.units (.semaphore s) = 0) := by
  have before {q : QueueId} := h.semaphore_before (q := q) (s := s) result fun q => redeems_mem minds
  rcases List.mem_append.1 hs with hs | hs
  · obtain ⟨unknown, known, units⟩ := Action.newSemaphore_ok result (Option.mem_toList.1 hs)
    refine ⟨known, fun q hq => ?_, fun _ => units⟩
    rcases before hq with hq | ⟨-, adds⟩
    · exact unknown (h.known q s hq)
    · exact unknown (h.fresh_of_adds minds adds).2.1
  · obtain ⟨known, nobody, units⟩ := h.pending s (List.mem_append_right _ hs)
    refine ⟨(Action.waitStep result).has known, fun q hq => ?_, fun clean => ?_⟩
    · rcases before hq with hq | ⟨-, adds⟩
      · exact nobody q hq
      · exact (h.fresh_of_adds minds adds).1 hs
    · obtain ⟨claims, releases⟩ := minds.idle nobody clean
      have balance := InStep.units result known
      rw [if_neg claims, if_neg releases, units fun ht => clean (more s ht)] at balance
      exact balance

/-- The next section of a call keeps the counts in step. -/
theorem step (h : c.kernel.InStep (new.toList ++ pending) (ticket.toList ++ tickets) touched)
    (order : c.kernel.QueuesInOrder) (result : a.toSection c = .ok b c')
    (minds : a.MindsCounts b c.kernel new ticket source touched')
    (more : ∀ s, touched s → touched' s) :
    c'.kernel.InStep ((Outcome.newSemaphore ⟨a, b⟩).toList ++ pending)
      (((a.claims b).bind fun _ => source).toList ++ tickets) touched' := by
  have precedes := Action.precedes result
  obtain ⟨order', moves⟩ := (Action.moveStep result).moves order
  have before {q : QueueId} {s : SemId} :=
    h.semaphore_before (q := q) (s := s) result fun q => redeems_mem minds
  have has {w : Waitable} := (Action.waitStep result).has (w := w)
  constructor
  case drivers =>
    intro q queue' d' which' hd'
    have balance := moves.length order order' q
    have tickets (q : QueueId) (hq : a.redeems = some q) := h.tickets q (redeems_mem minds hq)
    rcases (Action.moveStep result).leaves tickets which' with
      ⟨queue, which, leaves⟩ | ⟨hi, adds⟩
    · obtain ⟨d, hd, count⟩ := leaves.count d' hd'
      have old := h.drivers q queue d which hd
      omega
    · have zero : d'.count = 0 := minds.empty d' (hd' ▸ adds)
      rw [zero, empty_of_adds order result hi adds]
      rfl
  case tasks => exact fun q s hs clean => h.tasks_step order result minds more hs clean
  case known =>
    intro q s hs
    rcases before hs with hs | ⟨-, adds⟩
    · exact has (h.known q s hs)
    · exact has (h.fresh_of_adds minds adds).2.1
  case distinct =>
    -- A new queue has the semaphore that its call made for it, which no other queue has.
    intro q q' s hs hs'
    rcases before hs with hs | ⟨hi, adds⟩ <;> rcases before hs' with hs' | ⟨hi', adds'⟩
    · exact h.distinct q q' s hs hs'
    · exact ((h.fresh_of_adds minds adds').2.2.1 q hs).elim
    · exact ((h.fresh_of_adds minds adds).2.2.1 q' hs').elim
    · exact QueueId.index_injective (hi.trans hi'.symm)
  case tickets =>
    intro q hq
    rcases List.mem_append.1 hq with hq | hq
    · obtain ⟨w, claims, rfl⟩ := Option.bind_eq_some_iff.1 (Option.mem_toList.1 hq)
      obtain ⟨s, hs, -⟩ := minds.awaits w q claims rfl
      exact ⟨s, precedes q _ hs⟩
    · obtain ⟨s, hs⟩ := h.tickets q (List.mem_append_right _ hq)
      exact ⟨s, precedes q _ hs⟩
  case fresh =>
    have old := (List.nodup_append.1 h.fresh).2.1
    cases hn : Outcome.newSemaphore ⟨a, b⟩ with
    | none => exact old
    | some s =>
      refine List.nodup_cons.2 ⟨fun hs => ?_, old⟩
      exact (Action.newSemaphore_ok result hn).1 (h.pending s (List.mem_append_right _ hs)).1
  case pending => exact fun s hs => h.pending_step result minds more hs

end Kernel.InStep

end Rtos
