import Rtos.Proofs.Breach
import Rtos.Proofs.Counts
import Rtos.Proofs.Custody
import Rtos.Proofs.Script

/-!
# Queues in every run

What comes off a queue went onto it in the same order, whoever puts and takes. The counts are in step
at all times; that of a task queue as long as nobody posts its semaphore, or claims a unit of it, but
by putting and receiving messages. So a call that holds a ticket finds its message.
-/

namespace Rtos

theorem KernelCall.Awaits.of_source {α : Type} {call : KernelCall α} {k : Kernel} {w : Waitable}
    {q : QueueId} (h : call.Awaits k w) (hs : call.source = some q) :
    ∃ s, k.queueSemaphore q = .ok (some s) ∧ w = .semaphore s := by
  cases call
  case receive => exact Option.some.inj hs ▸ h
  case receiveTagged => exact Option.some.inj hs ▸ h
  all_goals exact nomatch hs

theorem Phase.source_of_ticket {α : Type} {call : KernelCall α} {ph : Phase} {q : QueueId}
    (h : ph.ticket call = some q) : call.source = some q := by
  unfold Phase.ticket at h
  split at h
  · exact h
  · exact nomatch h

theorem Permits.mindsCounts {who : Caller} {α β : Type} {call : KernelCall α} {k : Kernel}
    {ph : Phase} {a : Action β} {b : β} {touched : SemId → Prop} (h : Permits who call k ph a)
    (claims : ∀ s, a.claims b = some (.semaphore s) → call.source = none → touched s)
    (posts : ∀ s, a.posts = some s → touched s) :
    a.MindsCounts b k (ph.last.bind Outcome.newSemaphore) (ph.ticket call) call.source touched where
  redeems := h.redeems
  fresh _ adds := h.fresh _ adds
  empty _ adds := h.fresh _ adds
  awaits w _ hw hq := (h.awaits w (Action.tries_of_claims hw)).of_source hq
  claims := claims
  posts := posts

namespace Record

def source (p : Record) : Option QueueId := p.call.bind fun x => x.2.source

/-- Whether the section posted the semaphore, or claimed a unit of it for something else than the
next message of a queue. -/
def Touches (p : Record) (s : SemId) : Prop :=
  p.outcome.action.posts = some s ∨
    p.outcome.action.claims p.outcome.result = some (.semaphore s) ∧ p.source = none

instance (p : Record) (s : SemId) : Decidable (p.Touches s) := inferInstanceAs (Decidable (_ ∨ _))

end Record

namespace OpenCall

def newSemaphore (o : OpenCall) : Option SemId := o.phase.last.bind Outcome.newSemaphore

def ticket (o : OpenCall) : Option QueueId := o.phase.ticket o.call

end OpenCall

namespace System

def Touched (s : System) (sem : SemId) : Prop := ∃ p ∈ s.log, p.Touches sem

/-- The semaphore of the queue, if it has one, has been used through the queue alone. -/
def Private (s : System) (q : QueueId) : Prop :=
  ∀ sem, s.core.kernel.queueSemaphore q = .ok (some sem) → ¬ s.Touched sem

def pending (s : System) : List SemId := s.calls.filterMap OpenCall.newSemaphore

/-- One for each call that has claimed a unit and not yet taken its message. -/
def tickets (s : System) : List QueueId := s.calls.filterMap OpenCall.ticket

def putsOn (s : System) (q : QueueId) : List Message := s.log.reverse.flatMap (·.outcome.putOn q)

def takesFrom (s : System) (q : QueueId) : List Message :=
  s.log.reverse.flatMap (·.outcome.takenFrom q)

structure Counted (s : System) : Prop where
  inStep : s.core.kernel.InStep s.pending s.tickets s.Touched
  inOrder : ∀ q, s.putsOn q = s.takesFrom q ++ s.core.kernel.parked q
  missed : ∀ o ∈ s.calls, ∀ x, o.phase.last = some x → x.Missed →
    ∃ q, o.call.source = some q ∧ ¬ s.Private q

theorem filterMap_middle {α β : Type*} (f : α → Option β) (later earlier : List α) (a : α) :
    ((later ++ a :: earlier).filterMap f).Perm ((f a).toList ++ (later ++ earlier).filterMap f) := by
  refine (List.perm_middle.filterMap f).trans (.of_eq ?_)
  rw [List.filterMap_cons]
  cases f a <;> rfl

theorem Counted.congr {s s' : System} (h : s.Counted) (kernel : s'.core.kernel = s.core.kernel)
    (log : s'.log = s.log) (pending : s'.pending.Sublist s.pending)
    (tickets : s'.tickets = s.tickets)
    (calls : ∀ o' ∈ s'.calls, o'.phase.last = none ∨
      ∃ o ∈ s.calls, o.phase.last = o'.phase.last ∧ o.call.source = o'.call.source) :
    s'.Counted where
  inStep := by
    have touched : s'.Touched = s.Touched := by
      funext sem
      rw [Touched, Touched, log]
    rw [kernel, tickets, touched]
    exact h.inStep.sublist pending
  inOrder q := by
    rw [putsOn, takesFrom, log, kernel]
    exact h.inOrder q
  missed o' ho' x hx missed := by
    rcases calls o' ho' with none | ⟨o, ho, same, source⟩
    · exact nomatch none.symm.trans hx
    · obtain ⟨q, hq, shared⟩ := h.missed o ho x (same.trans hx) missed
      refine ⟨q, source ▸ hq, ?_⟩
      rwa [Private, kernel, show s'.Touched = s.Touched by funext; rw [Touched, Touched, log]]

theorem Counted.goesOn {c c' : Core} {later earlier : List OpenCall} {held : List Message}
    {lost : List MessageId} {log : List Record} {who : Caller} {α : Type} {call : KernelCall α}
    {rest rest' : Program Unit α} {ph : Phase}
    (h : Counted ⟨c, later ++ ⟨who, call, rest, ph⟩ :: earlier, held, lost, log⟩)
    (kernel : c'.kernel = c.kernel) :
    Counted ⟨c', later ++ ⟨who, call, rest', ph⟩ :: earlier, held, lost, log⟩ := by
  refine h.congr kernel rfl ?_ ?_ fun o ho => ?_
  · simp only [pending, List.filterMap_append, List.filterMap_cons]
    exact .refl _
  · simp only [tickets, List.filterMap_append, List.filterMap_cons]
    rfl
  · rcases List.mem_append.1 ho with ho | ho
    · exact .inr ⟨o, List.mem_append_left _ ho, rfl, rfl⟩
    rcases List.mem_cons.1 ho with rfl | ho
    · exact .inr ⟨_, List.mem_append_right _ List.mem_cons_self, rfl, rfl⟩
    · exact .inr ⟨o, List.mem_append_right _ (List.mem_cons_of_mem _ ho), rfl, rfl⟩

theorem inOrder_cons {c c' : Core} {calls calls' : List OpenCall} {held held' : List Message}
    {lost lost' : List MessageId} {log : List Record} {p : Record} {q : QueueId}
    (h : putsOn ⟨c, calls, held, lost, log⟩ q =
      takesFrom ⟨c, calls, held, lost, log⟩ q ++ c.kernel.parked q)
    (moves : c.kernel.Moves p.outcome c'.kernel) (order : c.kernel.QueuesInOrder)
    (order' : c'.kernel.QueuesInOrder) :
    putsOn ⟨c', calls', held', lost', p :: log⟩ q =
      takesFrom ⟨c', calls', held', lost', p :: log⟩ q ++ c'.kernel.parked q := by
  simp only [putsOn, takesFrom, List.reverse_cons, List.flatMap_append, List.flatMap_singleton]
    at h ⊢
  rw [h, List.append_assoc, List.append_assoc, moves.parked order order' q]

theorem Private.before {c c' : Core} {calls calls' : List OpenCall} {held held' : List Message}
    {lost lost' : List MessageId} {log : List Record} {p : Record} {q : QueueId}
    (precedes : c.kernel.Precedes c'.kernel)
    (h : Private ⟨c', calls', held', lost', p :: log⟩ q) : Private ⟨c, calls, held, lost, log⟩ q := by
  rintro sem hs ⟨p', hp', touches⟩
  exact h sem (precedes q _ hs) ⟨p', List.mem_cons_of_mem p hp', touches⟩

theorem Counted.boot (clock : Clock) : ({ core := { clock } } : System).Counted :=
  ⟨.initial clock, fun _ => rfl, fun _ h => nomatch h⟩

theorem Counted.acts {c c' : Core} {later earlier : List OpenCall} {held : List Message}
    {lost : List MessageId} {log : List Record} {who : Caller} {α β : Type} {call : KernelCall α}
    {a : Action β} {next : Except Fault β → Program Unit α} {ph : Phase} {b : β}
    (h : Counted ⟨c, later ++ ⟨who, call, .ask (.act a) next, ph⟩ :: earlier, held, lost, log⟩)
    (order : c.kernel.QueuesInOrder) (permits : Permits who call c.kernel ph a)
    (result : a.toSection c = .ok b c') :
    Counted ⟨c', later ++ ⟨who, call, next (.ok b), ph.after ⟨a, b⟩⟩ :: earlier, held, lost,
      ⟨c.kernel, who, some ⟨α, call⟩, ⟨a, b⟩⟩ :: log⟩ := by
  let p : Record := ⟨c.kernel, who, some ⟨α, call⟩, ⟨a, b⟩⟩
  let o : OpenCall := ⟨who, call, .ask (.act a) next, ph⟩
  let o' : OpenCall := ⟨who, call, next (.ok b), ph.after ⟨a, b⟩⟩
  let s : System := ⟨c, later ++ o :: earlier, held, lost, log⟩
  let s' : System := ⟨c', later ++ o' :: earlier, held, lost, p :: log⟩
  have precedes := Action.precedes result
  obtain ⟨order', moves⟩ := (Action.moveStep result).moves order
  have more (sem : SemId) (h : s.Touched sem) : s'.Touched sem := by
    obtain ⟨p', hp', touches⟩ := h
    exact ⟨p', List.mem_cons_of_mem p hp', touches⟩
  have minds : a.MindsCounts b c.kernel o.newSemaphore o.ticket call.source s'.Touched :=
    permits.mindsCounts
      (fun sem claims source => ⟨p, List.mem_cons_self, .inr ⟨claims, source⟩⟩)
      fun sem posts => ⟨p, List.mem_cons_self, .inl posts⟩
  have inStep := h.inStep.perm (filterMap_middle OpenCall.newSemaphore later earlier o)
    (filterMap_middle OpenCall.ticket later earlier o)
  have after := inStep.step order result minds more
  rw [← Phase.ticket_after call ph] at after
  refine ⟨after.perm (filterMap_middle OpenCall.newSemaphore later earlier o').symm
    (filterMap_middle OpenCall.ticket later earlier o').symm,
    fun q => inOrder_cons (h.inOrder q) moves order order', fun x hx y hy missed => ?_⟩
  rcases List.mem_cons.1 (List.perm_middle.mem_iff.1 hx) with rfl | hx
  · obtain rfl : _ = y := Option.some.inj hy
    obtain ⟨q, queue, redeems, which, -⟩ := Action.missed_ok result missed
    have ticket : ph.ticket call = some q := permits.redeems.symm.trans redeems
    have mine : q ∈ o.ticket.toList ++ (later ++ earlier).filterMap OpenCall.ticket :=
      List.mem_append_left _ (Option.mem_toList.2 ticket)
    obtain ⟨sem, hs⟩ := inStep.tickets q mine
    refine ⟨q, Phase.source_of_ticket ticket, fun own => ?_⟩
    refine inStep.not_missed order result redeems mine hs (fun touched => ?_) missed
    exact own sem (precedes q _ hs) (more sem touched)
  · obtain ⟨q, hq, shared⟩ := h.missed x (List.perm_middle.mem_iff.2 (List.mem_cons_of_mem o hx)) y
      hy missed
    exact ⟨q, hq, fun own => shared (own.before precedes)⟩

theorem Counted.switches {s : System} {c : Core} {sp resumed : StackPointer} (h : s.Counted)
    (order : s.core.kernel.QueuesInOrder) (result : Section.switch sp s.core = .ok resumed c) :
    Counted { s with
      core := c
      log := ⟨s.core.kernel, .handler, none, ⟨.switch sp, resumed⟩⟩ :: s.log } := by
  let p : Record := ⟨s.core.kernel, .handler, none, ⟨.switch sp, resumed⟩⟩
  let s' : System := { s with core := c, log := p :: s.log }
  have more (sem : SemId) (h : s.Touched sem) : s'.Touched sem := by
    obtain ⟨p', hp', touches⟩ := h
    exact ⟨p', List.mem_cons_of_mem p hp', touches⟩
  have precedes := Action.precedes (a := .switch sp) result
  obtain ⟨order', moves⟩ := (Action.moveStep (a := .switch sp) result).moves order
  have minds : Action.MindsCounts (.switch sp) resumed s.core.kernel none none none s'.Touched :=
    ⟨rfl, fun _ h => (nomatch h), fun _ h => (nomatch h), fun _ _ h => (nomatch h),
      fun _ h => (nomatch h), fun _ h => nomatch h⟩
  have inStep : s.core.kernel.InStep ((none : Option SemId).toList ++ s.pending)
    ((none : Option QueueId).toList ++ s.tickets) s.Touched := h.inStep
  refine ⟨inStep.step (a := .switch sp) order result minds more,
    fun q => inOrder_cons (h.inOrder q) moves order order', fun x hx y hy missed => ?_⟩
  obtain ⟨q, hq, shared⟩ := h.missed x hx y hy missed
  exact ⟨q, hq, fun own => shared (own.before precedes)⟩

theorem Counted.step {s s' : System} (accounts : s.Accounts) (contract : s.InContract)
    (h : s.Counted) (hs : System.Step s s') : s'.Counted := by
  cases hs with
  | begin _ who call held may holds =>
    refine h.congr rfl rfl (.refl _) rfl fun o ho => ?_
    rcases List.mem_cons.1 ho with rfl | ho
    · exact .inl rfl
    · exact .inr ⟨o, ho, rfl, rfl⟩
  | reply c c' later earlier held lost log who call r next ph b may answer =>
    exact h.goesOn answer.kernel_eq
  | act c c' later earlier held lost log who call a next ph b may result =>
    exact h.acts accounts.guarded.order (contract.permits may) result
  | unroll c later earlier held lost log who call body t next ph => exact h.goesOn rfl
  | finish c later earlier held lost log who call a ph =>
    have rests := (contract.sound _ (List.mem_append_right later List.mem_cons_self)).keeps
    have sub : (later ++ earlier).Sublist (later ++ ⟨who, call, .done a, ph⟩ :: earlier) :=
      (List.sublist_cons_self _ earlier).append_left later
    refine h.congr rfl rfl (sub.filterMap _) ?_ fun o ho => .inr ⟨o, sub.subset ho, rfl, rfl⟩
    have none : OpenCall.ticket ⟨who, call, .done a, ph⟩ = none := rests.ticket
    simp only [tickets, List.filterMap_append, List.filterMap_cons, none]
  | switch _ c sp resumed result => exact h.switches accounts.guarded.order result
  | write => exact h.congr rfl rfl (.refl _) rfl fun o ho => .inr ⟨o, ho, rfl, rfl⟩
  | drop => exact h.congr rfl rfl (.refl _) rfl fun o ho => .inr ⟨o, ho, rfl, rfl⟩
  | elapse => exact h.congr rfl rfl (.refl _) rfl fun o ho => .inr ⟨o, ho, rfl, rfl⟩

end System

theorem Reachable.counted {s : System} (h : Reachable s) : s.Counted := by
  induction h with
  | boot clock => exact .boot clock
  | step hr hs ih => exact ih.step hr.accounts hr.inContract hs

/-- Messages leave a queue in the order in which they came, and its count tells how many there are. -/
structure System.InStep (s : System) : Prop where
  inOrder : ∀ q, s.takesFrom q <+: s.putsOn q
  /-- A driver queue counts the messages on it. -/
  drivers : ∀ (q : QueueId) queue d, s.core.kernel.queues[q.index]? = some queue →
    queue.discipline = .driver d → d.count.toNat = (s.core.kernel.queued q).length
  /-- A task queue has a message for each unit of its semaphore and for each call with a ticket. -/
  tasks : ∀ q sem, s.core.kernel.queueSemaphore q = .ok (some sem) → s.Private q →
    ∃ x, s.core.kernel.semaphores[sem.index]? = some x ∧
      (s.core.kernel.queued q).length = x.count.toNat + s.tickets.count q
  distinct : ∀ q q' sem, s.core.kernel.queueSemaphore q = .ok (some sem) →
    s.core.kernel.queueSemaphore q' = .ok (some sem) → q = q'

namespace System.Counted

variable {s : System}

theorem inStep_of (h : s.Counted) : s.InStep where
  inOrder q := by
    rw [h.inOrder q]
    exact List.prefix_append _ _
  drivers := h.inStep.drivers
  tasks q sem hs own := by
    have known : sem.index < s.core.kernel.semaphores.length := h.inStep.known q sem hs
    have count := h.inStep.tasks q sem hs (own sem hs)
    refine ⟨_, List.getElem?_eq_getElem known, ?_⟩
    rw [count, Kernel.units, List.getElem?_eq_getElem known]
    rfl
  distinct := h.inStep.distinct

end System.Counted

def Fault.IsMiscount : Fault → Prop
  | subtractOverflow | taskQueueCount | driverQueueCount => True
  | _ => False

theorem Fault.IsMiscount.breach {e : Fault} (h : e.IsMiscount) : e.IsBreach := by
  cases e <;> trivial

theorem System.FaultsIn.miscounts {s : System} {o : OpenCall} {e : Fault} (h : s.FaultsIn o e)
    (contract : s.InContract) (miscount : e.IsMiscount) :
    (e = .taskQueueCount ∧ ∃ x, o.phase.last = some x ∧ x.Missed) ∨
      e = .driverQueueCount ∧ ∃ (q : QueueId) (queue : Queue),
        s.core.kernel.queues[q.index]? = some queue ∧ queue.discipline.Counts ∧
          queue.first = none := by
  rcases h.breaches contract miscount.breach with missed | ⟨_, _, _, _, _, _, permits, breaches⟩
  · exact .inl missed
  cases breaches with
  | tries r ticks resumed _ _ _ _ breaks =>
    obtain ⟨status, unsound, -⟩ := breaks
    cases unsound <;> exact miscount.elim
  | alreadyQueued => exact miscount.elim
  | wrongHome => exact miscount.elim
  | vacant q _ vacant =>
    obtain ⟨_, _, _, _, _, -, -, -, -, rfl⟩ := vacant
    exact miscount.elim
  | miscounted q queue which counts first => exact .inr ⟨rfl, q, queue, which, counts, first⟩

namespace System.Counted

variable {s : System}

/-- A call that finds no message on its task queue shares the semaphore of the queue with others. -/
theorem shared_of_faults (h : s.Counted) (contract : s.InContract) {o : OpenCall}
    (faults : s.FaultsIn o .taskQueueCount) : ∃ q, o.call.source = some q ∧ ¬ s.Private q := by
  rcases faults.miscounts contract trivial with ⟨-, x, hx, missed⟩ | ⟨he, -⟩
  · obtain ⟨later, earlier, calls, -⟩ := faults
    exact h.missed o (calls ▸ List.mem_append_right later List.mem_cons_self) x hx missed
  · exact nomatch he

theorem not_driverQueueCount (h : s.Counted) (order : s.core.kernel.QueuesInOrder)
    (contract : s.InContract) : ¬ s.Faults .driverQueueCount := by
  rintro ⟨o, faults⟩
  rcases faults.miscounts contract trivial with ⟨he, -⟩ | ⟨-, q, queue, which, counts, first⟩
  · exact nomatch he
  have empty : s.core.kernel.queued q = [] := (order.holds q queue which).strung.eq_nil first
  cases hd : queue.discipline with
  | task sem => exact (hd ▸ counts : (Discipline.task sem).Counts)
  | driver d =>
    have count := h.inStep.drivers q queue d which hd
    rw [empty, List.length_nil] at count
    exact (hd ▸ counts : (Discipline.driver d).Counts) (UInt32.toNat_inj.1 count)

end System.Counted

theorem System.InContract.not_subtractOverflow {s : System} (contract : s.InContract) :
    ¬ s.Faults .subtractOverflow := by
  rintro ⟨o, faults⟩
  rcases faults.miscounts contract trivial with ⟨he, -⟩ | ⟨he, -⟩
  · exact nomatch he
  · exact nomatch he

/-- In every run queues are first in, first out, and their counts are right. A count never runs out,
and a call that claimed a unit of a task queue finds a message there, unless others use the
semaphore. -/
theorem Reachable.inStep {s : System} (h : Reachable s) : s.InStep ∧
    ¬ s.Faults .driverQueueCount ∧ ¬ s.Faults .subtractOverflow ∧
    ∀ o, s.FaultsIn o .taskQueueCount → ∃ q, o.call.source = some q ∧ ¬ s.Private q :=
  have counted := h.counted
  have contract := h.inContract
  ⟨counted.inStep_of, counted.not_driverQueueCount h.accounts.guarded.order contract,
    contract.not_subtractOverflow, fun _ => counted.shared_of_faults contract⟩

/-- A message waits for the call that has claimed its unit; the semaphore has none left. -/
theorem inStep_holdsTicket :
    (System.run Script.holdsTicket).core.kernel.queued ⟨1⟩ = [⟨0⟩] ∧
      (System.run Script.holdsTicket).core.kernel.units (.semaphore ⟨1⟩) = 0 ∧
      (System.run Script.holdsTicket).tickets = [⟨1⟩] ∧
      (∀ p ∈ (System.run Script.holdsTicket).log, ¬ p.Touches ⟨1⟩) ∧
      (System.run Script.holdsTicket).InStep ∧
      ¬ (System.run Script.holdsTicket).Faults .driverQueueCount := by
  have inStep := (System.reachable_run Script.holdsTicket).inStep
  exact ⟨by decide +kernel, by decide +kernel, by decide +kernel, by decide +kernel, inStep.1,
    inStep.2.1⟩

end Rtos
