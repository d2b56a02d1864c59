import Rtos.Proofs.Coherence
import Rtos.Proofs.Custody

/-!
# Messages on their way

Nobody but who holds a message can change its bytes. `Bears` follows one message through a run, on
its queue, in a call under way and in somebody's hands, and says that its payload has a property
wherever it is. A run keeps that as long as what is written to the message keeps it.
-/

namespace Rtos

/-- If the call writes a header into the message `id`, which it still holds, then it puts a payload
with `P` on the queue. -/
def OpenCall.StampsWell (o : OpenCall) (id : MessageId) (P : Payload → Prop) : Prop :=
  o.call.stamps.isSome → (∃ x ∈ o.phase.cargo, x.id = id) →
    ∀ q m, o.call.Hands q m → P m.payload

/-- Wherever the message `id` is, its payload satisfies `P`. -/
structure System.Bears (s : System) (id : MessageId) (P : Payload → Prop) : Prop where
  known : ∃ home, s.core.kernel.homeOf id = some home
  queued : ∀ home q payload, s.core.kernel.label id = some (home, q, some payload) → P payload
  held : ∀ m ∈ s.holders, m.id = id → P m.payload
  stamped : ∀ o ∈ s.calls, o.StampsWell id P

namespace KernelCall

variable {α : Type} {call : KernelCall α}

theorem idle_of_stamps (h : call.stamps.isSome) : call.source = none ∧ call.slotSize = none := by
  cases call <;> first | exact ⟨rfl, rfl⟩ | cases h

end KernelCall

theorem Permits.source_of_taken {who : Caller} {α β : Type} {call : KernelCall α} {k : Kernel}
    {ph : Phase} {a : Action β} {b : β} {q : QueueId} {m : Message} (h : Permits who call k ph a)
    (taken : Outcome.taken ⟨a, b⟩ = some (q, m)) : call.source = some q := by
  cases a with
  | dequeue q' =>
    cases b with
    | none => cases taken
    | some x =>
      cases taken
      have ticket := h.redeems
      rw [Phase.ticket] at ticket
      split at ticket
      · exact ticket.symm
      · cases ticket
  | pollDriver q' =>
    cases b with
    | none => cases taken
    | some x =>
      cases taken
      exact h.polls q rfl
  | _ => cases taken

namespace Kernel.Moves

variable {o : Outcome} {k k' : Kernel} {id : MessageId} {P : Payload → Prop}

theorem payload_of_arrival (moves : k.Moves o k') (known : ∃ home, k.homeOf id = some home)
    (queued : ∀ home q payload, k.label id = some (home, q, some payload) → P payload) {m : Message}
    (hm : m ∈ o.arrivals) (he : m.id = id) : (∃ q, o.taken = some (q, m)) ∧ P m.payload := by
  subst he
  cases moves with
  | still put taken made labels lists =>
    rw [Outcome.arrivals_of_idle taken made] at hm
    cases hm
  | puts q m' put taken made free labels lists =>
    rw [Outcome.arrivals_of_idle taken made] at hm
    cases hm
  | takes q m' put taken made kept labels lists =>
    rw [Outcome.arrivals_of_taken taken made, List.mem_singleton] at hm
    subst hm
    exact ⟨⟨q, taken⟩, queued _ _ _ kept⟩
  | pools q shape put taken made labels lists =>
    rw [Outcome.arrivals_of_none taken, made] at hm
    obtain ⟨home, known⟩ := known
    obtain ⟨x, label, -⟩ := Option.map_eq_some_iff.1 known
    have new := (Call.mem_ids_freshMessages.1 (List.mem_map_of_mem hm)).1
    exact (Nat.not_lt_of_le new (lt_of_label label)).elim

theorem payload_of_label (moves : k.Moves o k') (known : ∃ home, k.homeOf id = some home)
    (queued : ∀ home q payload, k.label id = some (home, q, some payload) → P payload)
    (put : ∀ q m, o.put = some (q, m) → m.id = id → P m.payload) {home : QueueId}
    {q : Option QueueId} {payload : Payload} (label : k'.label id = some (home, q, some payload)) :
    P payload := by
  cases moves with
  | still _ _ _ labels _ => exact queued home q payload ((labels id).symm.trans label)
  | puts q' m puts _ _ free labels _ =>
    rw [labels] at label
    split at label
    · next he =>
      simp only [Option.some.injEq, Prod.mk.injEq] at label
      exact label.2.2 ▸ put q' m puts he.symm
    · exact queued home q payload label
  | takes q' m _ _ _ kept labels _ =>
    rw [labels] at label
    split at label
    · simp at label
    · exact queued home q payload label
  | pools q' shape _ _ _ labels _ =>
    obtain ⟨_, known⟩ := known
    obtain ⟨x, old, -⟩ := Option.map_eq_some_iff.1 known
    rw [labels, if_pos (lt_of_label old)] at label
    exact queued home q payload label

end Kernel.Moves

namespace System.Bears

variable {s s' : System} {id : MessageId} {P : Payload → Prop}

theorem of_queued (accounts : s.Accounts) {home q : QueueId} {payload : Payload}
    (label : s.core.kernel.label id = some (home, some q, some payload)) (h : P payload) :
    s.Bears id P := by
  have free (m : Message) (hm : m ∈ s.holders) : m.id ≠ id := by
    rintro rfl
    exact nomatch (accounts.guarded.label hm).symm.trans label
  refine ⟨⟨home, by rw [Kernel.homeOf, label]; rfl⟩, fun home' q' payload' label' => ?_,
    fun m hm he => (free m hm he).elim, fun o ho _ ⟨x, hx, he⟩ => ?_⟩
  · have same := label.symm.trans label'
    simp only [Option.some.injEq, Prod.mk.injEq] at same
    exact same.2.2 ▸ h
  · exact (free x (List.mem_append_left _ (List.mem_flatMap.2 ⟨o, ho, hx⟩)) he).elim

/-- What a run has to leave alone: the message may be written to only within `P`, and a header only
goes into it if the result satisfies `P`. -/
structure Heeded (s s' : System) (id : MessageId) (P : Payload → Prop) : Prop where
  writes : ∀ m ∈ s.held, ∀ m' ∈ s'.held, m.id = id → m'.id = id →
    m'.payload.length = m.payload.length → P m.payload → P m'.payload
  stamps : ∀ o, s'.calls = o :: s.calls → ∀ m length, o.call.stamps = some (m, length) →
    m.message.id = id → P m.message.payload → ∀ q x, o.call.Hands q x → P x.payload

theorem step (contract : s.InContract) (accounts : s.Accounts) (h : s.Bears id P)
    (hs : System.Step s s') (heeded : Heeded s s' id P) : s'.Bears id P := by
  have known : ∃ home, s'.core.kernel.homeOf id = some home :=
    h.known.imp fun _ known => hs.homeOf accounts known
  -- The queues stay as they are, and the messages with their holders.
  have same {s' : System} (kernel : s'.core.kernel = s.core.kernel)
      (holders : s'.holders.Perm s.holders) (stamped : ∀ o ∈ s'.calls, o.StampsWell id P) :
      s'.Bears id P := by
    refine ⟨kernel ▸ h.known, kernel ▸ h.queued, fun m hm => h.held m ?_, stamped⟩
    exact holders.mem_iff.1 hm
  cases hs with
  | begin _ who call held may holds =>
    have mine (m : Message) (hm : m ∈ call.takes) : m ∈ s.held :=
      holds.mem_iff.2 (List.mem_append_left held hm)
    refine same rfl (holders_begin holds)
      (List.forall_mem_cons.2 ⟨fun stamps ⟨x, hx, he⟩ => ?_, h.stamped⟩)
    obtain ⟨⟨m, length⟩, stamps⟩ := Option.isSome_iff_exists.1 stamps
    have takes : call.takes = [m.message] := by cases call <;> cases stamps; rfl
    obtain rfl := List.mem_singleton.1 (takes ▸ hx)
    refine heeded.stamps _ rfl m length stamps he (h.held _ (List.mem_append_right _ ?_) he)
    exact mine _ (takes ▸ List.mem_singleton.2 rfl)
  | reply c c' later earlier held lost log who call r next ph b may answer =>
    exact same answer.kernel_eq (holders_middle.trans holders_middle.symm)
      (forall_middle h.stamped fun h => h)
  | act c c' later earlier held lost log who call a next ph b may result =>
    have permits := contract.permits may
    obtain ⟨-, moves⟩ := (Action.moveStep result).moves accounts.guarded.order
    have mine : OpenCall.StampsWell ⟨who, call, .ask (.act a) next, ph⟩ id P :=
      h.stamped _ (List.mem_append_right later List.mem_cons_self)
    have held (m : Message) (hm : m ∈ ph.cargo) : m.id = id → P m.payload :=
      h.held m (holders_middle.symm.mem_iff.1 (List.mem_append_left _ hm))
    have arrives {m : Message} := moves.payload_of_arrival h.known h.queued (m := m)
    have cargo := (Phase.cargo_after moves permits.holds).2
    have put (q : QueueId) (m : Message) (puts : a.puts = some (q, m)) (he : m.id = id) :
        P m.payload := by
      cases stamps : call.stamps with
      | none => exact held m (permits.whole stamps q m puts) he
      | some x =>
        obtain ⟨m', hm', same, -⟩ := permits.holds q m puts
        exact mine (stamps ▸ rfl) ⟨m', hm', same.trans he⟩ q m (permits.hands q m puts)
    refine ⟨known, fun _ _ _ => moves.payload_of_label h.known h.queued put, fun m hm he => ?_,
      forall_middle h.stamped fun _ stamps ⟨x, hx, he⟩ => ?_⟩
    · rcases List.mem_append.1 (holders_middle.mem_iff.1 hm) with hm | hm
      · rcases cargo m hm with hm | hm
        · exact held m hm he
        · exact (arrives hm he).2
      · exact h.held m (holders_middle.symm.mem_iff.1 (List.mem_append_right _ hm)) he
    · rcases cargo x hx with hx | hx
      · exact mine stamps ⟨x, hx, he⟩
      · obtain ⟨⟨q, taken⟩, -⟩ := arrives hx he
        have source := permits.source_of_taken taken
        exact nomatch (KernelCall.idle_of_stamps stamps).1.symm.trans source
  | unroll c later earlier held lost log who call body t next ph =>
    exact same rfl (holders_middle.trans holders_middle.symm) (forall_middle h.stamped fun h => h)
  | finish c later earlier held lost log who call a ph =>
    have rests := (contract.sound _ (List.mem_append_right later List.mem_cons_self)).keeps
    exact same rfl (holders_finish rests.cargo) fun o ho => h.stamped o (mem_middle.2 (.inl ho))
  | switch _ c sp resumed result =>
    have moves := ((Action.moveStep (a := .switch sp) result).moves accounts.guarded.order).2
    exact ⟨known, fun _ _ _ => moves.payload_of_label h.known h.queued fun _ _ put => (nomatch put),
      h.held, h.stamped⟩
  | write _ before behind m payload holds fits =>
    refine ⟨known, h.queued, fun x hx he => ?_, h.stamped⟩
    have old (y : Message) (hy : y ∈ s.held) := h.held y (List.mem_append_right _ hy)
    rcases List.mem_append.1 hx with hx | hx
    · exact h.held x (List.mem_append_left _ hx) he
    rcases List.mem_append.1 hx with mem | mem
    · exact old x (holds ▸ List.mem_append_left _ mem) he
    rcases List.mem_cons.1 mem with rfl | mem
    · have mem : m ∈ s.held := holds ▸ List.mem_append_right _ List.mem_cons_self
      exact heeded.writes m mem _ hx he he fits (old m mem he)
    · exact old x (holds ▸ List.mem_append_right _ (List.mem_cons_of_mem _ mem)) he
  | drop _ before behind m holds =>
    refine ⟨known, h.queued, fun x hx he => h.held x ?_ he, h.stamped⟩
    rcases List.mem_append.1 hx with hx | hx
    · exact List.mem_append_left _ hx
    · refine List.mem_append_right _ (holds ▸ ?_)
      exact (List.sublist_cons_self m behind).append_left before |>.subset hx
  | elapse => exact same rfl (.refl _) h.stamped

end System.Bears

/-- A step in which nobody writes to the message `id`, and no call is made that writes a header into
it. -/
structure System.Carries (id : MessageId) (s s' : System) : Prop where
  step : System.Step s s'
  unwritten : ∀ m ∈ s.held, ∀ m' ∈ s'.held, m.id = id → m'.id = id → m'.payload = m.payload
  unstamped : ∀ o, s'.calls = o :: s.calls →
    ∀ m length, o.call.stamps = some (m, length) → m.message.id ≠ id

def System.Has (s : System) (m : Message) : Prop :=
  m ∈ s.holders ∨ ∃ q, m ∈ s.core.kernel.parked q

namespace System

variable {s s' : System} {id : MessageId} {P : Payload → Prop}

theorem Bears.payload (h : s.Bears id P) (order : s.core.kernel.QueuesInOrder) {m : Message}
    (has : s.Has m) (he : m.id = id) : P m.payload := by
  rcases has with has | ⟨q, has⟩
  · exact h.held m has he
  · exact h.queued _ _ _ (he ▸ Kernel.label_of_mem_parked order has)

theorem Bears.carried (reachable : Reachable s) (h : s.Bears id P)
    (run : Relation.ReflTransGen (Carries id) s s') : Reachable s' ∧ s'.Bears id P := by
  induction run with
  | refl => exact ⟨reachable, h⟩
  | tail _ carries ih =>
    obtain ⟨reachable, ih⟩ := ih
    refine ⟨reachable.step carries.step, ih.step reachable.inContract reachable.accounts
      carries.step ⟨fun m hm m' hm' he he' _ h => ?_, fun o new m length stamps he => ?_⟩⟩
    · exact carries.unwritten m hm m' hm' he he' ▸ h
    · exact (carries.unstamped o new m length stamps he).elim

end System

theorem Phase.mem_cargo_after {o : Outcome} {ph : Phase} {q : QueueId} {m : Message}
    (taken : o.taken = some (q, m)) : m ∈ (ph.after o).cargo := by
  have put : o.put = none := by
    obtain ⟨a, b⟩ := o
    cases a <;> first | rfl | cases taken
  simp [Phase.after, put, taken]

theorem Reachable.cargo_of_taken {s : System} (h : Reachable s) : ∀ o ∈ s.calls, ∀ q m,
    o.phase.last.bind Outcome.taken = some (q, m) → m ∈ o.phase.cargo := by
  induction h with
  | boot clock => exact fun _ h => nomatch h
  | step _ hs ih =>
    cases hs with
    | begin => exact List.forall_mem_cons.2 ⟨fun _ _ h => (nomatch h), ih⟩
    | reply => exact forall_middle ih fun h => h
    | act => exact forall_middle ih fun _ _ _ taken => Phase.mem_cargo_after taken
    | unroll => exact forall_middle ih fun h => h
    | finish => exact fun o ho => ih o (mem_middle.2 (.inl ho))
    | switch => exact ih
    | write => exact ih
    | drop => exact ih
    | elapse => exact ih

end Rtos
