import Rtos.Proofs.Carriage
import Rtos.Proofs.Pool
import Rtos.Proofs.Trail

/-!
# What tagged messages carry

A header that was written is read back, and writing it leaves the data area alone. So what a tagged
message says when it is put on a queue is what it says when it comes off the last of the queues on
its way, provided that nobody wrote to it in between. A header that somebody made up states whatever
it states, but never leads out of the payload.
-/

namespace Rtos

def Payload.slice? (payload : Payload) (start stop : Nat) : Option (List UInt8) :=
  if start ≤ stop ∧ stop ≤ payload.length then some ((payload.take stop).drop start) else none

namespace TaggedMessage

def Spells (m : TaggedMessage) (i : Nat) (n : UInt16) : Prop :=
  ∃ low high, m.message.payload[i]? = some low ∧ m.message.payload[i + 1]? = some high ∧
    n.toNat = low.toNat + 256 * high.toNat

/-- The header and the valid data are bytes of the payload, whatever the header states. -/
structure Legible (m : TaggedMessage) : Prop where
  code : m.Spells 0 m.code
  length : m.Spells 2 m.length
  data : m.message.payload.slice? tagBytes (tagBytes + min m.length.toNat m.capacity) = some m.data
  size : m.data.length = min m.length.toNat m.capacity

theorem toNat_pair (low high : UInt8) : (pair low high).toNat = low.toNat + 256 * high.toNat := by
  have shifted : high.toUInt16.toNat <<< ((8 : UInt16).toNat % 16) % 2 ^ 16 = high.toNat <<< 8 := by
    have bound := high.toNat_lt
    rw [show (8 : UInt16).toNat % 16 = 8 from rfl, UInt8.toNat_toUInt16, Nat.shiftLeft_eq]
    omega
  rw [pair, UInt16.toNat_or, UInt16.toNat_shiftLeft, shifted, UInt8.toNat_toUInt16, Nat.or_comm,
    ← Nat.shiftLeft_add_eq_or_of_lt low.toNat_lt, Nat.shiftLeft_eq]
  omega

theorem pair_bytes (n : UInt16) : pair n.toUInt8 (n >>> 8).toUInt8 = n := by
  have bound := n.toNat_lt
  have high : (n >>> 8).toNat = n.toNat / 256 := by
    rw [UInt16.toNat_shiftRight, show (8 : UInt16).toNat % 16 = 8 from rfl,
      Nat.shiftRight_eq_div_pow]
  apply UInt16.toNat_inj.1
  rw [toNat_pair, show n.toUInt8.toNat = n.toNat % 256 from rfl,
    show (n >>> 8).toUInt8.toNat = (n >>> 8).toNat % 256 from rfl, high]
  omega

section

variable {m : TaggedMessage} {code length : UInt16}

theorem spells_pair {i : Nat} (known : i + 1 < m.message.payload.length) :
    m.Spells i (pair (m.message.payload.getD i 0) (m.message.payload.getD (i + 1) 0)) := by
  have low := List.getElem?_eq_getElem (Nat.lt_of_succ_lt known)
  have high := List.getElem?_eq_getElem known
  refine ⟨_, _, low, high, ?_⟩
  rw [toNat_pair, List.getD_eq_getElem?_getD, low, List.getD_eq_getElem?_getD, high]
  rfl

theorem length_area : m.area.length = m.capacity := List.length_drop

theorem legible (known : tagBytes ≤ m.message.payload.length) : m.Legible := by
  have header : tagBytes = 4 := rfl
  refine ⟨spells_pair (by omega), spells_pair (by omega), ?_, ?_⟩
  · have inside : tagBytes + min m.length.toNat m.capacity ≤ m.message.payload.length := by
      rw [capacity]
      omega
    rw [Payload.slice?, if_pos ⟨Nat.le_add_right _ _, inside⟩, List.drop_take,
      Nat.add_sub_cancel_left]
    rfl
  · rw [data, List.length_take, length_area]
    omega

theorem code_withHeader : (m.withHeader code length).code = code := pair_bytes code

theorem length_withHeader : (m.withHeader code length).length = length := pair_bytes length

theorem area_withHeader : (m.withHeader code length).area = m.area := rfl

theorem data_withHeader (fits : length.toNat ≤ m.capacity) :
    (m.withHeader code length).data = m.area.take length.toNat := by
  have room : (m.withHeader code length).capacity = m.capacity := by
    rw [← length_area, area_withHeader, length_area]
  rw [data, area_withHeader, length_withHeader, room, Nat.min_eq_left fits]

theorem length_payload_withHeader (known : tagBytes ≤ m.message.payload.length) :
    (m.withHeader code length).message.payload.length = m.message.payload.length := by
  have header : tagBytes = 4 := rfl
  have sum : (m.withHeader code length).message.payload.length = 4 + m.area.length := by
    simp only [withHeader, bytes, List.length_append, List.length_cons, List.length_nil]
  rw [sum, length_area, capacity]
  omega

theorem congr {t u : TaggedMessage} (same : t.message.payload = u.message.payload) :
    t.code = u.code ∧ t.length = u.length ∧ t.area = u.area ∧ t.data = u.data := by
  have area : t.area = u.area := by rw [TaggedMessage.area, same]; rfl
  have length : t.length = u.length := by rw [TaggedMessage.length, same]; rfl
  refine ⟨?_, length, area, ?_⟩
  · rw [TaggedMessage.code, same]
    rfl
  · rw [TaggedMessage.data, TaggedMessage.data, area, length, capacity, capacity, same]

end

end TaggedMessage

theorem KernelCall.length_of_stamps {α : Type} {call : KernelCall α} {m : TaggedMessage}
    {length : UInt16} {q : QueueId} {x : Message}
    (stamps : call.stamps = some (m, length)) (hands : call.Hands q x)
    (known : tagBytes ≤ m.message.payload.length) :
    x.payload.length = m.message.payload.length := by
  cases call <;> cases stamps
  obtain ⟨rfl, rfl⟩ := hands
  exact TaggedMessage.length_payload_withHeader known

theorem Call.length_of_fresh {q : QueueId} {first : MessageId} {shape : PoolShape} {m : Message}
    (h : m ∈ freshMessages q first shape (blankStorage shape)) : m.payload.length = shape.size := by
  obtain ⟨i, hi⟩ := List.mem_iff_getElem?.1 h
  obtain ⟨known, rfl⟩ := PoolShape.getElem?_freshMessages hi
  exact Payload.length_piece List.length_replicate known

theorem Kernel.Moves.of_made {o : Outcome} {k k' : Kernel} (moves : k.Moves o k') {m : Message}
    (hm : m ∈ o.made) : k.slots.length ≤ m.id.index ∧
      k'.label m.id = some (m.home, none, none) ∧ ∀ x ∈ o.arrivals, x ∈ o.made := by
  cases moves with
  | still _ _ made => rw [made] at hm; cases hm
  | puts _ _ _ _ made => rw [made] at hm; cases hm
  | takes _ _ _ _ made => rw [made] at hm; cases hm
  | pools q shape put taken made labels lists =>
    refine ⟨?_, ?_, fun x hx => Outcome.arrivals_of_none taken ▸ hx⟩
    all_goals
      rw [made] at hm
      obtain ⟨low, high⟩ := Call.mem_ids_freshMessages.1 (List.mem_map_of_mem hm)
    · exact low
    · rw [labels, if_neg (Nat.not_lt_of_le low), if_pos high, Call.home_of_fresh hm]

theorem Permits.length_of_made {who : Caller} {α β : Type} {call : KernelCall α} {k : Kernel}
    {ph : Phase} {a : Action β} {b : β} {m : Message} (h : Permits who call k ph a)
    (hm : m ∈ Outcome.made ⟨a, b⟩) : call.slotSize = some m.payload.length := by
  cases a with
  | addPool q shape =>
    cases b with
    | none => cases hm
    | some first => exact Call.length_of_fresh hm ▸ h.sizes shape rfl
  | _ => cases hm

theorem System.Bears.of_made {s s' : System} {p : Record} {α : Type} {call : KernelCall α} {n : Nat}
    {m : Message} (contract : s.InContract) (accounts : s.Accounts) (hs : System.Step s s')
    (log : s'.log = p :: s.log) (caller : p.call = some ⟨α, call⟩) (size : call.slotSize = some n)
    (hm : m ∈ p.outcome.made) : s'.Bears m.id (·.length = n) := by
  obtain ⟨β, a, b, later, earlier, next, ph, c', calls, may, result, outcome, rfl⟩ :=
    hs.of_call log caller
  obtain ⟨c, _, held, lost, older⟩ := s
  obtain rfl : _ = later ++ _ :: earlier := calls
  rw [outcome] at hm
  have permits := contract.permits may
  obtain ⟨-, moves⟩ := (Action.moveStep result).moves accounts.guarded.order
  obtain ⟨new, label, arrives⟩ := moves.of_made hm
  -- Nobody can have had a message of the pool before.
  have strange (x : Message) (hx : x ∈ System.holders
      ⟨c, later ++ ⟨p.caller, call, .ask (.act a) next, ph⟩ :: earlier, held, lost, older⟩) :
      x.id ≠ m.id := fun he =>
    Nat.not_lt_of_le new (he ▸ Kernel.lt_of_label (accounts.guarded.label hx))
  have rest (x : Message) (hx : x ∈ (later ++ earlier).flatMap (·.phase.cargo) ++ held) :
      x.id ≠ m.id := strange x (holders_middle.symm.mem_iff.1 (List.mem_append_right _ hx))
  refine ⟨⟨m.home, by rw [Kernel.homeOf, label]; rfl⟩, fun _ _ _ full => ?_, fun x hx he => ?_,
    fun o ho stamps has => ?_⟩
  · simp [label] at full
  · rcases List.mem_append.1 (holders_middle.mem_iff.1 hx) with hx | hx
    · rcases (Phase.cargo_after moves permits.holds).2 x hx with hx | hx
      · exact (strange x (holders_middle.symm.mem_iff.1 (List.mem_append_left _ hx)) he).elim
      · exact Option.some.inj ((permits.length_of_made (arrives x hx)).symm.trans size)
    · exact (rest x hx he).elim
  · obtain ⟨x, hx, he⟩ := has
    rcases mem_middle.1 ho with ho | rfl
    · exact (rest x (List.mem_append_left _ (List.mem_flatMap.2 ⟨o, ho, hx⟩)) he).elim
    · have none := (KernelCall.idle_of_stamps stamps).2.symm.trans size
      cases none

/-- All slots that are large enough for a header keep the size for which their pool was made. -/
def System.Sized (s : System) : Prop :=
  ∀ p ∈ s.log, ∀ (α : Type) (call : KernelCall α) (n : Nat), p.call = some ⟨α, call⟩ →
    call.slotSize = some n → tagBytes ≤ n → ∀ m ∈ p.outcome.made, s.Bears m.id (·.length = n)

theorem Reachable.sized {s : System} (h : Reachable s) : s.Sized := by
  induction h with
  | boot clock => exact fun _ h => nomatch h
  | @step s s' hr hs ih =>
    have heeded (id : MessageId) {n : Nat} (fits : tagBytes ≤ n) :
        System.Bears.Heeded s s' id (·.length = n) := by
      refine ⟨fun m _ m' _ _ _ same h => same.trans h, fun o _ m length stamps _ h q x hands => ?_⟩
      exact (KernelCall.length_of_stamps stamps hands (h ▸ fits)).trans h
    have keeps (p : Record) (hp : p ∈ s.log) : ∀ (α : Type) (call : KernelCall α) (n : Nat),
        p.call = some ⟨α, call⟩ → call.slotSize = some n → tagBytes ≤ n →
          ∀ m ∈ p.outcome.made, s'.Bears m.id (·.length = n) :=
      fun α call n caller size fits m hm =>
        (ih p hp α call n caller size fits m hm).step hr.inContract hr.accounts hs
          (heeded m.id fits)
    rcases hs.acts with ⟨-, log⟩ | ⟨p, c', -, -, log⟩
    · exact fun p hp => keeps p (log ▸ hp)
    · intro p' hp'
      rcases List.mem_cons.1 (log ▸ hp') with rfl | hp'
      · exact fun α call n caller size fits m hm =>
          .of_made hr.inContract hr.accounts hs log caller size hm
      · exact keeps p' hp'

theorem Outcome.taken_of_missed {o : Outcome} (h : o.Missed) : o.taken = none := by
  obtain ⟨a, b⟩ := o
  cases a with
  | dequeue q =>
    obtain rfl : b = none := h
    rfl
  | _ => exact h.elim

section

variable {s : System} {who : Caller} {q source : QueueId} {n : Int32}
  {rest : Program Unit (Option TaggedMessage)} {ph : Phase} {m : Message}

/-- Once a message with a header was taken, all that is left to do is to return it. -/
theorem Reachable.not_faultsIn_of_taken (h : Reachable s)
    (mem : ⟨who, .receiveTagged q n, rest, ph⟩ ∈ s.calls)
    (taken : ph.last.bind Outcome.taken = some (source, m)) (fits : tagBytes ≤ m.payload.length)
    (f : Fault) : ¬ s.FaultsIn ⟨who, .receiveTagged q n, rest, ph⟩ f := by
  obtain ⟨trail, came⟩ := h.came _ mem
  have last : ph.last = trail.head?.map Passage.outcome := came.last
  obtain ⟨p, latest, took⟩ : ∃ p, trail.head? = some p ∧ p.taken = some (source, m) := by
    rw [last] at taken
    obtain ⟨o, ho, took⟩ := Option.bind_eq_some_iff.1 taken
    obtain ⟨p, latest, rfl⟩ := Option.map_eq_some_iff.1 ho
    exact ⟨p, latest, took⟩
  rintro ⟨later, earlier, -, -, ⟨β, next, ask⟩ | ⟨β, a, next, c, ask, -⟩⟩
  · rcases came.meets ask rfl with rfl | ⟨rfl, x, ⟨p', source', latest', took'⟩, short⟩
    · have keeps := (h.inContract.sound _ mem).keeps
      rw [ask] at keeps
      obtain ⟨-, o, ho, missed⟩ := keeps trivial
      rw [show ph.last = some o from ho] at taken
      exact nomatch (Outcome.taken_of_missed missed).symm.trans taken
    · obtain rfl := Option.some.inj (latest.symm.trans latest')
      obtain rfl : m = x := (Prod.mk.inj (Option.some.inj (took.symm.trans took'))).2
      exact Nat.not_lt_of_le fits short
  · have none := (came.heeds ask rfl).lacks p (List.mem_of_mem_head? latest)
    exact nomatch none.symm.trans took

theorem Reachable.returns_taken (h : Reachable s)
    (mem : ⟨who, .receiveTagged q n, rest, ph⟩ ∈ s.calls)
    (taken : ph.last.bind Outcome.taken = some (source, m)) {r : Option TaggedMessage}
    (done : rest = .done r) : r = some ⟨m⟩ := by
  have cargo : ph.cargo = KernelCall.gives (.receiveTagged q n) r :=
    h.conserves.1.gives _ mem r done
  have mine : m ∈ ph.cargo := h.cargo_of_taken _ mem source m taken
  rw [cargo] at mine
  cases r with
  | none => cases mine
  | some t =>
    obtain rfl := List.mem_singleton.1 mine
    rfl

end

namespace System

variable (s : System)

/-- Slots of a pool for tagged messages have room for the size that was asked for, rounded up to a
multiple of four, wherever their messages are. -/
def SizesTags : Prop :=
  ∀ p ∈ s.log, ∀ name kind count size,
    p.call = some ⟨_, .createTaggedPool name kind count size⟩ →
    ∀ made ∈ p.outcome.made, ∀ m, s.Has m → m.id = made.id →
      tagBytes ≤ m.payload.length ∧ TaggedMessage.capacity ⟨m⟩ = (size + 3) / 4 * 4

/-- A call has just put a tagged message on a queue. Over whichever queues it goes then, a call that
takes it as a tagged one returns what the first call was given, provided that nobody wrote to it. -/
def RelaysTags : Prop :=
  ∀ s₁ p q m code length, System.Step s s₁ → s₁.log = p :: s.log →
    p.call = some ⟨_, .putTagged q m code length⟩ → p.outcome.put ≠ none →
    tagBytes ≤ m.message.payload.length → length.toNat ≤ m.capacity →
    ∀ s₂, Relation.ReflTransGen (Carries m.message.id) s₁ s₂ → ∀ who source n rest ph,
      ⟨who, .receiveTagged source n, rest, ph⟩ ∈ s₂.calls →
      ∀ q' m', ph.last.bind Outcome.taken = some (q', m') → m'.id = m.message.id →
        (∀ f, ¬ s₂.FaultsIn ⟨who, .receiveTagged source n, rest, ph⟩ f) ∧
        ∀ r, rest = .done r → ∃ t, r = some t ∧ t.message.id = m.message.id ∧ t.code = code ∧
          t.length = length ∧ t.data = m.area.take length.toNat ∧ t.area = m.area

variable {s}

theorem Step.label_of_stamped {s₁ : System} {p : Record} {q : QueueId} {m : TaggedMessage}
    {code length : UInt16} (reachable : Reachable s) (step : System.Step s s₁)
    (log : s₁.log = p :: s.log) (caller : p.call = some ⟨_, .putTagged q m code length⟩)
    (put : p.outcome.put ≠ none) : ∃ home q', s₁.core.kernel.label m.message.id =
      some (home, some q', some (m.withHeader code length).message.payload) := by
  obtain ⟨β, a, b, later, earlier, next, ph, c', calls, may, result, outcome, rfl⟩ :=
    step.of_call log caller
  obtain ⟨c, _, held, lost, log⟩ := s
  obtain rfl : _ = later ++ _ :: earlier := calls
  rw [outcome] at put
  have permits := reachable.inContract.permits may
  cases ((Action.moveStep result).moves reachable.accounts.guarded.order).2 with
  | still none => exact (put none).elim
  | pools _ _ none => exact (put none).elim
  | takes _ _ none => exact (put none).elim
  | puts q' x puts _ _ _ labels _ =>
    obtain ⟨-, rfl⟩ := permits.hands q' x puts
    exact ⟨_, q', (labels _).trans (if_pos rfl)⟩

theorem relays (reachable : Reachable s) : s.RelaysTags := by
  intro s₁ p q m code length step log caller put known fits s₂ run who source n rest ph mem q' m'
    taken he
  have reachable₁ := reachable.step step
  obtain ⟨home, q₁, label⟩ := step.label_of_stamped reachable log caller put
  have bears : s₁.Bears m.message.id (· = (m.withHeader code length).message.payload) :=
    .of_queued reachable₁.accounts label rfl
  obtain ⟨reachable₂, bears⟩ := bears.carried reachable₁ run
  have cargo := reachable₂.cargo_of_taken _ mem q' m' taken
  have same : m'.payload = (m.withHeader code length).message.payload :=
    bears.held m' (List.mem_append_left _ (List.mem_flatMap.2 ⟨_, mem, cargo⟩)) he
  have header : tagBytes ≤ m'.payload.length := by
    rw [same, TaggedMessage.length_payload_withHeader known]
    exact known
  refine ⟨reachable₂.not_faultsIn_of_taken mem taken header, fun r done => ?_⟩
  obtain ⟨codes, lengths, areas, datas⟩ :=
    TaggedMessage.congr (t := ⟨m'⟩) (u := m.withHeader code length) same
  exact ⟨⟨m'⟩, reachable₂.returns_taken mem taken done, he,
    codes.trans TaggedMessage.code_withHeader, lengths.trans TaggedMessage.length_withHeader,
    datas.trans (TaggedMessage.data_withHeader fits), areas⟩

theorem sizesTags (reachable : Reachable s) : s.SizesTags := by
  intro p hp name kind count size caller made hmade m has he
  have known : tagBytes ≤ Call.roundUp (size + tagBytes) := by
    simp only [tagBytes, Call.roundUp, Limits.slotAlignment]
    omega
  have bears := reachable.sized p hp _ _ _ caller rfl known made hmade
  have length := bears.payload reachable.accounts.guarded.order has he
  refine ⟨known.trans (Nat.le_of_eq length.symm), ?_⟩
  rw [TaggedMessage.capacity, length]
  simp only [tagBytes, Call.roundUp, Limits.slotAlignment]
  omega

end System

/-- What is put on a queue as a tagged message comes off as one, and a header that somebody made up
does no harm. -/
theorem Reachable.relaysTags {s : System} (h : Reachable s) :
    (∀ m : TaggedMessage, tagBytes ≤ m.message.payload.length → m.Legible) ∧ s.SizesTags ∧
      s.RelaysTags ∧ ∀ q (m : TaggedMessage) code length, length.toNat ≤ m.capacity →
        (KernelCall.putTagged q m code length).program =
          Call.put q (m.withHeader code length).message :=
  ⟨fun _ => TaggedMessage.legible, System.sizesTags h, System.relays h,
    fun _ _ _ _ fits => if_pos fits⟩

namespace System

/-- What `Carries` asks of a step, as far as it can be computed. -/
def leavesAlone (id : MessageId) (s s' : System) : Bool :=
  (s.held.all fun m => s'.held.all fun m' => m.id ≠ id ∨ m'.id ≠ id ∨ m'.payload = m.payload) &&
    (s'.calls.length ≤ s.calls.length ∨ s'.calls.all fun o =>
      o.call.stamps.all fun x => x.1.message.id ≠ id)

def leaveAlone (id : MessageId) : System → List Move → Bool
  | _, [] => true
  | s, move :: moves => leavesAlone id s (s.after move) && leaveAlone id (s.after move) moves

variable {s s' : System} {id : MessageId}

theorem Carries.of_leavesAlone (step : System.Step s s') (alone : leavesAlone id s s') :
    Carries id s s' := by
  simp only [leavesAlone, Bool.and_eq_true, List.all_eq_true, decide_eq_true_eq, Bool.decide_or,
    Bool.or_eq_true, ne_eq, decide_not, Bool.not_eq_true', decide_eq_false_iff_not] at alone
  obtain ⟨held, calls⟩ := alone
  refine ⟨step, fun m hm m' hm' he he' => ?_, fun o new m length stamps he => ?_⟩
  · exact ((held m hm m' hm').resolve_left fun h => h he).resolve_left fun h => h he'
  · rw [new] at calls
    rcases calls with short | calls
    · exact Nat.not_succ_le_self _ short
    · have other := calls o List.mem_cons_self
      rw [stamps] at other
      simp [he] at other

theorem Carries.script (moves : List Move) (alone : leaveAlone id s moves) :
    Relation.ReflTransGen (Carries id) s (moves.foldl after s) := by
  induction moves generalizing s with
  | nil => exact .refl
  | cons move moves ih =>
    obtain ⟨now, later⟩ := Bool.and_eq_true_iff.1 alone
    rcases s.after_step move with same | step
    · rw [List.foldl_cons, same]
      exact ih (same ▸ later)
    · exact .head (.of_leavesAlone step now) (ih later)

end System

def KernelCall.tagging {α : Type} : KernelCall α → Option (QueueId × Message × UInt16 × UInt16)
  | putTagged q m code length => some (q, m.message, code, length)
  | _ => none

def OpenCall.returning : OpenCall → Option Message
  | ⟨_, .receiveTagged _ _, .done _, ph⟩ => (ph.last.bind Outcome.taken).map Prod.snd
  | _ => none

theorem KernelCall.eq_of_tagging {call : Sigma KernelCall} {q : QueueId} {m : Message}
    {code length : UInt16} (h : call.2.tagging = some (q, m, code, length)) :
    call = ⟨_, .putTagged q ⟨m⟩ code length⟩ := by
  obtain ⟨α, call⟩ := call
  cases call <;> cases h
  rfl

theorem OpenCall.eq_of_returning {o : OpenCall} {m : Message} (h : o.returning = some m) :
    ∃ who q n r ph q', o = ⟨who, .receiveTagged q n, .done r, ph⟩ ∧
      ph.last.bind Outcome.taken = some (q', m) := by
  obtain ⟨who, call, rest, ph⟩ := o
  cases call <;> try cases h
  case receiveTagged q n =>
    cases rest with
    | done r =>
      obtain ⟨⟨q', _⟩, taken, rfl⟩ := Option.map_eq_some_iff.1 h
      exact ⟨who, q, n, r, ph, q', rfl, taken⟩
    | _ => cases h

namespace Script

def stamps : List Move :=
  .begins (.thread none) (.createTaggedPool "ops" .task 1 4) :: goesOn 23 ++
    .begins (.thread none) (.createQueue "wire" .task) :: goesOn 12 ++
    .begins (.thread none) (.createQueue "spare" .driver) :: goesOn 8 ++
    .begins (.thread none) (.receiveTagged ⟨0⟩ 0) :: goesOn 11 ++
    [.writes [0, 0, 0, 0, 104, 105, 0, 9], .putsTagged (.thread none) ⟨1⟩ 263 2, .goesOn 0]

/-- A tagged message goes on from its queue to a driver queue as a plain message, and comes off there
as a tagged one. -/
def forwards : List Move :=
  goesOn 2 ++ .begins (.thread none) (.receive ⟨1⟩ 0) :: goesOn 11 ++
    .puts (.thread none) ⟨2⟩ :: goesOn 4 ++
    .begins (.thread none) (.receiveTagged ⟨2⟩ 0) :: goesOn 6

end Script

open Rtos.System Script in
/-- Two bytes of data arrive, and the others of the area with them. -/
theorem relaysTags_twoQueues : ∃ s s₁ s₂ : System, Reachable s ∧ System.Step s s₁ ∧
    Relation.ReflTransGen (Carries ⟨0⟩) s₁ s₂ ∧ ∃ who q n ph, ∃ t : TaggedMessage,
      ⟨who, .receiveTagged q n, .done (some t), ph⟩ ∈ s₂.calls ∧ t.code = 263 ∧ t.length = 2 ∧
        t.data = [104, 105] ∧ t.area = [104, 105, 0, 9] := by
  let s := run stamps
  let s₁ := s.after (.goesOn 0)
  let m : Message := ⟨⟨0⟩, ⟨0⟩, [0, 0, 0, 0, 104, 105, 0, 9]⟩
  have reachable : Reachable s := reachable_run stamps
  have longer : s.log.length < s₁.log.length := by decide +kernel
  have step := (s.after_step (.goesOn 0)).resolve_left fun same =>
    Nat.ne_of_lt longer (congrArg (·.log.length) same).symm
  obtain ⟨p, log⟩ : ∃ p, s₁.log = p :: s.log := by
    rcases step.acts with ⟨-, same⟩ | ⟨p, -, -, -, log⟩
    · exact (Nat.ne_of_lt longer (congrArg List.length same).symm).elim
    · exact ⟨p, log⟩
  have head : s₁.log.head? = some p := by rw [log, List.head?_cons]
  have tagging : s₁.log.head?.bind (fun p => p.call.bind fun call => call.2.tagging) =
      some (⟨1⟩, m, 263, 2) := by decide +kernel
  have put : s₁.log.head?.bind (fun p => p.outcome.put.map Prod.fst) = some ⟨1⟩ := by
    decide +kernel
  have alone : leaveAlone ⟨0⟩ s₁ forwards := by decide +kernel
  have returning : (forwards.foldl after s₁).calls.map OpenCall.returning =
      [some ⟨⟨0⟩, ⟨0⟩, [7, 1, 2, 0, 104, 105, 0, 9]⟩] := by decide +kernel
  rw [head, Option.bind_some] at tagging put
  obtain ⟨call, caller, tagging⟩ := Option.bind_eq_some_iff.1 tagging
  rw [KernelCall.eq_of_tagging tagging] at caller
  have puts : p.outcome.put ≠ none := fun none => by
    rw [none] at put
    cases put
  obtain ⟨o, calls, last⟩ := List.map_eq_singleton_iff.1 returning
  obtain ⟨who, q, n, r, ph, q', rfl, taken⟩ := OpenCall.eq_of_returning last
  have run := Carries.script forwards alone
  have mem : ⟨who, .receiveTagged q n, .done r, ph⟩ ∈ (forwards.foldl after s₁).calls :=
    calls ▸ List.mem_singleton.2 rfl
  obtain ⟨-, returns⟩ := reachable.relaysTags.2.2.1 s₁ p ⟨1⟩ ⟨m⟩ 263 2 step log caller puts
    (by decide) (by decide) _ run who q n _ ph mem q' _ taken rfl
  obtain ⟨t, rfl, -, code, length, data, area⟩ := returns r rfl
  exact ⟨s, s₁, _, reachable, step, run, who, q, n, ph, t, mem, code, length, data, area⟩

end Rtos
