import Rtos.Proofs.PlantTurn

/-!
# The shape of buffers

All buffers have the size of their slots, and those at work say in their headers that a reading is in
them. So no part reads past the end of one, and what it reads is what the sampler wrote.
-/

namespace Rtos

open Pipeline

/-- What a section of a call does to the queues and to the buffers that the call holds. -/
inductive Haul (k k' : Kernel) {α : Type} (call : KernelCall α) (o : Outcome) :
    List Message → List Message → Prop
  | still (cargo : List Message) (same : ∀ q, k'.parked q = k.parked q) (came : o.put = none)
      (went : o.taken = none) : Haul k k' call o cargo cargo
  | takes (q : QueueId) (m : Message) (source : call.source = some q)
      (took : k.parked q = m :: k'.parked q) (others : ∀ q' ≠ q, k'.parked q' = k.parked q')
      (came : o.put = none) (went : o.taken = some (q, m)) : Haul k k' call o [] [m]
  | puts (q : QueueId) (m m' : Message) (takes : call.takes = [m]) (hands : call.Hands q m')
      (put : k'.parked q = k.parked q ++ [m']) (others : ∀ q' ≠ q, k'.parked q' = k.parked q')
      (came : o.put = some (q, m')) (went : o.taken = none) : Haul k k' call o [m] []

namespace Scene

variable {s : Scene} {β γ : Type}

theorem Tidy.haul (h : s.Tidy) {me : TaskId} {ph : Phase} {call : KernelCall β} {a : Action γ} {b : γ}
    {c : Core} (may : call.May me ph a) (result : a.toSection s.core = .ok b c) :
    Haul s.core.kernel c.kernel call ⟨a, b⟩ ph.cargo (ph.after ⟨a, b⟩).cargo := by
  obtain ⟨order', moves⟩ := (Action.moveStep result).moves h.order
  have balance (q : QueueId) := moves.parked h.order order' q
  have still (puts : Outcome.put ⟨a, b⟩ = none) (taken : Outcome.taken ⟨a, b⟩ = none)
      (cargo : (ph.after ⟨a, b⟩).cargo = ph.cargo) :
      Haul s.core.kernel c.kernel call ⟨a, b⟩ ph.cargo (ph.after ⟨a, b⟩).cargo := by
    rw [cargo]
    refine .still _ (fun q => ?_) puts taken
    have balance := balance q
    rw [Outcome.putOn_of_none puts, Outcome.takenFrom_of_none taken, List.append_nil] at balance
    exact balance.symm
  have takes {q : QueueId} {m : Message} (puts : Outcome.put ⟨a, b⟩ = none)
      (taken : Outcome.taken ⟨a, b⟩ = some (q, m)) (source : call.source = some q) :
      Haul s.core.kernel c.kernel call ⟨a, b⟩ [] [m] := by
    refine .takes q m source ?_ (fun q' other => ?_) puts taken
    · have balance := balance q
      rwa [Outcome.putOn_of_none puts, Outcome.takenFrom_of_some taken, if_pos rfl, List.append_nil]
        at balance
    · have balance := balance q'
      rw [Outcome.putOn_of_none puts, Outcome.takenFrom_of_some taken, if_neg (Ne.symm other),
        List.append_nil] at balance
      exact balance.symm
  have puts {q : QueueId} {m m' : Message} (puts : Outcome.put ⟨a, b⟩ = some (q, m'))
      (taken : Outcome.taken ⟨a, b⟩ = none) (takes : call.takes = [m]) (hands : call.Hands q m') :
      Haul s.core.kernel c.kernel call ⟨a, b⟩ [m] [] := by
    refine .puts q m m' takes hands ?_ (fun q' other => ?_) puts taken
    · have balance := balance q
      rw [Outcome.putOn_of_some puts, Outcome.takenFrom_of_none taken, if_pos rfl] at balance
      exact balance.symm
    · have balance := balance q'
      rw [Outcome.putOn_of_some puts, Outcome.takenFrom_of_none taken, if_neg (Ne.symm other),
        List.append_nil] at balance
      exact balance.symm
  cases may with
  | takes q n _ empty =>
    cases b with
    | none => exact still rfl rfl rfl
    | some m =>
      have cargo : (ph.after ⟨.dequeue q, some m⟩).cargo = [m] := congrArg (m :: ·) empty
      rw [empty, cargo]
      exact takes rfl rfl rfl
  | polls n _ empty =>
    cases b with
    | none => exact still rfl rfl rfl
    | some m =>
      have cargo : (ph.after ⟨.pollDriver objects.transmit, some m⟩).cargo = [m] :=
        congrArg (m :: ·) empty
      rw [empty, cargo]
      exact takes rfl rfl rfl
  | puts q m code length =>
    rw [@Obeys.cargo_of_put q m.message (m.withHeader code length).message rfl b]
    exact puts rfl rfl rfl ⟨rfl, rfl⟩
  | givesBack m =>
    rw [@Obeys.cargo_of_put m.message.home m.message m.message rfl b]
    exact puts rfl rfl rfl ⟨rfl, rfl⟩
  | _ => exact still rfl rfl rfl

theorem Tidy.still (h : s.Tidy) {a : Action γ} {b : γ} {c : Core} (port : a.interrupts)
    (result : a.toSection s.core = .ok b c) (q : QueueId) :
    c.kernel.parked q = s.core.kernel.parked q := by
  obtain ⟨order', moves⟩ := (Action.moveStep result).moves h.order
  have balance := moves.parked h.order order' q
  cases a with
  | tick =>
    rw [Outcome.putOn_of_none rfl, Outcome.takenFrom_of_none rfl, List.append_nil] at balance
    exact balance.symm
  | switch =>
    rw [Outcome.putOn_of_none rfl, Outcome.takenFrom_of_none rfl, List.append_nil] at balance
    exact balance.symm
  | _ => cases port

end Scene

theorem wordOfBytes_cons {b : UInt8} {bs : List UInt8} {n : Nat} (rest : (wordOfBytes bs).toNat = n)
    (small : n < 16777216) : (wordOfBytes (b :: bs)).toNat = b.toNat + 256 * n := by
  have cons : wordOfBytes (b :: bs) = b.toUInt32 ||| (wordOfBytes bs <<< 8) := rfl
  have shifted : n <<< ((8 : UInt32).toNat % 32) % 2 ^ 32 = n <<< 8 := by
    rw [show (8 : UInt32).toNat % 32 = 8 from rfl, Nat.shiftLeft_eq]
    omega
  rw [cons, UInt32.toNat_or, UInt32.toNat_shiftLeft, rest, UInt8.toNat_toUInt32, shifted, Nat.or_comm,
    ← Nat.shiftLeft_add_eq_or_of_lt b.toNat_lt, Nat.shiftLeft_eq]
  omega

theorem wordOfBytes_wordBytes (r : UInt32) : wordOfBytes (wordBytes r) = r := by
  have byte (i : UInt32) : ((r >>> i).toUInt8).toNat = (r >>> i).toNat % 256 := rfl
  have bound := r.toNat_lt
  have shift (i : UInt32) (hi : i.toNat % 32 = i.toNat) :
      (r >>> i).toNat = r.toNat / 2 ^ i.toNat := by
    rw [UInt32.toNat_shiftRight, hi, Nat.shiftRight_eq_div_pow]
  have third := @wordOfBytes_cons (r >>> 24).toUInt8 [] 0 rfl (by decide)
  have second := wordOfBytes_cons (b := (r >>> 16).toUInt8) third (by rw [byte]; omega)
  have first := wordOfBytes_cons (b := (r >>> 8).toUInt8) second (by simp only [byte]; omega)
  have word := wordOfBytes_cons (b := r.toUInt8) first (by simp only [byte]; omega)
  apply UInt32.toNat_inj.1
  rw [wordBytes, word, byte, byte, byte, shift 24 rfl, shift 16 rfl, shift 8 rfl,
    show r.toUInt8.toNat = r.toNat % 256 from rfl]
  simp only [UInt32.reduceToNat]
  omega

def Message.Fits (m : Message) : Prop := m.payload.length = 20

/-- Whether the header says that a reading is in the area. -/
def Message.IsFilled (m : Message) : Prop := TaggedMessage.length ⟨m⟩ = 4

namespace TaggedMessage

variable {m : TaggedMessage} {code length : UInt16} {area : List UInt8}

theorem fits_withHeader (fits : m.message.Fits) : (m.withHeader code length).message.Fits := by
  simp only [Message.Fits, withHeader, bytes, TaggedMessage.area, List.length_append, List.length_cons,
    List.length_nil, List.length_drop, tagBytes] at fits ⊢
  omega

theorem isFilled_withHeader : (m.withHeader code 4).message.IsFilled := by
  change pair (4 : UInt16).toUInt8 ((4 : UInt16) >>> 8).toUInt8 = 4
  decide

theorem sample_withArea (fits : m.message.Fits) :
    (m.withArea area).message.sample = ⟨m.message.id, wordOfBytes (area.take 4)⟩ := by
  have head : (m.message.payload.take tagBytes).length = tagBytes := by
    rw [List.length_take, fits]
    rfl
  rw [Message.sample, withArea, List.drop_left' head]

end TaggedMessage

namespace Spot

variable {reading : UInt32} {m : TaggedMessage}

/-- What a part knows of the buffer in its hands. No part meets a fault as it fills or reads one. -/
def Sound : Spot → Prop
  | fills reading m => m.message.sample = ⟨m.message.id, reading⟩
  | enters m value | adds m value => m.message.sample.value = value
  | failsToFill .. | failsToRead .. => False
  | _ => True

theorem sound_filled (fits : m.message.Fits) : (filled reading m).Sound := by
  have room : ¬ m.area.length < 4 := by
    rw [TaggedMessage.area, List.length_drop, fits]
    decide
  rw [filled, firstBytes, if_neg room]
  refine (TaggedMessage.sample_withArea fits).trans ?_
  rw [Payload.overwrite]
  exact congrArg (Sample.mk m.message.id) (wordOfBytes_wordBytes reading)

theorem sound_read (fits : m.message.Fits) (isFilled : m.message.IsFilled) : (read m).Sound := by
  have valid : m.data = m.area.take 4 := by
    have length : m.length.toNat = 4 := congrArg UInt16.toNat isFilled
    rw [TaggedMessage.data, TaggedMessage.capacity, length, fits]
    rfl
  have room : ¬ m.data.length < 4 := by
    rw [valid, List.length_take, TaggedMessage.area, List.length_drop, fits]
    decide
  rw [read, firstBytes, if_neg room, valid, List.take_take]
  rfl

end Spot

namespace Station

/-- The buffers in the hands of a part have the size of their slots, and the filter can read its own. -/
structure Shaped (station : Station) : Prop where
  fits : ∀ m ∈ station.hand, m.Fits
  filled : station.spot.part = .filter → ∀ m ∈ station.hand, m.IsFilled
  sound : station.spot.Sound

variable {x : Spot} {ph : Phase} {β : Type}

theorem shaped_of_empty {station : Station} (empty : station.hand = []) (sound : station.spot.Sound) :
    station.Shaped where
  fits m hm := by
    rw [empty] at hm
    cases hm
  filled _ m hm := by
    rw [empty] at hm
    cases hm
  sound := sound

theorem Shaped.goesOn {station station' : Station} (h : station.Shaped) (hand : station'.hand ⊆ station.hand)
    (part : station'.spot.part = station.spot.part) (sound : station'.spot.Sound) : station'.Shaped where
  fits m hm := h.fits m (hand hm)
  filled filter m hm := h.filled (part ▸ filter) m (hand hm)
  sound := sound

theorem Shaped.finishes (h : (calls x ph).Shaped) {call : KernelCall β} {next : β → Spot} {b : β}
    (does : x.deed objects = .call call next) (ends : call.Ends b ph) : (stands (next b)).Shaped := by
  have part := Spot.part_of_call does b
  have part' : (stands (next b)).spot.part = (calls x ph).spot.part := part
  cases x <;> cases does
  case asks reading =>
    cases b with
    | none => exact shaped_of_empty rfl trivial
    | some m =>
      have mine : m.message ∈ (calls (.asks reading) ph).hand := by
        rw [hand, ends.1]
        exact List.mem_singleton.2 rfl
      have fits := h.fits _ mine
      obtain ⟨payload, hand, size⟩ := Spot.hand_filled (nextReading reading) m
      refine ⟨fun m' hm => ?_, fun filter => ?_, Spot.sound_filled fits⟩
      · have hm : m' ∈ (Spot.filled (nextReading reading) m).hand := hm
        rw [hand, List.mem_singleton] at hm
        rw [hm]
        exact size.trans fits
      · exact nomatch part'.symm.trans filter
  case awaits =>
    cases b with
    | none => exact shaped_of_empty rfl trivial
    | some m =>
      have cargo : ph.cargo = [m.message] := ends.1
      have mine : m.message ∈ (calls .awaits ph).hand := by
        rw [hand, cargo]
        exact List.mem_singleton.2 rfl
      refine h.goesOn (fun m' hm => ?_) part' (Spot.sound_read (h.fits _ mine) (h.filled rfl _ mine))
      have hm : m' ∈ (Spot.read m).hand := hm
      rw [Spot.hand_read, List.mem_singleton] at hm
      exact hm ▸ mine
  case polls =>
    cases b with
    | none => exact shaped_of_empty rfl trivial
    | some m =>
      have cargo : ph.cargo = [m.message] := ends.1
      refine h.goesOn (fun m' hm => ?_) part' trivial
      rw [hand, cargo]
      exact hm
  case enters => exact h.goesOn (fun _ hm => List.mem_append_left _ hm) part' h.sound
  all_goals exact h.goesOn (fun _ hm => List.mem_append_left _ hm) part' trivial

end Station

namespace Spot

variable {x : Spot} {β : Type} {call : KernelCall β} {next : β → Spot} {q : QueueId} {m m' : Message}

theorem source_of_filter (does : x.deed objects = .call call next) (source : call.source = some q)
    (filter : x.part = .filter) : q = objects.work := by
  cases x <;> cases does <;> cases source
  case awaits => rfl
  all_goals cases filter

theorem shaped_of_hands (does : x.deed objects = .call call next) (takes : call.takes = [m])
    (hands : call.Hands q m') (fits : m.Fits) (home : m.home = objects.pool) :
    m'.Fits ∧ (q = objects.work → m'.IsFilled) ∧ m'.sample = m.sample := by
  cases x <;> cases does
  case fills =>
    cases takes
    obtain ⟨rfl, rfl⟩ := hands
    exact ⟨TaggedMessage.fits_withHeader fits, fun _ => TaggedMessage.isFilled_withHeader, rfl⟩
  case passes =>
    cases takes
    obtain ⟨rfl, rfl⟩ := hands
    exact ⟨TaggedMessage.fits_withHeader fits, nofun, rfl⟩
  case returns =>
    cases takes
    obtain ⟨rfl, rfl⟩ := hands
    exact ⟨fits, fun work => absurd (home.symm.trans work) (by decide), rfl⟩
  all_goals exact hands.elim

end Spot

namespace Scene

variable {s s' : Scene} {part : Part}

/-- All buffers have the size of their slots, and those at work can be read. -/
structure Shaped (s : Scene) : Prop where
  parked : ∀ q, ∀ m ∈ s.core.kernel.parked q, m.Fits
  work : ∀ m ∈ s.core.kernel.parked objects.work, m.IsFilled
  stations : ∀ part, (s.station part).Shaped

namespace Shaped

theorem goesOn (h : s.Shaped) {old station : Station} (here : s.station part = old)
    (hand : station.hand ⊆ old.hand) (in_ : station.spot.part = old.spot.part)
    (sound : station.spot.Sound) : ∀ other, ((s.setStation part station).station other).Shaped :=
  forall_setStation h.stations part ((here ▸ h.stations part).goesOn hand in_ sound)

theorem acts (h : s.Shaped) (tidy : s.Tidy) {x : Spot} {ph ph' : Phase} {β : Type}
    {call : KernelCall β} {next : β → Spot} {c : Core} (here : s.station part = .calls x ph)
    (does : x.deed objects = .call call next)
    {o : Outcome}
    (haul : Haul s.core.kernel c.kernel call o ph.cargo ph'.cargo) :
    Shaped { s.setStation part (.calls x ph') with core := c } := by
  have station : (Station.calls x ph).Shaped := here ▸ h.stations part
  generalize before : ph.cargo = cargo, after : ph'.cargo = cargo' at haul
  cases haul with
  | still _ same =>
    refine ⟨fun q => same q ▸ h.parked q, same _ ▸ h.work, h.goesOn here ?_ rfl station.sound⟩
    rw [Station.hand, Station.hand, before, after]
    exact List.Subset.refl _
  | takes q m source took others =>
    have fewer (q' : QueueId) : c.kernel.parked q' ⊆ s.core.kernel.parked q' := by
      by_cases same : q' = q
      · rw [same, took]
        exact List.subset_cons_self m _
      · rw [others q' same]
        exact List.Subset.refl _
    have mine : m ∈ s.core.kernel.parked q := took ▸ List.mem_cons_self
    refine ⟨fun q' m' hm => h.parked q' m' (fewer q' hm), fun m' hm => h.work m' (fewer _ hm),
      forall_setStation h.stations part (?_ : (Station.calls x ph').Shaped)⟩
    refine ⟨fun m' hm => ?_, fun filter m' hm => ?_, station.sound⟩
    · rw [Station.hand, after] at hm
      rcases List.mem_append.1 hm with hm | hm
      · exact station.fits m' (List.mem_append_left _ hm)
      · rw [List.mem_singleton.1 hm]
        exact h.parked q m mine
    · rw [Station.hand, after] at hm
      rcases List.mem_append.1 hm with hm | hm
      · exact station.filled filter m' (List.mem_append_left _ hm)
      · rw [List.mem_singleton.1 hm]
        exact h.work m (Spot.source_of_filter does source filter ▸ mine)
  | puts q m m' takes hands put others =>
    have mine : m ∈ (Station.calls x ph).hand := by
      rw [Station.hand, before]
      exact List.mem_append_right _ (List.mem_singleton.2 rfl)
    have home : m.home = objects.pool := tidy.homes part m (here ▸ mine)
    obtain ⟨fits, filled, -⟩ := Spot.shaped_of_hands does takes hands (station.fits m mine) home
    have more {q' : QueueId} {m'' : Message} (hm : m'' ∈ c.kernel.parked q') :
        m'' ∈ s.core.kernel.parked q' ∨ q = q' ∧ m'' = m' := by
      by_cases same : q' = q
      · rw [same, put] at hm
        rw [same]
        exact (List.mem_append.1 hm).imp_right fun hm => ⟨rfl, List.mem_singleton.1 hm⟩
      · rw [others q' same] at hm
        exact .inl hm
    refine ⟨fun q' m'' hm => ?_, fun m'' hm => ?_, h.goesOn here ?_ rfl station.sound⟩
    · rcases more hm with hm | ⟨-, rfl⟩
      · exact h.parked q' m'' hm
      · exact fits
    · rcases more hm with hm | ⟨work, rfl⟩
      · exact h.work m'' hm
      · exact filled work
    · rw [Station.hand, Station.hand, before, after, List.append_nil]
      exact List.subset_append_left _ _

theorem turn (h : s.Shaped) (tidy : s.Tidy) (turn : s.Turn s') : s'.Shaped := by
  cases turn with
  | rests c owes still keeps => exact ⟨still ▸ h.parked, still ▸ h.work, h.stations⟩
  | begins part x call next owes here does =>
    have station : (Station.stands x).Shaped := here ▸ h.stations part
    refine ⟨h.parked, h.work, h.goesOn here (fun m hm => ?_) rfl station.sound⟩
    have hand : (Station.stands x).hand = call.takes ++ x.keeps := Spot.hand_of_call does
    rw [hand]
    exact (List.mem_append.1 hm).elim (List.mem_append_right _) (List.mem_append_left _)
  | acts part x call next a b ph c owes here does may serves result =>
    have acts := h.acts tidy here does (tidy.haul may result)
    exact ⟨acts.parked, acts.work, acts.stations⟩
  | finishes part x call next b ph owes here does ends =>
    have station : (Station.calls x ph).Shaped := here ▸ h.stations part
    exact ⟨h.parked, h.work, forall_setStation h.stations part (station.finishes does ends)⟩
  | owns part x f next owes here does =>
    refine ⟨h.parked, h.work, h.goesOn here ?_ (Spot.part_of_own does _) ?_⟩
    · exact (List.Perm.of_eq (Spot.hand_of_own does _)).subset
    · cases x <;> cases does <;> trivial
  | notes part x n next owes here does =>
    refine ⟨h.parked, h.work, h.goesOn here ?_ (Spot.part_of_note does) ?_⟩
    · exact (List.Perm.of_eq (Spot.hand_of_note does)).subset
    · cases x <;> cases does
      trivial
  | kicks => exact ⟨h.parked, h.work, forall_setStation h.stations _ (Station.shaped_of_empty rfl trivial)⟩
  | hangsUp => exact ⟨h.parked, h.work, forall_setStation h.stations _ (Station.shaped_of_empty rfl trivial)⟩
  | interrupts a b c port result =>
    have still := tidy.still port result
    exact ⟨fun q => still q ▸ h.parked q, still _ ▸ h.work, h.stations⟩

end Shaped

end Scene

end Rtos
