import Rtos.Proofs.PlantFlow

/-!
# Samples in order

What was sampled was sent, or it is under way: on the transmit queue, with the filter, or on the work
queue, in this order. The filter has added it to the totals if it has passed the filter, or is about to.
-/

namespace Rtos

open Pipeline

/-- How far a buffer has come. -/
inductive Leg
  /-- It is not with the filter. -/
  | aside
  /-- The filter has not added its sample yet. -/
  | coming
  | passed
  deriving DecidableEq

/-- How far the buffer has come that the filter has in its hands, or gets from the call that it makes. -/
def Spot.leg : Spot → Leg
  | awaits | enters .. | adds .. | failsToRead .. => .coming
  | counts _ | leaves _ | passes _ => .passed
  | _ => .aside

namespace Station

def samples (leg : Leg) (station : Station) : List Sample :=
  if station.spot.leg = leg then station.hand.map Message.sample else []

variable {leg : Leg} {station new : Station} {x : Spot} {ph ph' : Phase} {β : Type}
  {call : KernelCall β} {next : β → Spot}

theorem samples_of_eq (same : station.spot.leg = leg) :
    station.samples leg = station.hand.map Message.sample := if_pos same

theorem samples_of_ne (other : station.spot.leg ≠ leg) : station.samples leg = [] := if_neg other

theorem samples_of_empty (empty : station.hand = []) : station.samples leg = [] := by
  rw [samples, empty]
  exact ite_self _

theorem samples_congr (same : new.spot.leg = station.spot.leg)
    (hand : new.hand.map Message.sample = station.hand.map Message.sample) :
    new.samples leg = station.samples leg := by
  rw [samples, samples, same, hand]

theorem leg_filled (reading : UInt32) (m : TaggedMessage) :
    (Spot.filled reading m).leg = .aside := by
  unfold Spot.filled
  split <;> rfl

theorem leg_read (m : TaggedMessage) : (Spot.read m).leg = .coming := by
  unfold Spot.read
  split <;> rfl

theorem samples_of_finishes (under : leg ≠ .aside) (light : (calls x ph).Light)
    (does : x.deed objects = .call call next) {b : β} (ends : call.Ends b ph) :
    (stands (next b)).samples leg = (calls x ph).samples leg := by
  have idle {new : Station} (aside : new.spot.leg = .aside) : new.samples leg = [] :=
    samples_of_ne (aside ▸ under.symm)
  -- The call did not get anything, or got rid of what it had.
  have none (keeps : x.keeps = []) (cargo : ph.cargo = []) : (calls x ph).samples leg = [] :=
    samples_of_empty (by rw [hand, keeps, cargo]; rfl)
  cases x <;> cases does
  case asks reading =>
    have before : (calls (.asks reading) ph).samples leg = [] := idle rfl
    rw [before]
    cases b with
    | none => exact idle rfl
    | some m => exact idle (leg_filled _ m)
  case awaits =>
    cases b with
    | none => exact (samples_of_empty rfl).trans (none rfl ends.1).symm
    | some m =>
      refine samples_congr (leg_read m) (congrArg _ ?_)
      exact (Spot.hand_read m).trans ends.1.symm
  case enters m value => exact samples_congr rfl (congrArg _ (light.hand_eq rfl).symm)
  case leaves m => exact samples_congr rfl (congrArg _ (light.hand_eq rfl).symm)
  case passes => exact (samples_of_empty rfl).trans (none rfl ends).symm
  case polls => cases b <;> exact (idle rfl).trans (idle rfl).symm
  all_goals exact (idle rfl).trans (idle rfl).symm

end Station

namespace Scene

/-- What has passed the filter and was not sent yet, the oldest first. -/
def passed (s : Scene) : List Sample :=
  (s.core.kernel.parked objects.transmit).map Message.sample ++ (s.station .filter).samples .passed

/-- What was sampled and has not passed the filter yet, the oldest first. -/
def coming (s : Scene) : List Sample :=
  (s.station .filter).samples .coming ++ (s.core.kernel.parked objects.work).map Message.sample

/-- What was sampled is sent in order, and added to the totals on its way. -/
structure Flows (s : Scene) : Prop where
  sampled : s.journal.sampled = s.journal.sent ++ s.passed ++ s.coming
  added : s.journal.added = (s.journal.sent ++ s.passed).map Sample.value

namespace Flows

variable {s s' : Scene} {part : Part} {new : Station} {c : Core} {owes : Prop} {t : Totals}
  {j : Journal} {x : Spot} {ph ph' : Phase} {β : Type} {call : KernelCall β} {next : β → Spot}
  {o : Outcome}

theorem congr (h : s.Flows) (passed : s'.passed = s.passed) (coming : s'.coming = s.coming)
    (sampled : s'.journal.sampled = s.journal.sampled) (added : s'.journal.added = s.journal.added)
    (sent : s'.journal.sent = s.journal.sent) : s'.Flows where
  sampled := by rw [sampled, sent, passed, coming, h.sampled]
  added := by rw [added, sent, passed, h.added]

theorem goesOn (h : s.Flows)
    (samples : ∀ leg, leg ≠ .aside → new.samples leg = (s.station part).samples leg)
    (transmit : c.kernel.parked objects.transmit = s.core.kernel.parked objects.transmit)
    (work : c.kernel.parked objects.work = s.core.kernel.parked objects.work)
    (sampled : j.sampled = s.journal.sampled) (added : j.added = s.journal.added)
    (sent : j.sent = s.journal.sent) : Flows ⟨c, (s.setStation part new).station, owes, t, j⟩ := by
  have same {leg : Leg} (under : leg ≠ .aside) :
      ((s.setStation part new).station .filter).samples leg = (s.station .filter).samples leg := by
    by_cases is : .filter = part
    · rw [is, station_setStation, samples leg under]
    · rw [station_setStation_of_ne is]
  refine h.congr ?_ ?_ sampled added sent
  · rw [passed, passed, transmit, same (by decide)]
  · rw [coming, coming, work, same (by decide)]

theorem begins (h : s.Flows) (here : s.station part = .stands x)
    (does : x.deed objects = .call call next) :
    Flows ⟨s.core, (s.setStation part (.calls x { cargo := call.takes })).station, owes, t,
      s.journal⟩ := by
  refine h.goesOn (fun leg _ => ?_) rfl rfl rfl rfl rfl
  rw [here]
  cases x <;> cases does <;> rfl

theorem takes (h : s.Flows) (here : s.station part = .calls x ph) (place : x.part = part)
    (does : x.deed objects = .call call next) {q : QueueId} {m : Message} (before : ph.cargo = [])
    (after : ph'.cargo = [m]) (source : call.source = some q)
    (took : s.core.kernel.parked q = m :: c.kernel.parked q)
    (others : ∀ q' ≠ q, c.kernel.parked q' = s.core.kernel.parked q')
    (came : o.put = none) (went : o.taken = some (q, m)) :
    Flows ⟨c, (s.setStation part (.calls x ph')).station, owes, t,
      s.journal.acts part.task o⟩ := by
  have sampled : (s.journal.acts part.task o).sampled = s.journal.sampled := by
    rw [Journal.acts, Outcome.putOn_of_none came]
    exact List.append_nil _
  have sent : (s.journal.acts part.task o).sent =
      s.journal.sent ++ if q = objects.transmit then [m.sample] else [] := by
    rw [Journal.acts, Outcome.takenFrom_of_some went]
    split <;> rfl
  have none (keeps : x.keeps = []) (leg : Leg) : (s.station part).samples leg = [] := by
    rw [here]
    exact Station.samples_of_empty (by rw [Station.hand, keeps, before]; rfl)
  have idle {ph : Phase} (aside : x.leg = .aside) (leg : Leg) (under : leg ≠ .aside) :
      (Station.calls x ph).samples leg = [] := Station.samples_of_ne (ne_of_eq_of_ne aside under.symm)
  obtain ⟨old, added⟩ := id h
  cases x <;> cases does
  case asks reading =>
    obtain rfl : objects.pool = q := Option.some.inj source
    refine h.goesOn (fun leg under => ?_) (others _ (by decide)) (others _ (by decide)) sampled rfl ?_
    · rw [none rfl, idle rfl leg under]
    · rw [sent, if_neg (by decide), List.append_nil]
  case awaits =>
    obtain rfl : objects.work = q := Option.some.inj source
    obtain rfl : Part.filter = part := place
    have mine : (Station.calls .awaits ph').samples .coming = [m.sample] := by
      refine (Station.samples_of_eq rfl).trans ?_
      rw [Station.hand, after]
      rfl
    have aside : (Station.calls .awaits ph').samples .passed = [] :=
      Station.samples_of_ne (show Leg.coming ≠ .passed by decide)
    have transmit := others objects.transmit (by decide)
    have passed' : Scene.passed ⟨c, (s.setStation .filter (.calls .awaits ph')).station, owes, t,
        s.journal.acts Part.filter.task o⟩ = s.passed := by
      rw [passed, passed, station_setStation, none rfl, transmit, aside]
    have coming' : Scene.coming ⟨c, (s.setStation .filter (.calls .awaits ph')).station, owes, t,
        s.journal.acts Part.filter.task o⟩ = s.coming := by
      rw [coming, coming, station_setStation, none rfl, took, mine]
      rfl
    refine h.congr passed' coming' sampled rfl ?_
    rw [sent, if_neg (by decide), List.append_nil]
  case polls =>
    obtain rfl : objects.transmit = q := Option.some.inj source
    obtain rfl : Part.transmission = part := place
    have filter : (s.setStation .transmission (.calls .polls ph')).station .filter =
        s.station .filter := station_setStation_of_ne (by decide)
    have work := others objects.work (by decide)
    -- The buffer is sent.
    have passed' : s.passed = m.sample :: Scene.passed ⟨c,
        (s.setStation .transmission (.calls .polls ph')).station, owes, t,
        s.journal.acts Part.transmission.task o⟩ := by
      rw [passed, passed, filter, took]
      rfl
    have coming' : Scene.coming ⟨c, (s.setStation .transmission (.calls .polls ph')).station, owes, t,
        s.journal.acts Part.transmission.task o⟩ = s.coming := by
      rw [coming, coming, filter, work]
    rw [if_pos rfl] at sent
    constructor
    · rw [sampled, sent, coming', old, passed']
      simp only [List.append_assoc, List.cons_append, List.nil_append]
    · refine added.trans ?_
      rw [sent, passed', List.append_assoc, List.singleton_append]
  all_goals cases source

theorem puts (h : s.Flows) (here : s.station part = .calls x ph) (place : x.part = part)
    (does : x.deed objects = .call call next) {q : QueueId} {m m' : Message} (before : ph.cargo = [m])
    (after : ph'.cargo = []) (takes : call.takes = [m]) (hands : call.Hands q m')
    (home : m.home = objects.pool) (sample : m'.sample = m.sample)
    (put : c.kernel.parked q = s.core.kernel.parked q ++ [m'])
    (others : ∀ q' ≠ q, c.kernel.parked q' = s.core.kernel.parked q')
    (came : o.put = some (q, m')) (went : o.taken = none) :
    Flows ⟨c, (s.setStation part (.calls x ph')).station, owes, t,
      s.journal.acts part.task o⟩ := by
  have sampled : (s.journal.acts part.task o).sampled =
      s.journal.sampled ++ if q = objects.work then [m'.sample] else [] := by
    rw [Journal.acts, Outcome.putOn_of_some came]
    split <;> rfl
  have sent : (s.journal.acts part.task o).sent = s.journal.sent := by
    rw [Journal.acts, Outcome.takenFrom_of_none went]
    exact List.append_nil _
  have idle {ph : Phase} (aside : x.leg = .aside) (leg : Leg) (under : leg ≠ .aside) :
      (Station.calls x ph).samples leg = [] := Station.samples_of_ne (ne_of_eq_of_ne aside under.symm)
  obtain ⟨old, added⟩ := id h
  cases x <;> cases does
  case fills reading m =>
    obtain rfl : objects.work = q := hands.1
    obtain rfl : Part.sampler = part := place
    have filter : (s.setStation .sampler (.calls (.fills reading m) ph')).station .filter =
        s.station .filter := station_setStation_of_ne (by decide)
    have transmit := others objects.transmit (by decide)
    -- The sample is at work.
    have passed' : Scene.passed ⟨c, (s.setStation .sampler (.calls (.fills reading m) ph')).station,
        owes, t, s.journal.acts Part.sampler.task o⟩ = s.passed := by
      rw [passed, passed, filter, transmit]
    have coming' : Scene.coming ⟨c, (s.setStation .sampler (.calls (.fills reading m) ph')).station,
        owes, t, s.journal.acts Part.sampler.task o⟩ = s.coming ++ [m'.sample] := by
      rw [coming, coming, filter, put, List.map_append, ← List.append_assoc]
      rfl
    rw [if_pos rfl] at sampled
    constructor
    · rw [sampled, sent, passed', coming', old, List.append_assoc _ s.coming]
    · refine added.trans ?_
      rw [sent, passed']
  case passes m =>
    obtain rfl : objects.transmit = q := hands.1
    obtain rfl : Part.filter = part := place
    have work := others objects.work (by decide)
    have mine : (s.station .filter).samples .passed = [m'.sample] := by
      refine here ▸ (Station.samples_of_eq rfl).trans ?_
      rw [Station.hand, before, sample]
      rfl
    have aside : (s.station .filter).samples .coming = [] :=
      here ▸ Station.samples_of_ne (show Leg.passed ≠ .coming by decide)
    have none (leg : Leg) : (Station.calls (.passes m) ph').samples leg = [] :=
      Station.samples_of_empty (by rw [Station.hand, after]; rfl)
    have passed' : Scene.passed ⟨c, (s.setStation .filter (.calls (.passes m) ph')).station, owes, t,
        s.journal.acts Part.filter.task o⟩ = s.passed := by
      rw [passed, passed, station_setStation, put, mine, none, List.append_nil, List.map_append]
      rfl
    have coming' : Scene.coming ⟨c, (s.setStation .filter (.calls (.passes m) ph')).station, owes, t,
        s.journal.acts Part.filter.task o⟩ = s.coming := by
      rw [coming, coming, station_setStation, none, work, aside]
    refine h.congr passed' coming' ?_ rfl sent
    rw [sampled, if_neg (by decide), List.append_nil]
  case returns =>
    cases takes
    obtain rfl : objects.pool = q := home.symm.trans hands.1
    refine h.goesOn (fun leg under => ?_) (others _ (by decide)) (others _ (by decide)) ?_ rfl sent
    · rw [here, idle rfl leg under, idle rfl leg under]
    · rw [sampled, if_neg (by decide), List.append_nil]
  all_goals exact hands.elim

/-- A section moves a buffer along the stream, or leaves it alone. -/
theorem acts (h : s.Flows) (tidy : s.Tidy) (shaped : s.Shaped) (here : s.station part = .calls x ph)
    (does : x.deed objects = .call call next)
    (haul : Haul s.core.kernel c.kernel call o ph.cargo ph'.cargo) :
    Flows ⟨c, (s.setStation part (.calls x ph')).station, owes, t, s.journal.acts part.task o⟩ := by
  have place := tidy.part_eq here
  generalize before : ph.cargo = cargo, after : ph'.cargo = cargo' at haul
  cases haul with
  | still _ same came went =>
    refine h.goesOn (fun leg _ => ?_) (same _) (same _) ?_ rfl ?_
    · rw [here]
      exact Station.samples_congr rfl (by rw [Station.hand, Station.hand, before, after])
    · rw [Journal.acts, Outcome.putOn_of_none came]
      exact List.append_nil _
    · rw [Journal.acts, Outcome.takenFrom_of_none went]
      exact List.append_nil _
  | takes q m source took others came went =>
    exact h.takes here place does before after source took others came went
  | puts q m m' takes hands put others came went =>
    have mine : m ∈ (s.station part).hand := by
      rw [here, Station.hand, before]
      exact List.mem_append_right _ (List.mem_singleton.2 rfl)
    have home := tidy.homes part m mine
    have sample := (Spot.shaped_of_hands does takes hands ((shaped.stations part).fits m mine) home).2.2
    exact h.puts here place does before after takes hands home sample put others came went

theorem owns (h : s.Flows) (shaped : s.Shaped) (here : s.station part = .stands x)
    (place : x.part = part) {f : StateM Totals β} {next : β → Spot} (does : x.deed objects = .own f next)
    (b : β) : Flows ⟨s.core, (s.setStation part (.stands (next b))).station, owes, t,
      s.journal.owns part.task s.totals (f.run s.totals).2⟩ := by
  have still (samples : ∀ leg, leg ≠ .aside → (Station.stands (next b)).samples leg =
      (Station.stands x).samples leg)
      (added : (s.journal.owns part.task s.totals (f.run s.totals).2).added = s.journal.added) :
      Flows ⟨s.core, (s.setStation part (.stands (next b))).station, owes, t,
        s.journal.owns part.task s.totals (f.run s.totals).2⟩ :=
    h.goesOn (here ▸ samples) rfl rfl (Journal.sampled_owns _) added (Journal.sent_owns _)
  have sound := (shaped.stations part).sound
  rw [here] at sound
  cases x <;> cases does
  case adds m value =>
    obtain rfl : Part.filter = part := place
    obtain rfl : m.message.sample.value = value := sound
    have adds : s.journal.owns Part.filter.task s.totals
        ((addValue m.message.sample.value).run s.totals).2 =
        { s.journal with added := s.journal.added ++ [m.message.sample.value] } := s.journal.owns_adds
    have aside : (s.station .filter).samples .passed = [] :=
      here ▸ Station.samples_of_ne (show Leg.coming ≠ .passed by decide)
    have passed' (j : Journal) : Scene.passed ⟨s.core,
        (s.setStation .filter (.stands (.counts m))).station, owes, t, j⟩ =
        s.passed ++ [m.message.sample] := by
      rw [passed, passed, station_setStation, aside, List.append_nil]
      rfl
    have coming' (j : Journal) : s.coming = m.message.sample :: Scene.coming ⟨s.core,
        (s.setStation .filter (.stands (.counts m))).station, owes, t, j⟩ := by
      rw [coming, coming, station_setStation, here]
      rfl
    constructor
    · refine (Journal.sampled_owns _).trans (h.sampled.trans ?_)
      rw [passed', coming' (s.journal.owns Part.filter.task s.totals
        ((addValue m.message.sample.value).run s.totals).2)]
      simp only [Journal.sent_owns, List.append_assoc, List.cons_append, List.nil_append]
    · refine (congrArg Journal.added adds).trans ?_
      rw [passed', ← List.append_assoc, List.map_append]
      simp only [Journal.sent_owns, h.added]
      rfl
  case counts =>
    obtain rfl : Part.filter = part := place
    exact still (fun _ _ => rfl) (congrArg Journal.added s.journal.owns_counts)
  case tallies =>
    obtain rfl : Part.transmission = part := place
    exact still (fun _ _ => rfl) (congrArg Journal.added s.journal.owns_tallies)
  all_goals
    obtain rfl : Part.monitor = part := place
    exact still (fun _ _ => rfl) s.journal.added_owns_monitor

theorem turn (h : s.Flows) (tidy : s.Tidy) (shaped : s.Shaped) (drains : s.Drains) (turn : s.Turn s') :
    s'.Flows := by
  cases turn with
  | rests c owes still keeps =>
    exact h.congr (by rw [passed, passed, still]) (by rw [coming, coming, still]) rfl rfl rfl
  | begins part x call next owes here does => exact h.begins here does
  | acts part x call next a b ph c owes here does may serves result =>
    exact h.acts tidy shaped here does (tidy.haul may result)
  | finishes part x call next b ph owes here does ends =>
    refine h.goesOn (fun leg under => ?_) rfl rfl rfl rfl rfl
    rw [here]
    exact Station.samples_of_finishes under (here ▸ drains.light part) does ends
  | owns part x f next owes here does => exact h.owns shaped here (tidy.part_eq here) does _
  | notes part x n next owes here does =>
    cases x <;> cases does
    refine h.goesOn (fun leg _ => ?_) rfl rfl rfl rfl rfl
    rw [here]
    rfl
  | kicks x call next ph here does rules off =>
    refine h.goesOn (fun leg _ => ?_) rfl rfl rfl rfl rfl
    rw [off]
    exact (Station.samples_of_empty rfl).trans (Station.samples_of_empty rfl).symm
  | hangsUp owes ended =>
    refine h.goesOn (fun leg _ => ?_) rfl rfl rfl rfl rfl
    rw [ended]
    exact (Station.samples_of_empty rfl).trans (Station.samples_of_empty rfl).symm
  | interrupts a b c port result =>
    have still := tidy.still port result
    exact h.congr (by rw [passed, passed, still]) (by rw [coming, coming, still]) rfl rfl rfl

end Flows

end Scene

end Rtos
