import Rtos.Proofs.PlantShape

/-!
# The stream of buffers

A buffer goes round: from the pool to the sampler, to the work queue, to the filter, to the transmit
queue, to the routine and back. Read backwards, the stations between the sampler and the routine hold
what was sampled and not yet sent, in order. The routine empties the transmit queue before the call
of the filter returns, so there is never more than one buffer between the filter and the routine.
-/

namespace Rtos

open Pipeline

/-- The part gets a buffer from the call that it makes there, or hands one over to it. -/
def Spot.Carries : Spot → Prop
  | asks _ | fills .. | awaits | passes _ | polls | returns _ => True
  | _ => False

theorem Spot.Carries.keeps {x : Spot} (h : x.Carries) : x.keeps = [] := by
  cases x <;> first | rfl | exact h.elim

theorem Part.filter_or_transmission_or_aside (part : Part) :
    part = .filter ∨ part = .transmission ∨ part ≠ .filter ∧ part ≠ .transmission := by
  cases part <;> decide

namespace Station

/-- The call of the part holds no more than one buffer, and none if it does not deal with buffers. -/
def Light : Station → Prop
  | stands _ => True
  | calls x ph => ph.cargo = [] ∨ x.Carries ∧ ∃ m, ph.cargo = [m]

/-- The part has put its buffer on the transmit queue. -/
def HasPassed : Station → Prop
  | calls (.passes _) ph => ph.cargo = []
  | _ => False

/-- The routine is going to look at its queue. -/
def IsPolling : Station → Prop
  | stands .polls => True
  | calls .polls ph => ph.cargo = [] ∧ ph.hasPolled = false
  | _ => False

variable {x : Spot} {ph : Phase} {β : Type} {call : KernelCall β} {next : β → Spot}

theorem Light.stands (x : Spot) : (Station.stands x).Light := trivial

theorem IsPolling.spot_eq {station : Station} (h : station.IsPolling) : station.spot = .polls := by
  cases station with
  | stands x => cases x <;> first | rfl | exact h.elim
  | calls x ph => cases x <;> first | rfl | exact h.elim

theorem Light.begins (does : x.deed objects = .call call next) :
    (calls x { cargo := call.takes }).Light := by
  cases x <;> cases does
  case fills => exact .inr ⟨trivial, _, rfl⟩
  case passes => exact .inr ⟨trivial, _, rfl⟩
  case returns => exact .inr ⟨trivial, _, rfl⟩
  all_goals exact .inl rfl

theorem Light.haul {k k' : Kernel} {ph' : Phase} {o : Outcome} (h : (calls x ph).Light)
    (does : x.deed objects = .call call next) (haul : Haul k k' call o ph.cargo ph'.cargo) :
    (calls x ph').Light := by
  dsimp only [Light] at h ⊢
  generalize ph.cargo = cargo, ph'.cargo = cargo' at h haul
  cases haul with
  | still => exact h
  | takes q m source =>
    refine .inr ⟨?_, m, rfl⟩
    cases x <;> cases does <;> cases source <;> trivial
  | puts => exact .inl rfl

theorem Light.hand_eq (h : (calls x ph).Light) {m : Message} (keeps : x.keeps = [m]) :
    (calls x ph).hand = [m] := by
  rcases h with empty | ⟨carries, -⟩
  · rw [hand, keeps, empty]
    rfl
  · cases keeps.symm.trans carries.keeps

end Station

theorem Action.kicks_of_puts {β : Type} {a : Action β} {b : β} {c c' : Core} {m : Message}
    (furnished : c.kernel.Furnished) (result : a.toSection c = .ok b c')
    (puts : a.puts = some (objects.transmit, m)) : Outcome.kicks ⟨a, b⟩ := by
  cases a with
  | enqueue q m' =>
    cases puts
    have routine := Section.enqueue_routine result
    rw [furnished.forms] at routine
    cases b with
    | none => cases routine
    | some => rfl
  | _ => cases puts

theorem Scene.Tidy.empty_of_polls {s : Scene} (h : s.Tidy) {β : Type} {a : Action β} {b : β} {c : Core}
    (result : a.toSection s.core = .ok b c) (polls : a.polls = some objects.transmit)
    (nothing : Outcome.taken ⟨a, b⟩ = none) : s.core.kernel.parked objects.transmit = [] := by
  cases a with
  | pollDriver q =>
    cases polls
    obtain ⟨queue, which, ⟨-, -, zero⟩ | ⟨_, _, _, -, -, taken, -⟩⟩ := Section.pollDriver_ok result
    · have driver := h.furnished.transmit
      rw [Kernel.queueSemaphore_eq_ok, which, Option.map_some, Option.some.injEq] at driver
      cases kind : queue.discipline with
      | task s =>
        rw [kind] at driver
        cases driver
      | driver d =>
        have count := h.counts _ queue d which kind
        rw [zero d kind] at count
        have none := List.eq_nil_of_length_eq_zero count.symm
        rw [Kernel.parked, none]
        rfl
    · rw [taken] at nothing
      cases nothing
  | _ => cases polls

namespace Spot

variable {x : Spot} {β : Type} {call : KernelCall β} {next : β → Spot} {q : QueueId}
  {m m' : Message}

theorem transmit_ne_of_source (does : x.deed objects = .call call next) (source : call.source = some q)
    (aside : x.part ≠ .transmission) : objects.transmit ≠ q := by
  cases x <;> cases does <;> cases source
  case polls => exact (aside rfl).elim
  all_goals decide

theorem transmit_ne_of_hands (does : x.deed objects = .call call next) (takes : call.takes = [m])
    (hands : call.Hands q m') (home : m.home = objects.pool) (aside : x.part ≠ .filter) :
    objects.transmit ≠ q := by
  cases x <;> cases does
  case fills =>
    rw [← hands.1]
    decide
  case passes => exact (aside rfl).elim
  case returns =>
    cases takes
    rw [← hands.1, home]
    decide
  all_goals exact hands.elim

end Spot

theorem Haul.transmit_eq {k k' : Kernel} {β : Type} {call : KernelCall β} {next : β → Spot} {x : Spot}
    {o : Outcome} {cargo cargo' : List Message} (h : Haul k k' call o cargo cargo')
    (does : x.deed objects = .call call next) (homes : ∀ m ∈ cargo, m.home = objects.pool)
    (filter : x.part ≠ .filter) (transmission : x.part ≠ .transmission) :
    k'.parked objects.transmit = k.parked objects.transmit := by
  cases h with
  | still _ same => exact same _
  | takes q m source _ others => exact others _ (Spot.transmit_ne_of_source does source transmission)
  | puts q m m' takes hands _ others =>
    have home := homes m (List.mem_singleton.2 rfl)
    exact others _ (Spot.transmit_ne_of_hands does takes hands home filter)

namespace Scene

/-- The transmit queue is empty but for the buffer that the filter has just put there. -/
structure Drains (s : Scene) : Prop where
  light : ∀ part, (s.station part).Light
  /-- While the routine runs, the filter waits for it. -/
  nested : s.station .transmission ≠ .stands .off → (s.station .filter).HasPassed
  queue : s.core.kernel.parked objects.transmit = [] ∨
    (∃ m, s.core.kernel.parked objects.transmit = [m]) ∧ (s.station .filter).HasPassed ∧
      (s.station .transmission = .stands .off ∧ s.owes ∨ (s.station .transmission).IsPolling)

namespace Drains

variable {s s' : Scene} {part : Part} {station : Station}

theorem aside (h : s.Drains) (aside : part ≠ .filter ∧ part ≠ .transmission) (light : station.Light)
    {c : Core} {owes : Prop} (same : c.kernel.parked objects.transmit =
      s.core.kernel.parked objects.transmit) (keeps : s.owes → owes) {t : Totals} {j : Journal} :
    Drains ⟨c, (s.setStation part station).station, owes, t, j⟩ := by
  have filter : (s.setStation part station).station .filter = s.station .filter :=
    station_setStation_of_ne aside.1.symm
  have transmission : (s.setStation part station).station .transmission = s.station .transmission :=
    station_setStation_of_ne aside.2.symm
  refine ⟨forall_setStation h.light part light, ?_, ?_⟩
  · rw [transmission, filter]
    exact h.nested
  · rw [transmission, filter, same]
    exact h.queue.imp_right fun ⟨one, passed, waits⟩ => ⟨one, passed, waits.imp_left fun w => ⟨w.1, keeps w.2⟩⟩

theorem filter (h : s.Drains) (off : s.station .transmission = .stands .off) (light : station.Light)
    {c : Core} (empty : c.kernel.parked objects.transmit = []) {owes : Prop} {t : Totals}
    {j : Journal} : Drains ⟨c, (s.setStation .filter station).station, owes, t, j⟩ := by
  have transmission : (s.setStation .filter station).station .transmission = .stands .off :=
    (station_setStation_of_ne (by decide)).trans off
  exact ⟨forall_setStation h.light _ light, fun running => (running transmission).elim, .inl empty⟩

theorem transmission (h : s.Drains) (running : s.station .transmission ≠ .stands .off)
    (light : station.Light) {c : Core} {owes : Prop} {t : Totals} {j : Journal}
    (queue : c.kernel.parked objects.transmit = [] ∨
      (∃ m, c.kernel.parked objects.transmit = [m]) ∧ station.IsPolling) :
    Drains ⟨c, (s.setStation .transmission station).station, owes, t, j⟩ := by
  have filter : (s.setStation .transmission station).station .filter = s.station .filter :=
    station_setStation_of_ne (by decide)
  refine ⟨forall_setStation h.light _ light, fun _ => ?_, ?_⟩
  · rw [filter]
    exact h.nested running
  · rw [filter, station_setStation]
    exact queue.imp_right fun ⟨one, polling⟩ => ⟨one, h.nested running, .inr polling⟩

theorem empty_of_filter (h : s.Drains) (free : ¬ (s.station .filter).HasPassed) :
    s.core.kernel.parked objects.transmit = [] :=
  h.queue.resolve_right fun waits => free waits.2.1

theorem empty_of_transmission (h : s.Drains) (running : s.station .transmission ≠ .stands .off)
    (busy : ¬ (s.station .transmission).IsPolling) : s.core.kernel.parked objects.transmit = [] :=
  h.queue.resolve_right fun waits => waits.2.2.elim (fun off => running off.1) busy

/-- A section of the filter. It puts its buffer on the transmit queue when it is empty, and has to run
the routine then. -/
theorem acts_filter (h : s.Drains) (tidy : s.Tidy) (off : s.station .transmission = .stands .off)
    {x : Spot} {ph : Phase} {β γ : Type} {call : KernelCall β} {next : β → Spot} {a : Action γ} {b : γ}
    {c : Core} {owes : Prop} (here : s.station .filter = .calls x ph)
    (does : x.deed objects = .call call next) (may : call.May ⟨1⟩ ph a)
    (result : a.toSection s.core = .ok b c) (kicks : Outcome.kicks ⟨a, b⟩ → owes) {t : Totals}
    {j : Journal} : Drains ⟨c, (s.setStation .filter (.calls x (ph.after ⟨a, b⟩))).station, owes, t, j⟩ := by
  have haul := tidy.haul may result
  have light : (Station.calls x (ph.after ⟨a, b⟩)).Light := (here ▸ h.light .filter).haul does haul
  have place : x.part = .filter := tidy.part_eq here
  have free : ¬ (s.station .filter).HasPassed := by
    rw [here]
    intro passed
    cases x
    case passes m =>
      have takes : call.takes = [m.message] := by
        cases does
        rfl
      exact nomatch (may.puts_of_takes takes).1.symm.trans passed
    all_goals exact passed
  have empty := h.empty_of_filter free
  generalize before : ph.cargo = cargo, after : (ph.after ⟨a, b⟩).cargo = cargo' at haul
  cases haul with
  | still _ same => exact h.filter off light ((same _).trans empty)
  | takes q m source took others =>
    refine h.filter off light ((others _ ?_).trans empty)
    rw [Spot.source_of_filter does source place]
    decide
  | puts q m m' takes hands put others =>
    obtain ⟨-, q', m'', puts, hands'⟩ := may.puts_of_takes takes
    have what : q = objects.transmit ∧ q' = objects.transmit ∧ ∃ m, x = .passes m := by
      cases x <;> cases does
      case passes m => exact ⟨hands.1.symm, hands'.1.symm, m, rfl⟩
      case fills => cases place
      case returns => cases place
      all_goals exact hands.elim
    obtain ⟨rfl, rfl, m, rfl⟩ := what
    refine ⟨forall_setStation h.light _ light, ?_, .inr ⟨⟨m', ?_⟩, ?_, .inl ⟨?_, ?_⟩⟩⟩
    · rw [station_setStation_of_ne (by decide)]
      exact fun running => (running off).elim
    · rw [put, empty]
      rfl
    · rw [station_setStation]
      exact after
    · rw [station_setStation_of_ne (by decide)]
      exact off
    · exact kicks (Action.kicks_of_puts tidy.furnished result puts)

theorem acts_transmission (h : s.Drains) (tidy : s.Tidy) {x : Spot} {ph : Phase} {β γ : Type}
    {call : KernelCall β} {next : β → Spot} {a : Action γ} {b : γ} {c : Core} {owes : Prop}
    (here : s.station .transmission = .calls x ph) (does : x.deed objects = .call call next)
    (may : call.May ⟨1⟩ ph a) (result : a.toSection s.core = .ok b c) {t : Totals} {j : Journal} :
    Drains ⟨c, (s.setStation .transmission (.calls x (ph.after ⟨a, b⟩))).station, owes, t, j⟩ := by
  have haul := tidy.haul may result
  have running : s.station .transmission ≠ .stands .off := here ▸ nofun
  have light : (Station.calls x (ph.after ⟨a, b⟩)).Light :=
    (here ▸ h.light .transmission).haul does haul
  refine h.transmission running light ?_
  have place : x.part = .transmission := tidy.part_eq here
  rcases h.queue with empty | ⟨⟨m₁, one⟩, -, waits⟩
  · -- What the routine gives back goes to the pool.
    generalize before : ph.cargo = cargo, (ph.after ⟨a, b⟩).cargo = cargo' at haul
    refine .inl ?_
    cases haul with
    | still _ same => exact (same _).trans empty
    | takes q m _ took others =>
      by_cases same : objects.transmit = q
      · rw [← same, empty] at took
        cases took
      · exact (others _ same).trans empty
    | puts q m m' takes hands _ others =>
      have mine : m ∈ (s.station .transmission).hand := by
        rw [here, Station.hand, before]
        exact List.mem_append_right _ (List.mem_singleton.2 rfl)
      have home := tidy.homes _ m mine
      refine (others _ (Spot.transmit_ne_of_hands does takes hands home ?_)).trans empty
      rw [place]
      decide
  · -- A buffer waits on the transmit queue, and the routine is at its poll.
    rw [here] at waits
    have polling := waits.resolve_left fun off => by cases off.1
    cases x
    case polls =>
      obtain ⟨cargo, fresh⟩ := polling
      have source : call.source = some objects.transmit ∧ call.takes = [] := by
        cases does
        exact ⟨rfl, rfl⟩
      rw [cargo] at haul
      generalize after : (ph.after ⟨a, b⟩).cargo = cargo' at haul
      cases haul with
      | still _ same =>
        refine .inr ⟨⟨m₁, (same _).trans one⟩, after, ?_⟩
        cases polls : a.polls with
        | none =>
          have last : (ph.after ⟨a, b⟩).hasPolled = a.polls.isSome := rfl
          rw [last, polls]
          rfl
        | some q =>
          obtain rfl := may.polls_eq polls
          have nothing : Outcome.taken ⟨a, b⟩ = none := by
            cases a with
            | pollDriver q =>
              cases b with
              | none => rfl
              | some m => cases after
            | _ => cases polls
          cases one.symm.trans (tidy.empty_of_polls result polls nothing)
      | takes q m from_ took others =>
        obtain rfl := Option.some.inj (source.1.symm.trans from_)
        rw [one] at took
        exact .inl (List.cons.inj took).2.symm
    all_goals exact polling.elim

theorem turn (h : s.Drains) (tidy : s.Tidy) (turn : s.Turn s') : s'.Drains := by
  cases turn with
  | rests c owes still keeps =>
    refine ⟨h.light, h.nested, ?_⟩
    rw [still]
    exact h.queue.imp_right fun ⟨one, passed, waits⟩ =>
      ⟨one, passed, waits.imp_left fun w => ⟨w.1, keeps w.2⟩⟩
  | begins part x call next owes here does frees keeps =>
    have light := Station.Light.begins does
    rcases part.filter_or_transmission_or_aside with rfl | rfl | aside
    · refine h.filter (frees rfl) light (h.empty_of_filter ?_)
      rw [here]
      exact id
    · have running : s.station .transmission ≠ .stands .off := by
        rw [here]
        rintro ⟨⟩
        cases does
      -- A buffer that is still on the queue is the one that the routine polls for now.
      refine h.transmission running light (h.queue.imp_right fun ⟨one, _, waits⟩ => ⟨one, ?_⟩)
      have polling := waits.resolve_left fun off => running off.1
      rw [here] at polling
      obtain rfl : x = .polls := polling.spot_eq
      cases does
      exact ⟨rfl, rfl⟩
    · exact h.aside aside light rfl keeps
  | acts part x call next a b ph c owes here does may serves result frees keeps kicks =>
    have haul := tidy.haul may result
    have light : (Station.calls x (ph.after ⟨a, b⟩)).Light := (here ▸ h.light part).haul does haul
    have place : x.part = part := tidy.part_eq here
    have homes (m : Message) (hm : m ∈ ph.cargo) : m.home = objects.pool := by
      refine tidy.homes part m ?_
      rw [here]
      exact List.mem_append_right _ hm
    rcases part.filter_or_transmission_or_aside with rfl | rfl | aside
    · exact h.acts_filter tidy (frees rfl) here does may result (kicks rfl)
    · exact h.acts_transmission tidy here does may result
    · have same := haul.transmit_eq does homes (place ▸ aside.1) (place ▸ aside.2)
      exact h.aside aside light same keeps
  | finishes part x call next b ph owes here does ends frees settled keeps =>
    rcases part.filter_or_transmission_or_aside with rfl | rfl | aside
    · refine h.filter (frees rfl) (.stands _) (h.queue.resolve_right fun ⟨_, _, waits⟩ => ?_)
      rcases waits with ⟨-, owes⟩ | polling
      · exact settled rfl owes
      · rw [frees rfl] at polling
        exact polling
    · have running : s.station .transmission ≠ .stands .off := here ▸ nofun
      -- Had a buffer been left on the queue, the poll that is over would have taken it.
      refine h.transmission running (.stands _) (.inl (h.empty_of_transmission running ?_))
      rw [here]
      intro polling
      obtain rfl : x = .polls := polling.spot_eq
      cases does
      exact nomatch (ends.2 rfl).symm.trans polling.2
    · exact h.aside aside (.stands _) rfl keeps
  | owns part x f next owes here does frees keeps =>
    rcases part.filter_or_transmission_or_aside with rfl | rfl | aside
    · refine h.filter (frees rfl) (.stands _) (h.empty_of_filter ?_)
      rw [here]
      exact id
    · have running : s.station .transmission ≠ .stands .off := by
        rw [here]
        rintro ⟨⟩
        cases does
      refine h.transmission running (.stands _) (.inl (h.empty_of_transmission running ?_))
      rw [here]
      intro polling
      obtain rfl : x = .polls := polling.spot_eq
      cases does
    · exact h.aside aside (.stands _) rfl keeps
  | notes part x n next owes here does frees keeps =>
    have place := tidy.part_eq here
    cases x <;> cases does
    obtain rfl : Part.monitor = part := place
    exact h.aside (by decide) (.stands _) rfl keeps
  | kicks x call next ph here does rules off =>
    -- The filter alone puts buffers on the transmit queue, and this call is its put.
    have passed : (s.station .filter).HasPassed := by
      have place := tidy.part_eq here
      obtain ⟨empty, m, takes, hands⟩ := rules.hands
      rw [here]
      cases x <;> cases does
      case passes => exact empty
      case fills => cases place
      case returns => cases place
      all_goals cases takes
    have filter : (s.setStation .transmission (.stands .polls)).station .filter = s.station .filter :=
      station_setStation_of_ne (by decide)
    refine ⟨forall_setStation h.light _ (.stands _), fun _ => filter ▸ passed, ?_⟩
    rw [filter, station_setStation]
    exact h.queue.imp_right fun ⟨one, _, _⟩ => ⟨one, passed, .inr trivial⟩
  | hangsUp owes ended =>
    have running : s.station .transmission ≠ .stands .off := ended ▸ nofun
    have off : (s.setStation .transmission (.stands .off)).station .transmission = .stands .off :=
      station_setStation
    refine ⟨forall_setStation h.light _ (.stands _), fun running => (running off).elim,
      .inl (h.empty_of_transmission running ?_)⟩
    rw [ended]
    exact id
  | interrupts a b c port result =>
    have still := tidy.still port result
    refine ⟨h.light, h.nested, ?_⟩
    rw [still]
    exact h.queue

end Drains

end Scene

end Rtos
