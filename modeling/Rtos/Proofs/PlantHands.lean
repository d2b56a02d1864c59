import Rtos.Proofs.PlantFlow

/-!
# What is in hands

The onlooker's account of the buffers that a task has taken off a queue agrees with what the parts that
run on its thread have in their hands. The routine counts what it has taken before it gives it back.
-/

namespace Rtos

open Pipeline

namespace Station

/-- The buffers that the routine has sent and not counted yet. -/
def uncountedSent : Station → Nat
  | stands (.tallies _) => 1
  | calls .polls ph => ph.cargo.length
  | _ => 0

def ids (station : Station) : List MessageId := station.hand.map Message.id

variable {x : Spot} {ph ph' : Phase} {β : Type} {call : KernelCall β} {next : β → Spot} {b : β}

theorem uncountedSent_begins (does : x.deed objects = .call call next) :
    (calls x { cargo := call.takes }).uncountedSent = (stands x).uncountedSent := by
  cases x <;> cases does <;> rfl

theorem uncountedSent_finishes (place : x.part = .transmission)
    (does : x.deed objects = .call call next) (ends : call.Ends b ph) :
    (stands (next b)).uncountedSent = (calls x ph).uncountedSent := by
  cases x <;> cases does
  case polls =>
    refine .trans ?_ (congrArg List.length ends.1).symm
    cases b <;> rfl
  case returns => rfl
  all_goals cases place

theorem ids_finishes (light : (calls x ph).Light) (does : x.deed objects = .call call next)
    (ends : call.Ends b ph) : (stands (next b)).ids = (calls x ph).ids := by
  -- The call did not get anything, or got rid of what it had.
  have kept (cargo : ph.cargo = []) : (calls x ph).ids = x.keeps.map Message.id := by
    rw [ids, hand, cargo, List.append_nil]
  cases x <;> cases does
  case asks reading =>
    cases b with
    | none => exact (kept ends.1).symm
    | some m =>
      obtain ⟨payload, hand, -⟩ := Spot.hand_filled (nextReading reading) m
      refine (congrArg (List.map Message.id) hand).trans ?_
      exact (congrArg (List.map Message.id) ends.1).symm
  case awaits =>
    cases b with
    | none => exact (kept ends.1).symm
    | some m =>
      refine (congrArg (List.map Message.id) (Spot.hand_read m)).trans ?_
      exact (congrArg (List.map Message.id) ends.1).symm
  case polls =>
    cases b with
    | none => exact (kept ends.1).symm
    | some m => exact (congrArg (List.map Message.id) ends.1).symm
  case fills => exact (kept ends).symm
  case passes => exact (kept ends).symm
  case returns => exact (kept ends).symm
  case enters m value => exact (congrArg (List.map Message.id) (light.hand_eq rfl)).symm
  case leaves m => exact (congrArg (List.map Message.id) (light.hand_eq rfl)).symm
  all_goals
    rcases light with empty | ⟨carries, -⟩
    · exact (kept empty).symm
    · exact carries.elim

end Station

namespace Scene

variable {s s' : Scene} {part : Part} {new : Station} {c : Core} {owes : Prop} {t : Totals}
  {j : Journal} {o : Outcome} {x : Spot} {ph ph' : Phase} {β : Type} {call : KernelCall β}
  {next : β → Spot}

/-- What was sent has been counted, but for the buffer in the hands of the routine. -/
def CountsSent (s : Scene) : Prop :=
  ∃ n, s.totals.sent = UInt32.ofNat n ∧
    s.journal.sent.length = n + (s.station .transmission).uncountedSent

namespace CountsSent

theorem goesOn (h : s.CountsSent)
    (mine : part = .transmission → new.uncountedSent = (s.station part).uncountedSent)
    (sent : j.sent = s.journal.sent) (counted : t.sent = s.totals.sent) :
    CountsSent ⟨c, (s.setStation part new).station, owes, t, j⟩ := by
  have same : ((s.setStation part new).station .transmission).uncountedSent =
      (s.station .transmission).uncountedSent := by
    by_cases is : .transmission = part
    · rw [is, station_setStation, mine is.symm]
    · rw [station_setStation_of_ne is]
  obtain ⟨n, counter, length⟩ := h
  exact ⟨n, counted.trans counter, by rw [sent, same, length]⟩

theorem acts (h : s.CountsSent) {k k' : Kernel} (here : s.station part = .calls x ph)
    (place : x.part = part) (does : x.deed objects = .call call next)
    (haul : Haul k k' call o ph.cargo ph'.cargo) :
    CountsSent ⟨c, (s.setStation part (.calls x ph')).station, owes, s.totals,
      s.journal.acts part.task o⟩ := by
  have sent (none : o.takenFrom objects.transmit = []) :
      (s.journal.acts part.task o).sent = s.journal.sent := by
    rw [Journal.acts, none]
    exact List.append_nil _
  generalize before : ph.cargo = cargo, after : ph'.cargo = cargo' at haul
  cases haul with
  | still _ _ _ went =>
    refine h.goesOn (fun _ => ?_) (sent (Outcome.takenFrom_of_none went)) rfl
    rw [here]
    cases x <;> first | rfl | exact congrArg List.length (after.trans before.symm)
  | puts q m m' takes _ _ _ _ went =>
    refine h.goesOn (fun _ => ?_) (sent (Outcome.takenFrom_of_none went)) rfl
    rw [here]
    cases x <;> cases does <;> first | rfl | cases takes
  | takes q m source _ _ _ went =>
    have taken := Outcome.takenFrom_of_some (q := objects.transmit) went
    by_cases routine : part = .transmission
    · subst routine
      obtain ⟨n, counter, length⟩ := h
      obtain ⟨rfl, rfl⟩ : x = .polls ∧ q = objects.transmit := by
        cases x <;> cases does <;> cases source
        case polls => exact ⟨rfl, rfl⟩
        all_goals cases place
      rw [here] at length
      refine ⟨n, counter, ?_⟩
      have old : (Station.calls .polls ph).uncountedSent = 0 := congrArg List.length before
      have new : (Station.calls .polls ph').uncountedSent = 1 := congrArg List.length after
      rw [station_setStation, new, Journal.acts, taken, if_pos rfl]
      rw [old] at length
      exact List.length_append.trans (congrArg (· + 1) length)
    · refine h.goesOn (fun mine => (routine mine).elim) (sent (taken.trans (if_neg ?_))) rfl
      exact (Spot.transmit_ne_of_source does source (place ▸ routine)).symm

theorem owns (h : s.CountsSent) (here : s.station part = .stands x) (place : x.part = part)
    {f : StateM Totals β} (does : x.deed objects = .own f next) (b : β) :
    CountsSent ⟨s.core, (s.setStation part (.stands (next b))).station, owes, (f.run s.totals).2,
      s.journal.owns part.task s.totals (f.run s.totals).2⟩ := by
  cases x <;> cases does
  case tallies m =>
    obtain rfl : Part.transmission = part := place
    obtain ⟨n, counter, length⟩ := h
    rw [here] at length
    refine ⟨n + 1, ?_, ?_⟩
    · exact (congrArg (· + 1) counter).trans (UInt32.ofNat_add n 1).symm
    · rw [station_setStation, Journal.sent_owns]
      exact length
  all_goals exact h.goesOn (fun mine => by cases place.trans mine) (Journal.sent_owns _) rfl

theorem turn (h : s.CountsSent) (tidy : s.Tidy) (turn : s.Turn s') : s'.CountsSent := by
  cases turn with
  | rests => exact h
  | begins part x call next owes here does =>
    exact h.goesOn (fun _ => here ▸ Station.uncountedSent_begins does) rfl rfl
  | acts part x call next a b ph c owes here does may serves result =>
    exact h.acts here (tidy.part_eq here) does (tidy.haul may result)
  | finishes part x call next b ph owes here does ends =>
    exact h.goesOn (fun mine => here ▸
      Station.uncountedSent_finishes ((tidy.part_eq here).trans mine) does ends) rfl rfl
  | owns part x f next owes here does => exact h.owns here (tidy.part_eq here) does _
  | notes part x n next owes here does =>
    refine h.goesOn (fun _ => here ▸ ?_) rfl rfl
    cases x <;> cases does
    rfl
  | kicks x call next ph here does rules off => exact h.goesOn (fun _ => off ▸ rfl) rfl rfl
  | hangsUp owes ended => exact h.goesOn (fun _ => ended ▸ rfl) rfl rfl
  | interrupts => exact h

end CountsSent

def idsOf (s : Scene) (u : TaskId) (part : Part) : List MessageId :=
  if part.task = u then (s.station part).ids else []

def idsOn (s : Scene) (u : TaskId) : List MessageId := Part.all.flatMap (s.idsOf u)

/-- The onlooker knows which buffers are in whose hands. -/
def Handed (s : Scene) : Prop := ∀ u, (s.journal.hands u).Perm (s.idsOn u)

theorem perm_idsOn (s : Scene) (u : TaskId) (part : Part) :
    (s.idsOn u).Perm (s.idsOf u part ++ (Part.all.erase part).flatMap (s.idsOf u)) :=
  ((Part.perm_all part).flatMap_right _).trans .rfl

theorem idsOf_setStation {u : TaskId} :
    Scene.idsOf ⟨c, (s.setStation part new).station, owes, t, j⟩ u part =
      if part.task = u then new.ids else [] := by
  rw [idsOf, station_setStation]

theorem others_setStation {u : TaskId} : (Part.all.erase part).flatMap
    (Scene.idsOf ⟨c, (s.setStation part new).station, owes, t, j⟩ u) =
      (Part.all.erase part).flatMap (s.idsOf u) :=
  List.flatMap_congr fun other h => by
    rw [idsOf, idsOf, station_setStation_of_ne (Part.ne_of_mem_others h)]

namespace Handed

theorem goesOn (h : s.Handed) (mine : new.ids.Perm (s.station part).ids)
    (hands : j.hands = s.journal.hands) :
    Handed ⟨c, (s.setStation part new).station, owes, t, j⟩ := by
  intro u
  refine hands ▸ (h u).trans ((s.perm_idsOn u part).trans (.trans ?_ (perm_idsOn _ u part).symm))
  rw [idsOf_setStation, others_setStation, idsOf]
  refine .append_right _ ?_
  split
  · exact mine.symm
  · exact .rfl

/-- What a section takes is in the hands of its part, and what it puts no longer is. -/
theorem acts (h : s.Handed) (light : (s.station part).Light) {k k' : Kernel}
    (here : s.station part = .calls x ph) (does : x.deed objects = .call call next)
    (haul : Haul k k' call o ph.cargo ph'.cargo) :
    Handed ⟨c, (s.setStation part (.calls x ph')).station, owes, t,
      s.journal.acts part.task o⟩ := by
  intro u
  have old := (h u).trans (s.perm_idsOn u part)
  refine .trans ?_ (perm_idsOn _ u part).symm
  rw [idsOf_setStation, others_setStation]
  rw [idsOf, here] at old
  by_cases mine : part.task = u
  · subst mine
    rw [if_pos rfl] at old ⊢
    refine (List.Perm.of_eq (Journal.hands_acts _)).trans ?_
    rw [here] at light
    rw [Station.ids, Station.hand, List.map_append] at old ⊢
    rw [Outcome.hand]
    generalize before : ph.cargo = cargo, ph'.cargo = cargo' at haul old
    cases haul with
    | still _ _ came went =>
      rw [came, went]
      exact old
    | takes q m source _ _ came went =>
      have keeps : x.keeps = [] := by cases x <;> cases does <;> cases source <;> rfl
      rw [keeps] at old ⊢
      rw [came, went]
      exact old.cons m.id
    | puts q m m' takes hands _ _ came _ =>
      have keeps : x.keeps = [] := by
        rcases light with empty | ⟨carries, -⟩
        · cases before.symm.trans empty
        · exact carries.keeps
      have same : m'.id = m.id := by
        cases x <;> cases does <;> first | exact hands.elim | skip
        all_goals
          cases takes
          exact (congrArg Message.id hands.2).symm
      rw [keeps] at old ⊢
      rw [came]
      dsimp only
      rw [same]
      exact (old.erase m.id).trans (.of_eq (List.erase_cons_head ..))
  · rw [if_neg mine] at old ⊢
    exact (List.Perm.of_eq (Journal.hands_acts_of_ne _ (Ne.symm mine))).trans old

theorem turn (h : s.Handed) (tidy : s.Tidy) (drains : s.Drains) (turn : s.Turn s') : s'.Handed := by
  cases turn with
  | rests => exact h
  | begins part x call next owes here does =>
    refine h.goesOn ?_ rfl
    have hand : (Station.stands x).hand = call.takes ++ x.keeps := Spot.hand_of_call does
    rw [here, Station.ids, Station.ids, hand, Station.hand]
    exact List.perm_append_comm.map _
  | acts part x call next a b ph c owes here does may serves result =>
    exact h.acts (drains.light part) here does (tidy.haul may result)
  | finishes part x call next b ph owes here does ends =>
    refine h.goesOn (.of_eq ?_) rfl
    rw [here]
    exact Station.ids_finishes (here ▸ drains.light part) does ends
  | owns part x f next owes here does =>
    refine h.goesOn (.of_eq ?_) (Journal.hands_owns _)
    rw [here]
    exact congrArg (List.map Message.id) (Spot.hand_of_own does _)
  | notes part x n next owes here does =>
    refine h.goesOn (.of_eq ?_) rfl
    rw [here]
    exact congrArg (List.map Message.id) (Spot.hand_of_note does)
  | kicks x call next ph here does rules off => exact h.goesOn (off ▸ .rfl) rfl
  | hangsUp owes ended => exact h.goesOn (ended ▸ .rfl) rfl
  | interrupts => exact h

end Handed

end Scene

end Rtos
