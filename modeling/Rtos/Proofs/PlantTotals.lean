import Rtos.Proofs.Holding
import Rtos.Proofs.PlantStream

/-!
# The totals

The mutex of the totals is held by the part that works on them, the filter or the monitor, and by
nobody else. So the two counters agree whenever one of the two begins: what the filter has added since
the last report is in both. What the monitor takes is the tally of these samples.
-/

namespace Rtos

open Pipeline

namespace KernelCall

def locks {γ : Type} : KernelCall γ → Option MutexId
  | lockUntilClaimed m => some m
  | _ => none

def unlocks {γ : Type} : KernelCall γ → Option MutexId
  | unlock m => some m
  | _ => none

namespace May

variable {me : TaskId} {β γ : Type} {call : KernelCall γ} {ph : Phase} {a : Action β} {b : β}
  {m : MutexId}

theorem unlocks_eq (h : call.May me ph a) : a.unlocks = call.unlocks := by
  cases h <;> rfl

theorem fresh (h : call.May me ph a) (unlocks : call.unlocks = some m) : ph.last = none := by
  cases h <;> cases unlocks
  rfl

theorem not_claimed (h : call.May me ph a) (locks : call.locks = some m) {w : Waitable} :
    ph.last.bind Outcome.tried ≠ some (w, .claimed) := by
  intro claimed
  cases h <;> cases locks
  case locks => cases claimed
  case relocks blocked =>
    rw [Phase.blocked, claimed] at blocked
    cases blocked

theorem claims_ne (h : call.May me ph a) (none : call.locks = none) :
    a.claims b ≠ some (.mutex m) := by
  rw [ne_eq, Action.claims_eq_some]
  intro claims
  cases h
  case locks => cases none
  case relocks => cases none
  all_goals cases claims

end May

end KernelCall

/-- The part works on the totals, and leaves them in a state that does not mean anything. -/
def Spot.Works : Spot → Prop
  | adds .. | counts _ | takesSamples | takesSum _ => True
  | _ => False

namespace Station

/-- The part holds the mutex of the totals. -/
def Owns : Station → Prop
  | calls (.enters ..) ph | calls .opens ph =>
    ph.last.bind Outcome.tried = some (.mutex objects.totals, .claimed)
  | calls (.leaves _) ph | calls (.closes ..) ph => ph.last = none
  | stands (.leaves _) | stands (.closes ..) => True
  | stands x | calls x _ => x.Works

variable {station : Station} {x next : Spot} {ph : Phase} {β γ : Type}

theorem Owns.part (h : station.Owns) : station.spot.part = .filter ∨ station.spot.part = .monitor := by
  cases station with
  | stands x => cases x <;> first | exact .inl rfl | exact .inr rfl | exact h.elim
  | calls x ph => cases x <;> first | exact .inl rfl | exact .inr rfl | exact h.elim

theorem Owns.of_works (h : station.spot.Works) : station.Owns := by
  cases station with
  | stands x => cases x <;> first | exact h.elim | trivial
  | calls x ph => cases x <;> first | exact h.elim | trivial

theorem not_owns_filled (reading : UInt32) (m : TaggedMessage) :
    ¬ (stands (Spot.filled reading m)).Owns := by
  unfold Spot.filled
  split <;> exact id

theorem not_owns_read (m : TaggedMessage) : ¬ (stands (Spot.read m)).Owns := by
  unfold Spot.read
  split <;> exact id

section Calls

variable {call : KernelCall β} {next : β → Spot} (does : x.deed objects = .call call next)
include does

theorem owns_begins : (calls x { cargo := call.takes }).Owns ↔ (stands x).Owns := by
  cases x <;> cases does
  case enters => exact ⟨nofun, False.elim⟩
  case opens => exact ⟨nofun, False.elim⟩
  case leaves => exact iff_of_true rfl trivial
  case closes => exact iff_of_true rfl trivial
  all_goals exact .rfl

theorem owns_finishes {b : β} (ends : call.Ends b ph) : (stands (next b)).Owns ↔ (calls x ph).Owns := by
  cases x <;> cases does
  case enters => exact iff_of_true trivial ends
  case opens => exact iff_of_true trivial ends
  case leaves => exact iff_of_false id (Option.isSome_iff_ne_none.1 ends)
  case closes => exact iff_of_false id (Option.isSome_iff_ne_none.1 ends)
  case asks =>
    cases b with
    | none => exact .rfl
    | some m => exact iff_of_false (not_owns_filled _ m) id
  case awaits =>
    cases b with
    | none => exact .rfl
    | some m => exact iff_of_false (not_owns_read m) id
  case polls => cases b <;> exact .rfl
  all_goals exact .rfl

variable {me : TaskId} {a : Action γ} {b : γ} (may : call.May me ph a)
include may

theorem owns_iff_unlocks : (calls x ph).Owns ↔ a.unlocks = some objects.totals := by
  rw [may.unlocks_eq]
  cases x <;> cases does
  case enters => exact iff_of_false (may.not_claimed rfl) nofun
  case opens => exact iff_of_false (may.not_claimed rfl) nofun
  case leaves => exact iff_of_true (may.fresh rfl) rfl
  case closes => exact iff_of_true (may.fresh rfl) rfl
  all_goals exact ⟨False.elim, nofun⟩

theorem owns_iff_claims : (calls x (ph.after ⟨a, b⟩)).Owns ↔
    a.claims b = some (.mutex objects.totals) := by
  cases x <;> cases does
  case enters => exact Action.claims_eq_some.symm
  case opens => exact Action.claims_eq_some.symm
  case leaves => exact ⟨nofun, fun claims => (may.claims_ne rfl claims).elim⟩
  case closes => exact ⟨nofun, fun claims => (may.claims_ne rfl claims).elim⟩
  all_goals exact ⟨False.elim, fun claims => (may.claims_ne rfl claims).elim⟩

end Calls

theorem owns_owns {f : StateM Totals β} {next : β → Spot} (does : x.deed objects = .own f next) (b : β) :
    (stands (next b)).Owns ↔ (stands x).Owns := by
  cases x <;> cases does <;> exact .rfl

end Station

namespace Scene

/-- The mutex of the totals is held by the part that works on them. -/
structure Guarded (s : Scene) : Prop where
  owner : ∀ part, (s.station part).Owns →
    s.core.kernel.hold objects.totals = (some part.task, 1)
  free : (∀ part, ¬ (s.station part).Owns) → s.core.kernel.hold objects.totals = (none, 0)

namespace Guarded

variable {s s' : Scene} {part other : Part} {new : Station} {c : Core} {owes : Prop} {t : Totals}
  {j : Journal}

theorem eq_of_task (mine : part = .filter ∨ part = .monitor) (yours : other = .filter ∨ other = .monitor)
    (task : other.task = part.task) : other = part := by
  rcases mine with rfl | rfl <;> rcases yours with rfl | rfl
  · rfl
  · exact absurd task (by decide)
  · exact absurd task (by decide)
  · rfl

theorem part_of_owns (tidy : s.Tidy) (mine : (s.station part).Owns) :
    part = .filter ∨ part = .monitor := tidy.places part ▸ mine.part

theorem alone (h : s.Guarded) (tidy : s.Tidy) (mine : (s.station part).Owns)
    (yours : (s.station other).Owns) : other = part := by
  have task := Option.some.inj (Prod.mk.inj ((h.owner other yours).symm.trans (h.owner part mine))).1
  exact eq_of_task (part_of_owns tidy mine) (part_of_owns tidy yours) task

theorem goesOn (h : s.Guarded) (same : new.Owns ↔ (s.station part).Owns)
    (hold : c.kernel.hold objects.totals = s.core.kernel.hold objects.totals) :
    Guarded ⟨c, (s.setStation part new).station, owes, t, j⟩ := by
  have owns (other : Part) : ((s.setStation part new).station other).Owns ↔ (s.station other).Owns := by
    by_cases is : other = part
    · rw [is, station_setStation, same]
    · rw [station_setStation_of_ne is]
  exact ⟨fun other mine => hold.trans (h.owner other ((owns other).1 mine)),
    fun free => hold.trans (h.free fun other mine => free other ((owns other).2 mine))⟩

/-- A section of a part locks the mutex, unlocks it or leaves it alone. -/
theorem acts (h : s.Guarded) (tidy : s.Tidy) {x : Spot} {ph : Phase} {β γ : Type}
    {call : KernelCall β} {next : β → Spot} {a : Action γ} {b : γ} (here : s.station part = .calls x ph)
    (does : x.deed objects = .call call next) (may : call.May part.task ph a)
    (serves : s.core.kernel.Serves part.task) (result : a.toSection s.core = .ok b c) :
    Guarded ⟨c, (s.setStation part (.calls x (ph.after ⟨a, b⟩))).station, owes, t, j⟩ := by
  have before : (s.station part).Owns ↔ a.unlocks = some objects.totals :=
    here ▸ Station.owns_iff_unlocks does may
  have after : (Station.calls x (ph.after ⟨a, b⟩)).Owns ↔ a.claims b = some (.mutex objects.totals) :=
    Station.owns_iff_claims does may
  have aside (claims : a.claims b ≠ some (.mutex objects.totals))
      (unlocks : a.unlocks ≠ some objects.totals)
      (hold : c.kernel.hold objects.totals = s.core.kernel.hold objects.totals) :
      Guarded ⟨c, (s.setStation part (.calls x (ph.after ⟨a, b⟩))).station, owes, t, j⟩ :=
    h.goesOn
      (iff_of_false (fun h => claims (after.1 h)) fun h => unlocks (before.1 h)) hold
  have others {other : Part} (is : other ≠ part)
      (yours : ((s.setStation part (.calls x (ph.after ⟨a, b⟩))).station other).Owns) :
      (s.station other).Owns := by
    rwa [station_setStation_of_ne is] at yours
  have place : x.part = part := tidy.part_eq here
  have goesOn : (s.setStation part (.calls x (ph.after ⟨a, b⟩))).station part =
      .calls x (ph.after ⟨a, b⟩) := station_setStation
  -- Only a section that locks or unlocks this very mutex is not put aside.
  cases Action.objectStep result with
  | alike claims unlocks _ alike =>
    refine aside (claims _) ?_ (alike.holds _)
    rw [unlocks]
    rintro ⟨⟩
  | creates _ _ claims unlocks _ _ _ mutexes =>
    refine aside ?_ ?_ (by rw [Kernel.hold, Kernel.hold, mutexes])
    · rw [claims]
      rintro ⟨⟩
    · rw [unlocks]
      rintro ⟨⟩
  | locks m me claims unlocks _ who free _ hold same =>
    have mine : ¬ (s.station part).Owns := fun mine => by
      cases unlocks.symm.trans (before.1 mine)
    by_cases is : objects.totals = m
    · subst is
      obtain rfl : me = part.task := by
        rcases who with current | locker
        · exact Option.some.inj (current.symm.trans serves.2)
        · cases may <;> cases locker
          rfl
      have inside : part = .filter ∨ part = .monitor := place ▸ (after.2 claims).part
      have nobody (other : Part) : ¬ (s.station other).Owns := by
        intro yours
        rw [h.owner other yours] at free
        rcases free with free | same
        · exact absurd free (by decide : (1 : UInt32) ≠ 0)
        · have is : other = part := eq_of_task inside (part_of_owns tidy yours) (Option.some.inj same)
          exact mine (is ▸ yours)
      rw [h.free nobody] at hold
      refine ⟨fun other yours => ?_, fun free => ?_⟩
      · by_cases is : other = part
        · rw [is]
          exact hold
        · exact (nobody other (others is yours)).elim
      · exact (free part (goesOn.symm ▸ after.2 claims)).elim
    · refine aside ?_ ?_ (same _ is)
      · rw [claims]
        exact fun h => is (Waitable.mutex.inj (Option.some.inj h)).symm
      · rw [unlocks]
        rintro ⟨⟩
  | unlocks m me claims unlocks _ current owner held hold same =>
    by_cases is : objects.totals = m
    · subst is
      have mine := before.2 unlocks
      rw [h.owner part mine] at hold
      dsimp only at hold
      rw [if_pos rfl, UInt32.sub_self] at hold
      have nobody (other : Part) :
          ¬ ((s.setStation part (.calls x (ph.after ⟨a, b⟩))).station other).Owns := by
        intro yours
        by_cases is : other = part
        · rw [is, goesOn] at yours
          cases claims.symm.trans (after.1 yours)
        · exact is (h.alone tidy mine (others is yours))
      exact ⟨fun other yours => (nobody other yours).elim, fun _ => hold⟩
    · refine aside ?_ ?_ (same _ is)
      · rw [claims]
        rintro ⟨⟩
      · rw [unlocks]
        exact fun h => is (Option.some.inj h).symm

theorem turn (h : s.Guarded) (tidy : s.Tidy) (turn : s.Turn s') : s'.Guarded := by
  -- The routine does not work on the totals.
  have routine {x y : Spot} (here : s.station .transmission = .stands x) (old : ¬ (Station.stands x).Owns)
      (new : ¬ (Station.stands y).Owns) :
      (Station.stands y).Owns ↔ (s.station .transmission).Owns := by
    rw [here]
    exact iff_of_false new old
  cases turn with
  | rests c owes still keeps => exact ⟨still ▸ h.owner, still ▸ h.free⟩
  | begins part x call next owes here does =>
    exact h.goesOn (here ▸ Station.owns_begins does) rfl
  | acts part x call next a b ph c owes here does may serves result =>
    exact h.acts tidy here does may serves result
  | finishes part x call next b ph owes here does ends =>
    exact h.goesOn (here ▸ Station.owns_finishes does ends) rfl
  | owns part x f next owes here does => exact h.goesOn (here ▸ Station.owns_owns does _) rfl
  | notes part x n next owes here does =>
    refine h.goesOn ?_ rfl
    rw [here]
    cases x <;> cases does
    exact .rfl
  | kicks x call next ph here does rules off => exact h.goesOn (routine off id id) rfl
  | hangsUp owes ended => exact h.goesOn (routine ended id id) rfl
  | interrupts a b c port result =>
    have alike : s.core.kernel.Alike c.kernel := by
      cases a with
      | tick | switch =>
        cases Action.objectStep result with
        | alike _ _ _ alike => exact alike
        | creates _ _ _ _ creates => cases creates
        | locks _ _ claims => cases claims
        | unlocks _ _ _ unlocks => cases unlocks
      | _ => cases port
    exact ⟨fun part mine => (alike.holds _).trans (h.owner part mine),
      fun free => (alike.holds _).trans (h.free free)⟩

end Guarded

end Scene

/-- Samples that are in the sum and not in the count yet. -/
def Station.uncounted : Station → UInt32
  | stands (.counts _) => 1
  | _ => 0

/-- What the monitor knows at the spot: `told` are the samples of the report that it works on, `rest`
those that were added since, and `taken` what it took out of the totals. -/
def Spot.Reports (told rest : List UInt32) (taken : UInt32 × UInt32) (sum : UInt32) : Spot → Prop
  | takesSum samples =>
    rest = [] ∧ taken = (samples, 0) ∧ samples = (tally told).1 ∧ sum = (tally told).2
  | closes samples total | looksSent samples total | looksSwitches samples total _
  | tells samples total _ _ =>
    taken = (samples, total) ∧ taken = tally told ∧ sum = (tally rest).2
  | _ => told = [] ∧ taken = (0, 0) ∧ sum = (tally rest).2

section Calls

variable {x : Spot} {β : Type} {call : KernelCall β} {next : β → Spot}
  (does : x.deed objects = .call call next) (b : β)
include does

theorem Station.uncounted_finishes : (stands (next b)).uncounted = 0 := by
  cases x <;> cases does
  case asks =>
    cases b with
    | none => rfl
    | some m =>
      dsimp only [Spot.filled]
      split <;> rfl
  case awaits =>
    cases b with
    | none => rfl
    | some m =>
      dsimp only [Spot.read]
      split <;> rfl
  case polls => cases b <;> rfl
  all_goals rfl

theorem Spot.Reports.finishes {told rest : List UInt32} {taken : UInt32 × UInt32} {sum : UInt32}
    (h : x.Reports told rest taken sum) : (next b).Reports told rest taken sum := by
  cases x <;> cases does
  case asks =>
    cases b with
    | none => exact h
    | some m =>
      dsimp only [filled]
      split <;> exact h
  case awaits =>
    cases b with
    | none => exact h
    | some m =>
      dsimp only [read]
      split <;> exact h
  case polls => cases b <;> exact h
  all_goals exact h

end Calls

theorem Spot.Reports.adds {x : Spot} {told rest : List UInt32} {taken : UInt32 × UInt32} {sum : UInt32}
    (h : x.Reports told rest taken sum) (idle : ¬ x.Works) (v : UInt32) :
    x.Reports told (rest ++ [v]) taken (sum + v) := by
  cases x
  case takesSum => exact (idle trivial).elim
  all_goals exact ⟨h.1, h.2.1, by rw [tally_concat, h.2.2]⟩

theorem Spot.Reports.settled {x : Spot} {told rest : List UInt32} {taken : UInt32 × UInt32}
    {sum : UInt32} (h : x.Reports told rest taken sum) (idle : ¬ x.Works) :
    taken = tally told ∧ sum = (tally rest).2 := by
  cases x
  case takesSum => exact (idle trivial).elim
  case closes => exact h.2
  case looksSent => exact h.2
  case looksSwitches => exact h.2
  case tells => exact h.2
  all_goals
    obtain ⟨rfl, taken, sum⟩ := h
    exact ⟨taken, sum⟩

theorem Station.uncounted_eq {station : Station} (idle : ¬ station.spot.Works) : station.uncounted = 0 := by
  cases station with
  | stands x => cases x <;> first | rfl | exact (idle trivial).elim
  | calls x ph => rfl

namespace Scene

/-- What was added has been told in reports, is part of the report under way, or is in the totals. -/
structure Tallied (reported : List (List UInt32)) (told rest : List UInt32) (s : Scene) : Prop where
  added : s.journal.added = reported.flatten ++ told ++ rest
  reports : s.journal.reports.map Prod.fst = reported.map tally
  /-- A report says what was taken for it. -/
  figures : ∀ r ∈ s.journal.reports, ∃ sent switches,
    r.2 = .report r.1.1 (r.1.2 / r.1.1) sent switches
  samples : s.totals.samples + (s.station .filter).uncounted = (tally rest).1
  monitor : (s.station .monitor).spot.Reports told rest s.journal.taken s.totals.sum

/-- The totals are the tally of what was added since the last report. -/
def Tallies (s : Scene) : Prop := ∃ reported told rest, s.Tallied reported told rest

namespace Tallied

variable {s s' : Scene} {part : Part} {new : Station} {c : Core} {owes : Prop} {t : Totals} {j : Journal}
  {reported : List (List UInt32)} {told rest : List UInt32} {x : Spot} {β : Type}

theorem goesOn (h : s.Tallied reported told rest)
    (uncounted : new.uncounted = (s.station part).uncounted)
    (monitor : (s.station part).spot.Reports told rest s.journal.taken s.totals.sum →
      new.spot.Reports told rest s.journal.taken s.totals.sum) (added : j.added = s.journal.added)
    (taken : j.taken = s.journal.taken) (reports : j.reports = s.journal.reports)
    (sum : t.sum = s.totals.sum) (samples : t.samples = s.totals.samples) :
    Tallied reported told rest ⟨c, (s.setStation part new).station, owes, t, j⟩ where
  added := added.trans h.added
  reports := reports ▸ h.reports
  figures := reports ▸ h.figures
  samples := by
    dsimp only
    rw [samples]
    by_cases is : .filter = part
    · rw [← is] at uncounted ⊢
      rw [station_setStation, uncounted]
      exact h.samples
    · rw [station_setStation_of_ne is]
      exact h.samples
  monitor := by
    dsimp only
    rw [taken, sum]
    by_cases is : .monitor = part
    · rw [← is] at monitor ⊢
      rw [station_setStation]
      exact monitor h.monitor
    · rw [station_setStation_of_ne is]
      exact h.monitor

theorem finishes (h : s.Tallied reported told rest) {ph : Phase} {call : KernelCall β}
    {next : β → Spot} (b : β) (here : s.station part = .calls x ph)
    (does : x.deed objects = .call call next) :
    Tallied reported told rest ⟨s.core, (s.setStation part (.stands (next b))).station, owes, s.totals,
      s.journal⟩ := by
  refine h.goesOn ?_ (fun reports => ?_) rfl rfl rfl rfl rfl
  · rw [here]
    exact Station.uncounted_finishes does b
  · rw [here] at reports
    exact reports.finishes does b

theorem owns (h : s.Tallied reported told rest) (guarded : s.Guarded) (tidy : s.Tidy)
    (here : s.station part = .stands x) {f : StateM Totals β} {next : β → Spot}
    (does : x.deed objects = .own f next) : Tallies ⟨s.core,
      (s.setStation part (.stands (next (f.run s.totals).1))).station, owes, (f.run s.totals).2,
      s.journal.owns part.task s.totals (f.run s.totals).2⟩ := by
  have place : x.part = part := tidy.part_eq here
  have others {other : Part} (ne : other ≠ part) {new : Station} :
      (s.setStation part new).station other = s.station other := station_setStation_of_ne ne
  have alone {other : Part} (ne : other ≠ part) (mine : (Station.stands x).Owns) :
      ¬ (s.station other).Owns := fun yours => ne (guarded.alone tidy (here ▸ mine) yours)
  obtain ⟨added, reports, figures, samples, monitor⟩ := id h
  -- The filter and the monitor work on the totals with the mutex, so never both at once.
  cases x <;> cases does
  case adds m value =>
    obtain rfl : Part.filter = part := place
    rw [here] at samples
    have adds : s.journal.owns Part.filter.task s.totals ((addValue value).run s.totals).2 =
        { s.journal with added := s.journal.added ++ [value] } := s.journal.owns_adds
    rw [adds]
    refine ⟨reported, told, rest ++ [value], ?_, reports, figures, ?_, ?_⟩
    · exact (congrArg (· ++ [value]) added).trans (List.append_assoc ..)
    · have count : s.totals.samples = (tally rest).1 := (UInt32.add_zero _).symm.trans samples
      rw [station_setStation, tally_concat, ← count]
      rfl
    · rw [others (by decide)]
      have idle : ¬ (s.station .monitor).spot.Works :=
        fun works => alone (by decide) trivial (.of_works works)
      exact monitor.adds idle value
  case counts m =>
    obtain rfl : Part.filter = part := place
    rw [here] at samples
    have still : s.journal.owns Part.filter.task s.totals (countSample.run s.totals).2 = s.journal :=
      s.journal.owns_counts
    rw [still]
    refine ⟨reported, told, rest, added, reports, figures, ?_, ?_⟩
    · rw [station_setStation]
      exact (UInt32.add_zero _).trans samples
    · rw [others (by decide)]
      exact monitor
  case takesSamples =>
    obtain rfl : Part.monitor = part := place
    rw [here] at monitor
    obtain ⟨rfl, taken, sum⟩ := monitor
    have counted : (s.station .filter).uncounted = 0 :=
      Station.uncounted_eq fun works => alone (by decide) trivial (.of_works works)
    rw [counted, UInt32.add_zero] at samples
    have takes : s.journal.owns Part.monitor.task s.totals (takeSamples.run s.totals).2 =
        { s.journal with taken := (s.totals.samples, 0) } := s.journal.owns_takesSamples taken
    rw [takes]
    refine ⟨reported, rest, [], ?_, reports, figures, ?_, ?_⟩
    · rw [List.append_nil, ← List.append_nil reported.flatten]
      exact added
    · rw [others (by decide), counted]
      rfl
    · rw [station_setStation]
      exact ⟨rfl, rfl, samples, sum⟩
  case takesSum count =>
    obtain rfl : Part.monitor = part := place
    rw [here] at monitor
    obtain ⟨rfl, taken, counted, sum⟩ := monitor
    have takes : s.journal.owns Part.monitor.task s.totals (takeSum.run s.totals).2 =
        { s.journal with taken := (count, s.totals.sum) } := s.journal.owns_takesSum taken
    rw [takes]
    refine ⟨reported, told, [], added, reports, figures, ?_, ?_⟩
    · rw [others (by decide)]
      exact samples
    · rw [station_setStation]
      exact ⟨rfl, Prod.ext counted sum, rfl⟩
  case looksSent samples sum =>
    obtain rfl : Part.monitor = part := place
    have still : s.journal.owns Part.monitor.task s.totals (sent.run s.totals).2 = s.journal :=
      s.journal.owns_looks
    rw [still]
    exact ⟨reported, told, rest, h.goesOn (by rw [here]; rfl) (by rw [here]; exact id) rfl rfl rfl rfl rfl⟩
  case tallies m =>
    obtain rfl : Part.transmission = part := place
    have still : s.journal.owns Part.transmission.task s.totals (countSent.run s.totals).2 = s.journal :=
      s.journal.owns_tallies
    rw [still]
    exact ⟨reported, told, rest, h.goesOn (by rw [here]; rfl) (by rw [here]; exact id) rfl rfl rfl rfl rfl⟩

theorem turn (h : s.Tallied reported told rest) (guarded : s.Guarded) (tidy : s.Tidy)
    (turn : s.Turn s') : s'.Tallies := by
  cases turn with
  | rests c owes still keeps =>
    exact ⟨reported, told, rest, h.added, h.reports, h.figures, h.samples, h.monitor⟩
  | begins part x call next owes here does =>
    refine ⟨reported, told, rest, h.goesOn ?_ (by rw [here]; exact id) rfl rfl rfl rfl rfl⟩
    rw [here]
    cases x <;> cases does <;> rfl
  | acts part x call next a b ph c owes here does may serves result =>
    exact ⟨reported, told, rest,
      h.goesOn (by rw [here]; rfl) (by rw [here]; exact id) rfl rfl rfl rfl rfl⟩
  | finishes part x call next b ph owes here does ends =>
    exact ⟨reported, told, rest, h.finishes b here does⟩
  | owns part x f next owes here does => exact h.owns guarded tidy here does
  | notes part x n next owes here does =>
    have place := tidy.part_eq here
    obtain ⟨added, reports, figures, samples, monitor⟩ := h
    cases x <;> cases does
    obtain rfl : Part.monitor = part := place
    rw [here] at monitor
    obtain ⟨taken, tallied, sum⟩ := monitor
    -- The report is told.
    refine ⟨reported ++ [told], [], rest, ?_, ?_, ?_, ?_, ?_⟩
    · rw [List.flatten_append, List.flatten_singleton, List.append_nil]
      exact added
    · rw [Journal.notes, List.map_append, List.map_append, reports]
      exact congrArg (reported.map tally ++ [·]) tallied
    · refine List.forall_mem_append.2 ⟨figures, List.forall_mem_singleton.2 ?_⟩
      rw [taken]
      exact ⟨_, _, rfl⟩
    · rw [station_setStation_of_ne (by decide)]
      exact samples
    · rw [station_setStation]
      exact ⟨rfl, rfl, sum⟩
  | kicks x call next ph here does rules off =>
    exact ⟨reported, told, rest,
      h.goesOn (by rw [off]; rfl) (by rw [off]; exact id) rfl rfl rfl rfl rfl⟩
  | hangsUp owes ended =>
    exact ⟨reported, told, rest,
      h.goesOn (by rw [ended]; rfl) (by rw [ended]; exact id) rfl rfl rfl rfl rfl⟩
  | interrupts a b c port result =>
    exact ⟨reported, told, rest, h.added, h.reports, h.figures, h.samples, h.monitor⟩

end Tallied

end Scene

end Rtos
