import Rtos.Proofs.PlantCalls
import Rtos.Proofs.Tickets

/-!
# Turns of the plant

In a run of the plant the kernel stays furnished and every call under way obeys its rules. So what a
call does next can be told without its program: a `Scene` is the plant without programs, and a step of
a run is a `Turn` of its scene, of which it is known which section is carried out or how the call ends.
-/

namespace Rtos

open Pipeline

namespace Plant

variable {p p' : Plant} {part : Part} {s : System}

def hands (p : Plant) (parts : List Part) : List Message := parts.flatMap fun part => (p.jobs part).hand

theorem perm_hands (parts : List Part) :
    ((p.openCalls parts).flatMap (·.phase.cargo) ++ p.pockets parts).Perm (p.hands parts) := by
  induction parts with
  | nil => exact .rfl
  | cons part parts ih =>
    rw [hands, List.flatMap_cons]
    refine .trans ?_ (ih.append_left _)
    rw [openCalls, List.filterMap_cons, pockets, List.flatMap_cons]
    cases job : p.jobs part with
    | stands x => exact List.perm_append_comm_assoc _ _ _
    | calls x call next rest ph =>
      simp only [Job.openCall, List.flatMap_cons, Job.pocket, Job.hand, List.append_assoc]
      refine .trans (.append_left _ (List.perm_append_comm_assoc _ _ _)) ?_
      exact List.perm_append_comm_assoc _ _ _

theorem Shows.holders (shows : p.Shows s) : s.holders.Perm (p.hands Part.all) :=
  ((shows.calls.flatMap_right _).append shows.held).trans (perm_hands _)

theorem mem_hands {m : Message} (h : m ∈ (p.jobs part).hand) : m ∈ p.hands Part.all :=
  List.mem_flatMap.2 ⟨part, Part.mem_all part, h⟩

theorem Runs.order (h : p.Runs) : p.core.kernel.QueuesInOrder := by
  obtain ⟨s, reachable, shows⟩ := h.shown
  exact shows.core ▸ reachable.accounts.guarded.order

theorem Runs.homes (h : p.Runs) (part : Part) (furnished : p.core.kernel.Furnished) :
    ∀ m ∈ (p.jobs part).hand, m.home = objects.pool := by
  intro m hm
  obtain ⟨s, reachable, shows⟩ := h.shown
  have home := (reachable.accounts.conserved reachable.inContract).homes m
    (shows.holders.mem_iff.2 (mem_hands hm))
  rw [shows.core] at home
  exact furnished.home home

/-- Every call under way obeys its rules, and the kernel has what they ask for. -/
structure Ruled (p : Plant) : Prop where
  furnished : p.core.kernel.Furnished
  obeys : ∀ (part : Part) (x : Spot) {β : Type} (call : KernelCall β) (next : β → Spot)
    (rest : Program Unit β) (ph : Phase), p.jobs part = .calls x call next rest ph →
      Obeys part.task call rest call.Ends ph

namespace Ruled

theorem starts (clock : Clock) : (started clock).Ruled where
  furnished := furnished_started clock
  obeys part _ _ _ _ _ _ here := by cases part <;> cases here

theorem setJob {c : Core} {t : Totals} {j : Journal} {log : List Record} {job : Job} (h : p.Ruled)
    (furnished : c.kernel.Furnished) (obeys : ∀ (x : Spot) {β : Type} (call : KernelCall β)
      (next : β → Spot) (rest : Program Unit β) (ph : Phase), job = .calls x call next rest ph →
        Obeys part.task call rest call.Ends ph) :
    Ruled ⟨c, (p.setJob part job).jobs, t, j, log⟩ where
  furnished := furnished
  obeys other x β call next rest ph here := by
    by_cases same : other = part
    · subst same
      rw [jobs_setJob] at here
      exact obeys x call next rest ph here
    · rw [jobs_setJob_of_ne same] at here
      exact h.obeys other x call next rest ph here

theorem stands {t : Totals} {j : Journal} {log : List Record} {x : Spot} (h : p.Ruled) :
    Ruled ⟨p.core, (p.setJob part (.stands x)).jobs, t, j, log⟩ :=
  h.setJob h.furnished fun _ _ _ _ _ _ same => nomatch same

theorem step (h : p.Ruled) (runs : p.Runs) (step : Step p p') : p'.Ruled := by
  have keeps {γ : Type} {a : Action γ} {b : γ} {c : Core} (result : a.toSection p.core = .ok b c)
      (keeps : a.furnishes = false) : c.kernel.Furnished := h.furnished.step runs.order result keeps
  cases step with
  | begins part x call next up here does =>
    refine h.setJob h.furnished fun _ _ _ _ _ _ same => ?_
    cases same
    refine Spot.obeys _ does fun m hm => ?_
    refine runs.homes part h.furnished m ?_
    rw [here]
    exact hm
  | replies part x call next r rest ph b c up here plain answer =>
    refine h.setJob (answer.kernel_eq ▸ h.furnished) fun _ _ _ _ _ _ same => ?_
    cases same
    exact (h.obeys _ _ _ _ _ _ here).reply answer
  | acts part x call next a rest ph b c up here result =>
    have obeys := h.obeys _ _ _ _ _ _ here
    have furnishes : a.furnishes = false := by cases obeys.1 <;> rfl
    refine h.setJob (keeps result furnishes) fun _ _ _ _ _ _ same => ?_
    cases same
    exact (obeys.2 _ _ _ ⟨h.furnished, up⟩ result).2
  | unrolls part x call next body t rest ph up here =>
    refine h.setJob h.furnished fun _ _ _ _ _ _ same => ?_
    cases same
    exact (h.obeys _ _ _ _ _ _ here).unroll
  | finishes => exact h.stands
  | owns => exact h.stands
  | notes => exact h.stands
  | kicks => exact h.stands
  | hangsUp x call next data rest ph up here ended =>
    have off : (p.setJob .transmission (.stands .off)).Ruled := h.stands
    refine off.setJob h.furnished fun _ _ _ _ _ _ same => ?_
    cases same
    exact (h.obeys _ _ _ _ _ _ here).2
  | ticks u c result => exact ⟨keeps (a := .tick) result rfl, h.obeys⟩
  | switches sp resumed c result => exact ⟨keeps (a := .switch sp) result rfl, h.obeys⟩
  | elapses clock => exact ⟨h.furnished, h.obeys⟩

end Ruled

theorem Runs.ruled (h : p.Runs) : p.Ruled := by
  induction h with
  | starts clock => exact .starts clock
  | step before step ih => exact ih.step before step

end Plant

theorem Program.Owes.reply {α β : Type} {r : Request Unit β} {next : β → Program Unit α}
    (h : (Program.ask r next).Owes) (plain : (Program.ask r next).isAtRoutine = false) (b : β) :
    (next b).Owes := by
  cases r <;> first | exact h _ | exact nomatch plain

/-- What a part does, whatever is left of the program of its call. -/
inductive Station : Type 1
  | stands (x : Spot)
  | calls (x : Spot) (phase : Phase)

namespace Station

def spot : Station → Spot
  | stands x | calls x _ => x

def hand : Station → List Message
  | stands x => x.hand
  | calls x ph => x.keeps ++ ph.cargo

end Station

namespace Job

def station : Job → Station
  | stands x => .stands x
  | calls x _ _ _ ph => .calls x ph

def Owes : Job → Prop
  | stands _ => False
  | calls _ _ _ rest _ => rest.Owes

@[simp] theorem hand_station (job : Job) : job.station.hand = job.hand := by cases job <;> rfl

@[simp] theorem spot_station (job : Job) : job.station.spot = job.spot := by cases job <;> rfl

end Job

/-- The plant without the programs of the calls under way. -/
structure Scene where
  core : Core
  station : Part → Station
  /-- Whether the call of the filter has to run the routine of the transmit queue. -/
  owes : Prop
  totals : Totals
  journal : Journal

namespace Scene

variable (s : Scene)

def setStation (part : Part) (station : Station) : Scene :=
  { s with station := Function.update s.station part station }

def Frees (part : Part) : Prop := part = .filter → s.station .transmission = .stands .off

variable {s : Scene} {part : Part} {station : Station}

@[simp] theorem station_setStation : (s.setStation part station).station part = station := Function.update_self ..

theorem station_setStation_of_ne {other : Part} (h : other ≠ part) :
    (s.setStation part station).station other = s.station other := Function.update_of_ne h ..

theorem forall_setStation {P : Station → Prop} (h : ∀ part, P (s.station part)) (part : Part) {station : Station}
    (hs : P station) (other : Part) : P ((s.setStation part station).station other) := by
  by_cases same : other = part
  · rwa [same, station_setStation]
  · rw [station_setStation_of_ne same]
    exact h other

end Scene

def Plant.scene (p : Plant) : Scene where
  core := p.core
  station part := (p.jobs part).station
  owes := (p.jobs .filter).Owes
  totals := p.totals
  journal := p.journal

/-- Whether the section is one of the port, which comes in at any moment. -/
def Action.interrupts {β : Type} : Action β → Bool
  | tick | switch _ => true
  | _ => false

/-- What holds of the scene of a run because it is one of a system. -/
structure Scene.Tidy (s : Scene) : Prop where
  furnished : s.core.kernel.Furnished
  order : s.core.kernel.QueuesInOrder
  /-- A driver queue counts its messages. -/
  counts : ∀ (q : QueueId) queue d, s.core.kernel.queues[q.index]? = some queue →
    queue.discipline = .driver d → d.count.toNat = (s.core.kernel.queued q).length
  homes : ∀ part, ∀ m ∈ (s.station part).hand, m.home = objects.pool
  /-- Each part is in its code. -/
  places : ∀ part, (s.station part).spot.part = part

theorem Scene.Tidy.part_eq {s : Scene} (h : s.Tidy) {part : Part} {station : Station}
    (here : s.station part = station) : station.spot.part = part := here ▸ h.places part

/-- What happens next in a scene. What the filter owes it goes on to owe until the routine is over. -/
inductive Scene.Turn (s : Scene) : Scene → Prop
  | rests (c : Core) (owes : Prop) (still : c.kernel = s.core.kernel) (keeps : s.owes → owes) :
      Turn s { s with core := c, owes }
  | begins (part : Part) (x : Spot) {β : Type} (call : KernelCall β) (next : β → Spot) (owes : Prop)
      (here : s.station part = .stands x) (does : x.deed objects = .call call next)
      (frees : s.Frees part) (keeps : s.owes → owes) :
      Turn s { s.setStation part (.calls x { cargo := call.takes }) with owes }
  | acts (part : Part) (x : Spot) {β γ : Type} (call : KernelCall β) (next : β → Spot) (a : Action γ)
      (b : γ) (ph : Phase) (c : Core) (owes : Prop) (here : s.station part = .calls x ph)
      (does : x.deed objects = .call call next) (may : call.May part.task ph a)
      (serves : s.core.kernel.Serves part.task) (result : a.toSection s.core = .ok b c)
      (frees : s.Frees part) (keeps : s.owes → owes)
      (kicks : part = .filter → Outcome.kicks ⟨a, b⟩ → owes) :
      Turn s { s.setStation part (.calls x (ph.after ⟨a, b⟩)) with
        core := c
        owes
        journal := s.journal.acts part.task ⟨a, b⟩ }
  | finishes (part : Part) (x : Spot) {β : Type} (call : KernelCall β) (next : β → Spot) (b : β)
      (ph : Phase) (owes : Prop) (here : s.station part = .calls x ph)
      (does : x.deed objects = .call call next) (ends : call.Ends b ph) (frees : s.Frees part)
      (settled : part = .filter → ¬ s.owes) (keeps : s.owes → owes) :
      Turn s { s.setStation part (.stands (next b)) with owes }
  | owns (part : Part) (x : Spot) {β : Type} (f : StateM Totals β) (next : β → Spot) (owes : Prop)
      (here : s.station part = .stands x) (does : x.deed objects = .own f next) (frees : s.Frees part)
      (keeps : s.owes → owes) :
      Turn s { s.setStation part (.stands (next (f.run s.totals).1)) with
        owes
        totals := (f.run s.totals).2
        journal := s.journal.owns part.task s.totals (f.run s.totals).2 }
  | notes (part : Part) (x : Spot) (n : Note) (next : Spot) (owes : Prop)
      (here : s.station part = .stands x) (does : x.deed objects = .note n next) (frees : s.Frees part)
      (keeps : s.owes → owes) :
      Turn s { s.setStation part (.stands next) with owes, journal := s.journal.notes n }
  | kicks (x : Spot) {β : Type} (call : KernelCall β) (next : β → Spot) (ph : Phase)
      (here : s.station .filter = .calls x ph) (does : x.deed objects = .call call next)
      (rules : call.Kicks ph (.transmit objects)) (off : s.station .transmission = .stands .off) :
      Turn s (s.setStation .transmission (.stands .polls))
  | hangsUp (owes : Prop) (ended : s.station .transmission = .stands .ended) :
      Turn s { s.setStation .transmission (.stands .off) with owes }
  | interrupts {γ : Type} (a : Action γ) (b : γ) (c : Core) (port : a.interrupts)
      (result : a.toSection s.core = .ok b c) : Turn s { s with core := c }

namespace Plant

variable {p p' : Plant} {part : Part} {job : Job} {c : Core} {t : Totals} {j : Journal}
  {log : List Record}

theorem scene_setJob : (Plant.mk c (p.setJob part job).jobs t j log).scene =
    { p.scene.setStation part job.station with
      core := c
      owes := ((p.setJob part job).jobs .filter).Owes
      totals := t
      journal := j } := by
  have stations : (fun other => ((p.setJob part job).jobs other).station) =
      Function.update p.scene.station part job.station :=
    funext fun other => Function.apply_update (fun _ => Job.station) p.jobs part job other
  simp only [scene, Scene.setStation, stations]

theorem station_of_job (here : p.jobs part = job) : p.scene.station part = job.station :=
  congrArg Job.station here

theorem scene_setJob_of_station (same : p.scene.station part = job.station) :
    (Plant.mk c (p.setJob part job).jobs t j log).scene = { p.scene with
      core := c
      owes := ((p.setJob part job).jobs .filter).Owes
      totals := t
      journal := j } := by
  rw [scene_setJob, Scene.setStation, ← same, Function.update_eq_self]

theorem owes_setJob (mine : part = .filter → (p.jobs part).Owes → job.Owes) (owes : p.scene.owes) :
    ((p.setJob part job).jobs .filter).Owes := by
  by_cases filter : part = .filter
  · subst filter
    rw [jobs_setJob]
    exact mine rfl owes
  · rw [jobs_setJob_of_ne (Ne.symm filter)]
    exact owes

theorem Orderly.frees (h : p.Orderly) (free : ¬ (p.jobs part).Kicks) : p.scene.Frees part := by
  rintro rfl
  by_contra running
  exact free (h.nested fun off => running (station_of_job off))

/-- A step of the plant is a turn of its scene. -/
theorem Ruled.turn (h : p.Ruled) (orderly : p.Orderly) (step : Step p p') : p.scene.Turn p'.scene := by
  cases step with
  | begins part x call next up here does =>
    rw [scene_setJob]
    refine .begins part x call next _ (station_of_job here) does
      (orderly.frees (Orderly.not_kicks_of_stands here)) (owes_setJob fun _ owes => ?_)
    rw [here] at owes
    exact owes.elim
  | replies part x call next r rest ph b c up here plain answer =>
    have same : p.scene.station part = (Job.calls x call next (rest b) ph).station :=
      (station_of_job here).trans rfl
    rw [scene_setJob_of_station same]
    refine .rests c _ answer.kernel_eq (owes_setJob fun _ owes => ?_)
    rw [here] at owes
    exact Program.Owes.reply owes plain b
  | acts part x call next a rest ph b c up here result =>
    have obeys := h.obeys _ _ _ _ _ _ here
    rw [scene_setJob]
    refine .acts part x call next a b ph c _ (station_of_job here) (orderly.does here) obeys.1
      ⟨h.furnished, up⟩ result (orderly.frees (Orderly.not_kicks_of_plain here rfl))
      (owes_setJob fun _ owes => ?_) ?_
    · rw [here] at owes
      exact owes _
    · rintro rfl kicks
      rw [jobs_setJob]
      exact (obeys.2 _ _ _ ⟨h.furnished, up⟩ result).1 kicks
  | unrolls part x call next body t rest ph up here =>
    have same : p.scene.station part = (Job.calls x call next (Program.unroll body t rest) ph).station :=
      (station_of_job here).trans rfl
    refine (scene_setJob_of_station same).symm ▸ .rests p.core _ rfl (owes_setJob fun _ owes => ?_)
    rw [here] at owes
    exact owes.elim
  | finishes part x call next b ph up here =>
    have owes (owes : (p.jobs part).Owes) : False := by
      rw [here] at owes
      exact owes
    refine scene_setJob.symm ▸ .finishes part x call next b ph _ (station_of_job here) (orderly.does here)
      (h.obeys _ _ _ _ _ _ here) (orderly.frees (Orderly.not_kicks_of_plain here rfl))
      (fun filter h => owes (filter ▸ h)) (owes_setJob fun _ h => (owes h).elim)
  | owns part x f next up here does =>
    rw [scene_setJob]
    refine .owns part x f next _ (station_of_job here) does
      (orderly.frees (Orderly.not_kicks_of_stands here)) (owes_setJob fun _ owes => ?_)
    rw [here] at owes
    exact owes.elim
  | notes part x n next up here does =>
    rw [scene_setJob]
    refine .notes part x n next _ (station_of_job here) does
      (orderly.frees (Orderly.not_kicks_of_stands here)) (owes_setJob fun _ owes => ?_)
    rw [here] at owes
    exact owes.elim
  | kicks x call next data rest ph up here off =>
    have same : ((p.setJob .transmission (.stands .polls)).jobs .filter).Owes = p.scene.owes := by
      rw [jobs_setJob_of_ne (by decide)]
      rfl
    refine scene_setJob.symm ▸ same ▸ .kicks x call next ph (station_of_job here) (orderly.does here)
      (h.obeys _ _ _ _ _ _ here).1 (station_of_job off)
  | hangsUp x call next data rest ph up here ended =>
    have off : (p.setJob .transmission (.stands .off)).jobs .filter = p.jobs .filter :=
      jobs_setJob_of_ne (by decide)
    have same : (p.setJob .transmission (.stands .off)).scene.station .filter =
        (Job.calls x call next (rest ()) ph).station := (station_of_job (off.trans here)).trans rfl
    refine (scene_setJob_of_station same).symm ▸ scene_setJob.symm ▸ .hangsUp _ (station_of_job ended)
  | ticks u c result => exact .interrupts .tick u c rfl result
  | switches sp resumed c result => exact .interrupts (.switch sp) resumed c rfl result
  | elapses clock => exact .rests _ _ rfl id

theorem Runs.turn (h : p.Runs) (step : Step p p') : p.scene.Turn p'.scene :=
  h.ruled.turn h.inOrder step

theorem Runs.tidy (h : p.Runs) : p.scene.Tidy where
  furnished := h.ruled.furnished
  order := h.order
  counts := by
    obtain ⟨s, reachable, shows⟩ := h.shown
    have counts := reachable.counted.inStep_of.drivers
    rw [shows.core] at counts
    exact counts
  homes part m hm := h.homes part h.ruled.furnished m ((p.jobs part).hand_station ▸ hm)
  places part := by
    rw [scene, Job.spot_station]
    cases job : p.jobs part with
    | stands x => exact h.inOrder.part_of_stands job
    | calls x call next rest ph => exact h.inOrder.part_of_calls job

end Plant

end Rtos
