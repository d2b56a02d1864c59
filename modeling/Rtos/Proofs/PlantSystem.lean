import Rtos.Proofs.Plant

/-!
# The plant is a system

What happens in the plant is a run of the `System`, in which the parts make their calls and write to
the buffers in their hands. So all that holds of every system holds of the plant.
-/

namespace Rtos

open Pipeline

namespace Spot

variable {x next : Spot} {β : Type}

theorem part_of_call {call : KernelCall β} {next : β → Spot} (h : x.deed objects = .call call next)
    (b : β) : (next b).part = x.part := by
  cases x <;> cases h
  case asks reading =>
    cases b with
    | none => rfl
    | some m =>
      dsimp only [filled]
      split <;> rfl
  case awaits =>
    cases b with
    | none => rfl
    | some m =>
      dsimp only [read]
      split <;> rfl
  case polls => cases b <;> rfl
  all_goals rfl

theorem part_of_own {f : StateM Totals β} {next : β → Spot} (h : x.deed objects = .own f next)
    (b : β) : (next b).part = x.part := by
  cases x <;> cases h <;> rfl

theorem part_of_note {n : Note} (h : x.deed objects = .note n next) : next.part = x.part := by
  cases x <;> cases h
  rfl

theorem hand_of_call {call : KernelCall β} {next : β → Spot} (h : x.deed objects = .call call next) :
    x.hand = call.takes ++ x.keeps := by
  cases x <;> cases h <;> rfl

theorem hand_of_own {f : StateM Totals β} {next : β → Spot} (h : x.deed objects = .own f next)
    (b : β) : (next b).hand = x.hand := by
  cases x <;> cases h <;> rfl

theorem hand_of_note {n : Note} (h : x.deed objects = .note n next) : next.hand = x.hand := by
  cases x <;> cases h
  rfl

theorem hand_filled (reading : UInt32) (m : TaggedMessage) : ∃ payload,
    (filled reading m).hand = [{ m.message with payload }] ∧
      payload.length = m.message.payload.length := by
  unfold filled firstBytes
  split
  · exact ⟨_, rfl, rfl⟩
  · next ok =>
    refine ⟨_, rfl, ?_⟩
    split at ok
    · cases ok
    next room =>
    simp only [Payload.overwrite, wordBytes, List.length_append, List.length_take, List.length_drop,
      List.length_cons, List.length_nil, TaggedMessage.area] at room ⊢
    omega

theorem hand_read (m : TaggedMessage) : (read m).hand = [m.message] := by
  unfold read
  split <;> rfl

theorem hand_next {call : KernelCall β} {next : β → Spot} (h : x.deed objects = .call call next)
    (b : β) : (next b).hand = call.gives b ++ x.keeps ∨
      ∃ m payload, call.gives b = [m] ∧ x.keeps = [] ∧ (next b).hand = [{ m with payload }] ∧
        payload.length = m.payload.length := by
  cases x <;> cases h
  case asks reading =>
    cases b with
    | none => exact .inl rfl
    | some m =>
      obtain ⟨payload, hand, size⟩ := hand_filled (nextReading reading) m
      exact .inr ⟨m.message, payload, rfl, rfl, hand, size⟩
  case awaits =>
    cases b with
    | none => exact .inl rfl
    | some m => exact .inl (hand_read m)
  case polls => cases b <;> exact .inl rfl
  all_goals exact .inl rfl

end Spot

/-- The job is in the code of the part, and a call under way is the deed of its spot. -/
inductive Job.Fits (part : Part) : Job → Prop
  | stands (x : Spot) (at_ : x.part = part) : Job.Fits part (.stands x)
  | calls (x : Spot) {β : Type} (call : KernelCall β) (next : β → Spot) (rest : Program Unit β)
      (ph : Phase) (at_ : x.part = part) (does : x.deed objects = .call call next) :
      Job.Fits part (.calls x call next rest ph)

/-- The call waits for the routine of the transmit queue. -/
inductive Job.Kicks : Job → Prop
  | intro (x : Spot) {β : Type} (call : KernelCall β) (next : β → Spot) (data : UInt64)
      (rest : Unit → Program Unit β) (ph : Phase) :
      Job.Kicks (.calls x call next (.ask (.put (.transmit objects) data) rest) ph)

structure Plant.Orderly (p : Plant) : Prop where
  fits : ∀ part, (p.jobs part).Fits part
  /-- While the routine runs, the filter waits for it. -/
  nested : p.jobs .transmission ≠ .stands .off → (p.jobs .filter).Kicks

namespace Plant

variable {p p' : Plant} {part : Part} {job : Job}

@[simp] theorem jobs_setJob : (p.setJob part job).jobs part = job := Function.update_self ..

theorem jobs_setJob_of_ne {other : Part} (h : other ≠ part) :
    (p.setJob part job).jobs other = p.jobs other := Function.update_of_ne h ..

namespace Orderly

theorem starts (clock : Clock) : (started clock).Orderly where
  fits part := by cases part <;> exact .stands _ rfl
  nested running := (running rfl).elim

theorem fits_setJob (h : ∀ other, (p.jobs other).Fits other) (fits : job.Fits part) (other : Part) :
    ((p.setJob part job).jobs other).Fits other := by
  by_cases same : other = part
  · subst same
    rwa [jobs_setJob]
  · rw [jobs_setJob_of_ne same]
    exact h other

theorem setJob (h : p.Orderly) (fits : job.Fits part) (free : ¬ (p.jobs part).Kicks)
    (goesOn : part = .transmission → p.jobs .transmission ≠ .stands .off) :
    (p.setJob part job).Orderly where
  fits := fits_setJob h.fits fits
  nested running := by
    by_cases filter : part = .filter
    · subst filter
      rw [jobs_setJob_of_ne (by decide)] at running
      exact (free (h.nested running)).elim
    · rw [jobs_setJob_of_ne (Ne.symm filter)]
      by_cases transmission : part = .transmission
      · exact h.nested (goesOn transmission)
      · rw [jobs_setJob_of_ne (Ne.symm transmission)] at running
        exact h.nested running

theorem of_jobs (h : p.Orderly) (same : p'.jobs = p.jobs) : p'.Orderly := by
  obtain ⟨fits, nested⟩ := h
  exact ⟨same ▸ fits, same ▸ nested⟩

theorem not_kicks_of_stands {x : Spot} (here : p.jobs part = .stands x) : ¬ (p.jobs part).Kicks := by
  rw [here]
  rintro ⟨⟩

theorem not_kicks_of_plain {x : Spot} {β : Type} {call : KernelCall β} {next : β → Spot}
    {rest : Program Unit β} {ph : Phase} (here : p.jobs part = .calls x call next rest ph)
    (plain : rest.isAtRoutine = false) : ¬ (p.jobs part).Kicks := by
  rw [here]
  rintro ⟨⟩
  cases plain

section Calls

variable {x : Spot} {β : Type} {call : KernelCall β} {next : β → Spot} {rest rest' : Program Unit β}
  {ph ph' : Phase}

theorem does (h : p.Orderly) (here : p.jobs part = .calls x call next rest ph) :
    x.deed objects = .call call next := by
  have fits := h.fits part
  rw [here] at fits
  cases fits with
  | calls _ _ _ _ _ _ does => exact does

theorem part_of_calls (h : p.Orderly) (here : p.jobs part = .calls x call next rest ph) :
    x.part = part := by
  have fits := h.fits part
  rw [here] at fits
  cases fits with
  | calls _ _ _ _ _ at_ _ => exact at_

theorem part_of_stands (h : p.Orderly) (here : p.jobs part = .stands x) : x.part = part := by
  have fits := h.fits part
  rw [here] at fits
  cases fits with
  | stands _ at_ => exact at_

theorem leaves (h : p.Orderly) (here : p.jobs part = .calls x call next rest ph)
    (plain : rest.isAtRoutine = false) (fits : job.Fits part) : (p.setJob part job).Orderly := by
  refine h.setJob fits (not_kicks_of_plain here plain) ?_
  rintro rfl
  rw [here]
  rintro ⟨⟩

theorem goesOn (h : p.Orderly) (here : p.jobs part = .calls x call next rest ph)
    (plain : rest.isAtRoutine = false) :
    (p.setJob part (.calls x call next rest' ph')).Orderly :=
  h.leaves here plain (.calls x call next rest' ph' (h.part_of_calls here) (h.does here))

theorem moves (h : p.Orderly) (here : p.jobs part = .stands x) (on : x ≠ .off)
    (fits : job.Fits part) : (p.setJob part job).Orderly := by
  refine h.setJob fits (not_kicks_of_stands here) ?_
  rintro rfl
  rw [here]
  rintro ⟨⟩
  exact on rfl

end Calls

theorem step (h : p.Orderly) (step : Step p p') : p'.Orderly := by
  cases step with
  | begins part x call next up here does =>
    refine .of_jobs (p := p.setJob part (.calls x call next call.program { cargo := call.takes })) ?_ rfl
    refine h.moves here ?_ (.calls x call next _ _ (h.part_of_stands here) does)
    rintro rfl
    cases does
  | replies part x call next r rest ph b c up here plain answer =>
    exact .of_jobs (p := p.setJob part (.calls x call next (rest b) ph)) (h.goesOn here plain) rfl
  | acts part x call next a rest ph b c up here result =>
    exact .of_jobs (p := p.setJob part (.calls x call next (rest (.ok b)) (ph.after ⟨a, b⟩)))
      (h.goesOn here rfl) rfl
  | unrolls part x call next body t rest ph up here => exact h.goesOn here rfl
  | finishes part x call next b ph up here =>
    have stays := (Spot.part_of_call (h.does here) b).trans (h.part_of_calls here)
    exact h.leaves here rfl (.stands _ stays)
  | owns part x f next up here does =>
    refine .of_jobs (p := p.setJob part (.stands (next (f.run p.totals).1))) ?_ rfl
    refine h.moves here ?_ (.stands _ ((Spot.part_of_own does _).trans (h.part_of_stands here)))
    rintro rfl
    cases does
  | notes part x n next up here does =>
    refine .of_jobs (p := p.setJob part (.stands next)) ?_ rfl
    refine h.moves here ?_ (.stands _ ((Spot.part_of_note does).trans (h.part_of_stands here)))
    rintro rfl
    cases does
  | kicks x call next data rest ph up here off =>
    refine ⟨fits_setJob h.fits (.stands _ rfl), fun _ => ?_⟩
    rw [jobs_setJob_of_ne (by decide), here]
    exact .intro ..
  | hangsUp x call next data rest ph up here ended =>
    have hung := fits_setJob h.fits (.stands .off rfl)
    refine ⟨fits_setJob hung (.calls x call next _ _ (h.part_of_calls here) (h.does here)),
      fun running => ?_⟩
    rw [jobs_setJob_of_ne (by decide), jobs_setJob] at running
    exact (running rfl).elim
  | ticks => exact h.of_jobs rfl
  | switches => exact h.of_jobs rfl
  | elapses => exact h.of_jobs rfl

end Orderly

theorem Runs.inOrder (h : p.Runs) : p.Orderly := by
  induction h with
  | starts clock => exact .starts clock
  | step _ step ih => exact ih.step step

end Plant

def Part.all : List Part := [.sampler, .filter, .monitor, .idle, .transmission]

namespace Part

variable {γ : Type*} {part : Part}

theorem mem_all (part : Part) : part ∈ all := by cases part <;> decide

theorem perm_all (part : Part) : all.Perm (part :: all.erase part) :=
  List.perm_cons_erase (mem_all part)

theorem ne_of_mem_others {other : Part} (h : other ∈ all.erase part) : other ≠ part :=
  ((List.Nodup.mem_erase_iff (by decide)).1 h).1

theorem eq_of_task {other : Part} (same : other.task = part.task) (ne : other ≠ part) :
    part = .filter ∧ other = .transmission ∨ part = .transmission ∧ other = .filter := by
  cases part <;> cases other <;> first
    | exact .inl ⟨rfl, rfl⟩
    | exact .inr ⟨rfl, rfl⟩
    | exact absurd rfl ne
    | exact absurd same (by decide)

end Part

namespace Job

def openCall (part : Part) : Job → Option OpenCall
  | stands _ => none
  | calls _ call _ rest ph => some ⟨.thread (some part.task), call, rest, ph⟩

/-- The buffers that the part has in its hands, apart from those of its call. -/
def pocket : Job → List Message
  | stands x => x.hand
  | calls x .. => x.keeps

end Job

namespace Plant

variable {p p' : Plant} {part : Part} {job : Job} {s : System}

def openCalls (p : Plant) (parts : List Part) : List OpenCall :=
  parts.filterMap fun part => (p.jobs part).openCall part

def pockets (p : Plant) (parts : List Part) : List Message :=
  parts.flatMap fun part => (p.jobs part).pocket

/-- The system as it is in the plant. -/
structure Shows (p : Plant) (s : System) : Prop where
  core : s.core = p.core
  calls : s.calls.Perm (p.openCalls Part.all)
  held : s.held.Perm (p.pockets Part.all)
  lost : s.lost = []
  log : s.log = p.log

theorem openCalls_all (p : Plant) (part : Part) : (p.openCalls Part.all).Perm
    (((p.jobs part).openCall part).toList ++ p.openCalls (Part.all.erase part)) := by
  refine ((Part.perm_all part).filterMap _).trans ?_
  rw [openCalls, List.filterMap_cons]
  cases (p.jobs part).openCall part <;> exact .rfl

theorem pockets_all (p : Plant) (part : Part) : (p.pockets Part.all).Perm
    ((p.jobs part).pocket ++ p.pockets (Part.all.erase part)) :=
  ((Part.perm_all part).flatMap_right _).trans .rfl

theorem openCalls_setJob : (p.setJob part job).openCalls (Part.all.erase part) =
    p.openCalls (Part.all.erase part) :=
  List.filterMap_congr fun other h => by rw [jobs_setJob_of_ne (Part.ne_of_mem_others h)]

theorem pockets_setJob : (p.setJob part job).pockets (Part.all.erase part) =
    p.pockets (Part.all.erase part) :=
  List.flatMap_congr fun other h => by rw [jobs_setJob_of_ne (Part.ne_of_mem_others h)]

theorem mem_openCalls {parts : List Part} {o : OpenCall} (h : o ∈ p.openCalls parts) :
    ∃ part ∈ parts, (p.jobs part).openCall part = some o ∧ o.caller = .thread (some part.task) := by
  obtain ⟨part, hp, here⟩ := List.mem_filterMap.1 h
  refine ⟨part, hp, here, ?_⟩
  cases job : p.jobs part with
  | stands x =>
    rw [job] at here
    cases here
  | calls x call next rest ph =>
    rw [job] at here
    cases here
    rfl

namespace Shows

theorem atRest {s : System} {clock : Clock} (calls : s.calls = []) (held : s.held = [])
    (lost : s.lost = []) : Shows { started clock with
      core := { s.core with clock }
      log := s.log } { s with core := { s.core with clock } } where
  core := rfl
  calls := .of_eq calls
  held := .of_eq held
  lost := lost
  log := rfl

theorem split (shows : p.Shows s) (part : Part) {o : OpenCall} (here : (p.jobs part).openCall part = some o) :
    ∃ later earlier, s.calls = later ++ o :: earlier ∧
      (later ++ earlier).Perm (p.openCalls (Part.all.erase part)) := by
  have all := shows.calls.trans (p.openCalls_all part)
  rw [here] at all
  obtain ⟨later, earlier, split⟩ := List.append_of_mem (all.mem_iff.2 List.mem_cons_self)
  rw [split] at all
  exact ⟨later, earlier, split, (List.perm_cons o).1 (List.perm_middle.symm.trans all)⟩

theorem setJob (shows : p.Shows s) {s' : System} (core : s'.core = s.core)
    (calls : s'.calls.Perm ((job.openCall part).toList ++ p.openCalls (Part.all.erase part)))
    (held : s'.held.Perm (job.pocket ++ p.pockets (Part.all.erase part))) (lost : s'.lost = s.lost)
    (log : s'.log = s.log) : (p.setJob part job).Shows s' where
  core := core.trans shows.core
  calls := by
    refine calls.trans (.trans ?_ (openCalls_all _ part).symm)
    rw [jobs_setJob, openCalls_setJob]
  held := by
    refine held.trans (.trans ?_ (pockets_all _ part).symm)
    rw [jobs_setJob, pockets_setJob]
  lost := lost.trans shows.lost
  log := log.trans shows.log

/-- The call of a part that is up goes on, unless it waits for a routine. -/
theorem mayGoOn (shows : p.Shows s) (h : Reachable s) (orderly : p.Orderly) (up : p.IsUp part)
    {x : Spot} {β : Type} {call : KernelCall β} {next : β → Spot} {rest : Program Unit β} {ph : Phase}
    (here : p.jobs part = .calls x call next rest ph)
    (plain : rest.isAtRoutine = false ∨ ∃ x, p.jobs .transmission = .stands x)
    {later earlier : List OpenCall}
    (split : s.calls = later ++ ⟨.thread (some part.task), call, rest, ph⟩ :: earlier)
    (others : (later ++ earlier).Perm (p.openCalls (Part.all.erase part))) :
    OpenCall.MayGoOn ⟨.thread (some part.task), call, rest, ph⟩ later s.core.kernel := by
  refine ⟨.inl (shows.core ▸ up), fun _ o ho same => ?_⟩
  obtain ⟨other, hother, view, caller⟩ := mem_openCalls (others.mem_iff.1 (List.mem_append_left _ ho))
  have task : other.task = part.task :=
    Option.some.inj (Caller.thread.inj (caller.symm.trans same))
  rcases Part.eq_of_task task (Part.ne_of_mem_others hother) with ⟨rfl, rfl⟩ | ⟨rfl, rfl⟩
  · -- The routine would be in a call, so that the filter waits for it.
    have running : p.jobs .transmission ≠ .stands .off := fun off => by
      rw [off] at view
      cases view
    rcases plain with plain | ⟨y, stands⟩
    · exact Orderly.not_kicks_of_plain here plain (orderly.nested running)
    · rw [stands] at view
      cases view
  · -- The call of the filter came first.
    have nested := h.inContract.nested
    rw [split] at nested
    have nests := (List.pairwise_append.1 nested).2.2 o ho _ List.mem_cons_self
    have atRoutine := nests (by rw [caller]; rintro ⟨⟩) same
    rcases plain with plain | ⟨y, stands⟩
    · exact nomatch plain.symm.trans atRoutine
    · cases stands.symm.trans here

theorem begins (shows : p.Shows s) (orderly : p.Orderly) (up : p.IsUp part) {x : Spot} {β : Type}
    {call : KernelCall β} {next : β → Spot} (here : p.jobs part = .stands x)
    (does : x.deed objects = .call call next) : ∃ s', System.Step s s' ∧
      (p.setJob part (.calls x call next call.program { cargo := call.takes })).Shows s' := by
  have may : s.MayBegin (.thread (some part.task)) call := by
    refine ⟨shows.core ▸ up, fun o ho same => ?_⟩
    obtain ⟨other, -, view, caller⟩ := mem_openCalls (shows.calls.mem_iff.1 ho)
    have task : other.task = part.task :=
      Option.some.inj (Caller.thread.inj (caller.symm.trans same))
    have ne : other ≠ part := by
      rintro rfl
      rw [here] at view
      cases view
    rcases Part.eq_of_task task ne with ⟨rfl, rfl⟩ | ⟨rfl, rfl⟩
    · refine (Orderly.not_kicks_of_stands here (orderly.nested fun off => ?_)).elim
      rw [off] at view
      cases view
    · have kicks := orderly.nested fun off => by
        rw [here] at off
        cases off
        cases does
      cases hj : p.jobs .filter with
      | stands y => exact (Orderly.not_kicks_of_stands hj kicks).elim
      | calls y call' next' rest ph =>
        rw [hj] at view kicks
        cases view
        cases kicks
        rfl
  have holds : s.held.Perm (call.takes ++ (x.keeps ++ p.pockets (Part.all.erase part))) := by
    refine shows.held.trans ((p.pockets_all part).trans ?_)
    rw [here, ← List.append_assoc, ← Spot.hand_of_call does]
    exact .rfl
  refine ⟨_, .begin s _ call _ may holds, shows.setJob rfl ?_ .rfl rfl rfl⟩
  refine (shows.calls.trans (p.openCalls_all part)).cons _ |>.trans ?_
  rw [here]
  exact .rfl

theorem finishes (shows : p.Shows s) {x : Spot} {β : Type} {call : KernelCall β} {next : β → Spot}
    {b : β} {ph : Phase} (here : p.jobs part = .calls x call next (.done b) ph)
    (does : x.deed objects = .call call next) : ∃ s', Relation.ReflTransGen System.Step s s' ∧
      (p.setJob part (.stands (next b))).Shows s' := by
  obtain ⟨later, earlier, split, others⟩ := shows.split part (by rw [here]; rfl)
  obtain ⟨core, _, held, lost, log⟩ := s
  obtain rfl : _ = later ++ _ :: earlier := split
  have finish := System.Step.finish core later earlier held lost log (.thread (some part.task)) call b ph
  have held' : (call.gives b ++ held).Perm
      (call.gives b ++ (x.keeps ++ p.pockets (Part.all.erase part))) := by
    refine List.Perm.append_left _ (shows.held.trans ((p.pockets_all part).trans ?_))
    rw [here]
    exact .rfl
  rcases Spot.hand_next does b with same | ⟨m, payload, gives, keeps, hand, size⟩
  · refine ⟨_, .single finish, shows.setJob rfl others ?_ rfl rfl⟩
    rw [Job.pocket, same, List.append_assoc]
    exact held'
  · rw [gives] at finish held'
    have write := System.Step.write ⟨core, later ++ earlier, [m] ++ held, lost, log⟩ [] held m payload
      rfl size
    refine ⟨_, .head finish (.single write), shows.setJob rfl others ?_ rfl rfl⟩
    rw [Job.pocket, hand]
    rw [keeps] at held'
    exact ((List.perm_cons m).1 held').cons _

theorem goesOn (shows : p.Shows s) {x : Spot} {β : Type} {call : KernelCall β} {next : β → Spot}
    {rest rest' : Program Unit β} {ph ph' : Phase}
    (here : p.jobs part = .calls x call next rest ph) {c : Core} {log : List Record}
    {later earlier : List OpenCall} {held : List Message} {lost : List MessageId}
    {log' : List Record} {c' : Core}
    (is : s = ⟨c, later ++ ⟨.thread (some part.task), call, rest, ph⟩ :: earlier, held, lost, log⟩)
    (others : (later ++ earlier).Perm (p.openCalls (Part.all.erase part))) :
    Shows { p.setJob part (.calls x call next rest' ph') with core := c', log := log' }
      ⟨c', later ++ ⟨.thread (some part.task), call, rest', ph'⟩ :: earlier, held, lost, log'⟩ := by
  subst is
  have view : (p.setJob part (.calls x call next rest' ph')).Shows ⟨p.core,
      later ++ ⟨.thread (some part.task), call, rest', ph'⟩ :: earlier, held, lost, p.log⟩ := by
    refine shows.setJob shows.core.symm ?_ ?_ rfl shows.log.symm
    · exact List.perm_middle.trans (others.cons _)
    · refine shows.held.trans ((p.pockets_all part).trans ?_)
      rw [here]
      exact .rfl
  exact ⟨rfl, view.calls, view.held, view.lost, rfl⟩

theorem ticks (shows : p.Shows s) {u : Unit} {c : Core} (result : Section.tick p.core = .ok u c) :
    ∃ s', Relation.ReflTransGen System.Step s s' ∧ Shows { p with
        core := c
        log := ⟨p.core.kernel, .handler, some ⟨Unit, .tick⟩, ⟨.tick, u⟩⟩ :: p.log } s' := by
  obtain ⟨core, open_, held', lost', log⟩ := s
  obtain ⟨is, calls, held, lost, logs⟩ := shows
  obtain rfl : core = p.core := is
  obtain rfl : log = p.log := logs
  have may (rest : Program Unit Unit) (ph : Phase) (k : Kernel) :
      OpenCall.MayGoOn ⟨.handler, .tick, rest, ph⟩ [] k := ⟨trivial, fun h => (h rfl).elim⟩
  let log : List Record := ⟨p.core.kernel, .handler, some ⟨Unit, .tick⟩, ⟨.tick, u⟩⟩ :: p.log
  have begins := System.Step.begin ⟨p.core, open_, held', lost', p.log⟩ .handler .tick held' id .rfl
  have mask := System.Step.reply p.core p.core [] open_ held' lost' p.log .handler .tick .mask
    (fun saved => (Program.act .tick).bind (Program.leave saved)) {} false (may ..) (.mask p.core false)
  have act := System.Step.act p.core c [] open_ held' lost' p.log .handler .tick .tick
    (Program.leave false) {} u (may ..) result
  have unmask := System.Step.reply c c [] open_ held' lost' log .handler .tick (.unmask false)
    (fun _ => .done u) (Phase.after ⟨.tick, u⟩ {}) () (may ..) (.unmask c false)
  have finish := System.Step.finish c [] open_ held' lost' log .handler .tick u
    (Phase.after ⟨.tick, u⟩ {})
  refine ⟨_, .head begins (.head mask (.head act (.head unmask (.single finish)))), ?_⟩
  exact ⟨rfl, calls, held, lost, rfl⟩

/-- What happens in the plant happens in the system. -/
theorem step (shows : p.Shows s) (h : Reachable s) (orderly : p.Orderly) (step : Step p p') :
    ∃ s', Relation.ReflTransGen System.Step s s' ∧ p'.Shows s' := by
  -- The hands stay as they are.
  have idle {part : Part} {x next : Spot} (here : p.jobs part = .stands x) (same : next.hand = x.hand) :
      (p.setJob part (.stands next)).Shows s := by
    refine shows.setJob rfl ?_ ?_ rfl rfl
    · refine shows.calls.trans ((p.openCalls_all part).trans ?_)
      rw [here]
      exact .rfl
    · refine shows.held.trans ((p.pockets_all part).trans ?_)
      rw [here, Job.pocket, Job.pocket, same]
  have rejournal {p : Plant} {s : System} {j : Journal} {t : Totals} (shows : p.Shows s) :
      Shows { p with journal := j, totals := t } s :=
    ⟨shows.core, shows.calls, shows.held, shows.lost, shows.log⟩
  cases step with
  | begins part x call next up here does =>
    obtain ⟨s', step, shows⟩ := shows.begins orderly up here does
    exact ⟨s', .single step, rejournal shows⟩
  | replies part x call next r rest ph b c up here plain answer =>
    obtain ⟨later, earlier, split, others⟩ := shows.split part (by rw [here]; rfl)
    have may := shows.mayGoOn h orderly up here (.inl plain) split others
    obtain ⟨core, _, held, lost, log⟩ := s
    obtain rfl : _ = later ++ _ :: earlier := split
    obtain ⟨rfl, rfl⟩ : core = p.core ∧ log = p.log := ⟨shows.core, shows.log⟩
    exact ⟨_, .single (.reply _ c later earlier held lost _ _ call r rest ph b may answer),
      shows.goesOn here rfl others⟩
  | acts part x call next a rest ph b c up here result =>
    obtain ⟨later, earlier, split, others⟩ := shows.split part (by rw [here]; rfl)
    have may := shows.mayGoOn h orderly up here (.inl rfl) split others
    obtain ⟨core, _, held, lost, log⟩ := s
    obtain rfl : _ = later ++ _ :: earlier := split
    obtain ⟨rfl, rfl⟩ : core = p.core ∧ log = p.log := ⟨shows.core, shows.log⟩
    exact ⟨_, .single (.act _ c later earlier held lost _ _ call a rest ph b may result),
      rejournal (shows.goesOn here rfl others)⟩
  | unrolls part x call next body t rest ph up here =>
    obtain ⟨later, earlier, split, others⟩ := shows.split part (by rw [here]; rfl)
    obtain ⟨core, _, held, lost, log⟩ := s
    obtain rfl : _ = later ++ _ :: earlier := split
    obtain ⟨rfl, rfl⟩ : core = p.core ∧ log = p.log := ⟨shows.core, shows.log⟩
    exact ⟨_, .single (.unroll _ later earlier held lost _ _ call body t rest ph),
      shows.goesOn here rfl others⟩
  | finishes part x call next b ph up here => exact shows.finishes here (orderly.does here)
  | owns part x f next up here does =>
    exact ⟨s, .refl, rejournal (idle here (Spot.hand_of_own does _))⟩
  | notes part x n next up here does =>
    exact ⟨s, .refl, rejournal (idle here (Spot.hand_of_note does))⟩
  | kicks x call next data rest ph up here off => exact ⟨s, .refl, idle off rfl⟩
  | hangsUp x call next data rest ph up here ended =>
    obtain ⟨later, earlier, split, others⟩ := shows.split .filter (by rw [here]; rfl)
    have may := shows.mayGoOn h orderly up here (.inr ⟨_, ended⟩) split others
    have off : (p.setJob .transmission (.stands .off)).Shows s := idle ended rfl
    have others' : (later ++ earlier).Perm
        ((p.setJob .transmission (.stands .off)).openCalls (Part.all.erase .filter)) := by
      refine others.trans (.of_eq (List.filterMap_congr fun other _ => ?_))
      by_cases same : other = .transmission
      · rw [same, jobs_setJob, ended]
        rfl
      · rw [jobs_setJob_of_ne same]
    obtain ⟨core, _, held, lost, log⟩ := s
    obtain rfl : _ = later ++ _ :: earlier := split
    obtain ⟨rfl, rfl⟩ : core = p.core ∧ log = p.log := ⟨shows.core, shows.log⟩
    have here' : (p.setJob .transmission (.stands .off)).jobs .filter =
        .calls x call next (.ask (.put (.transmit objects) data) rest) ph := by
      rw [jobs_setJob_of_ne (by decide), here]
    exact ⟨_, .single (.reply _ _ later earlier held lost _ _ call _ rest ph () may (.put _ _ _)),
      off.goesOn here' rfl others'⟩
  | ticks u c result => exact shows.ticks result
  | switches sp resumed c result =>
    obtain ⟨core, _, held, lost, log⟩ := s
    obtain ⟨rfl, rfl⟩ : core = p.core ∧ log = p.log := ⟨shows.core, shows.log⟩
    exact ⟨_, .single (.switch _ c sp resumed result), rfl, shows.calls, shows.held, shows.lost, rfl⟩
  | elapses clock =>
    obtain ⟨core, _, held, lost, log⟩ := s
    obtain ⟨rfl, rfl⟩ : core = p.core ∧ log = p.log := ⟨shows.core, shows.log⟩
    exact ⟨_, .single (.elapse _ clock), rfl, shows.calls, shows.held, shows.lost, rfl⟩

end Shows

/-- The plant is a system that a run comes to. -/
theorem Runs.shown (h : p.Runs) : ∃ s, Reachable s ∧ p.Shows s := by
  induction h with
  | starts clock =>
    have calls : (System.run Script.plant).calls.length = 0 := by decide +kernel
    have held : (System.run Script.plant).held.length = 0 := by decide +kernel
    have lost : (System.run Script.plant).lost.length = 0 := by decide +kernel
    exact ⟨_, (System.reachable_run Script.plant).step (.elapse _ clock),
      .atRest (List.eq_nil_of_length_eq_zero calls) (List.eq_nil_of_length_eq_zero held)
        (List.eq_nil_of_length_eq_zero lost)⟩
  | step before step ih =>
    obtain ⟨s, reachable, shows⟩ := ih
    obtain ⟨s', run, shows⟩ := shows.step reachable before.inOrder step
    refine ⟨s', ?_, shows⟩
    clear shows
    induction run with
    | refl => exact reachable
    | tail _ step ih => exact ih.step step

end Plant

end Rtos
