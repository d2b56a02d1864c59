import Rtos.Proofs.Masking
import Rtos.Proofs.Spared

/-!
# The interrupt mask in every run

Each strand of code finds the mask as it left it: what it has begun and not ended is `Aligned` with the
mask that it sees, from its latest frame down to its first. A strand that does not run was left
unmasked.
-/

namespace Rtos

/-- Whether the application may run on top of what a strand has begun. -/
def Opens (ws : List Work) : Prop := ∀ w, ws.head? = some w → w.isOpen

/-- Interrupts are masked if the latest guard says so, or a service in a masked section of its own, or
else if they were masked when the latest service began. A strand begins unmasked. -/
def Aligned : Bool → List Work → Prop
  | masked, [] => masked = false
  | masked, .guard saved :: ws => masked = true ∧ Opens ws ∧ Aligned saved ws
  | masked, .serves ⟨s, rest, _, entry, sector⟩ :: ws =>
    masked = (sector.isMasked || entry) ∧ Guards s entry rest Ends sector ∧ Opens ws ∧
      Aligned entry ws

/-- The scheduler is started by the code that boots, and a switch is taken by an exception. -/
def Frame.Placed (f : Frame) : Prop :=
  match f.work with
  | .guard _ => True
  | .serves x => (x.service.isStart → f.strand = .thread none) ∧
      (x.service.isSwitch → f.strand = .handler 0)

namespace Processor

variable (p : Processor)

def seen (c : Strand) : Bool := p.masked && c = p.running

/-- The code that boots does not come back once the first frame was entered. -/
def Alive (c : Strand) : Prop := c = .thread none → p.stage.isUp = false

structure Sound : Prop where
  aligned : ∀ c, p.Alive c → Aligned (p.seen c) (stackOf c p.frames)
  levels : ∀ f ∈ p.frames, ∀ l, f.strand = .handler l → l < p.level
  placed : ∀ f ∈ p.frames, f.Placed
  current : p.failed = none → p.stage.idle.isSome → p.core.kernel.current ≠ none
  failed : ∀ c, p.failed = some c → p.Alive c ∧ ∀ l, c = .handler l → l < p.level

end Processor

theorem Action.current_cases {β : Type} {a : Action β} {b : β} {c c' : Core}
    (result : a.toSection c = .ok b c') (stage : Stage) :
    (∃ idle, a.starts ∧ c'.kernel.current = some idle ∧ stage.after a = .launching idle) ∨
      stage.after a = stage ∧ ((∃ target, a.switches ∧ c'.kernel.current = some target) ∨
        c'.kernel.current = c.kernel.current) := by
  cases a with
  | startWith idle =>
    obtain ⟨x, -, -, kernel⟩ := Section.startWith_ok result
    exact .inl ⟨idle, rfl, congrArg Kernel.current kernel, rfl⟩
  | switch sp =>
    refine .inr ⟨rfl, ?_⟩
    rcases Section.switch_ok result with ⟨-, -, rfl⟩ | ⟨target, took⟩
    · exact .inr rfl
    · exact .inl ⟨target, rfl, took.current⟩
  | _ => exact .inr ⟨rfl, .inr (Action.current_eq result rfl rfl)⟩

section

variable {later earlier : List Frame} {f : Frame} {c : Strand} {w w' : Work}

theorem stackOf_cons : stackOf c (f :: later) =
    if f.strand = c then f.work :: stackOf c later else stackOf c later := by
  unfold stackOf
  by_cases h : f.strand = c <;> simp [h]

theorem stackOf_append : stackOf c (later ++ earlier) = stackOf c later ++ stackOf c earlier := by
  simp [stackOf]

theorem stackOf_of_others (h : ∀ f ∈ later, f.strand ≠ c) : stackOf c later = [] := by
  rw [stackOf, List.filter_eq_nil_iff.2 fun f hf => by simpa using h f hf, List.map_nil]

theorem stackOf_middle {c' : Strand} (other : c' ≠ c) :
    stackOf c' (later ++ ⟨c, w⟩ :: earlier) = stackOf c' (later ++ earlier) := by
  rw [stackOf_append, stackOf_append, stackOf_cons, if_neg fun h => other h.symm]

theorem stackOf_latest (h : ∀ f ∈ later, f.strand ≠ c) :
    stackOf c (later ++ ⟨c, w⟩ :: earlier) = w :: stackOf c earlier := by
  rw [stackOf_append, stackOf_of_others h, stackOf_cons, if_pos rfl]
  rfl

end

namespace Processor

variable {p p' : Processor} {later earlier : List Frame} {w w' : Work}

theorem At.stack (h : p.At later w earlier) :
    stackOf p.running p.frames = w :: stackOf p.running earlier := by
  rw [h.frames, stackOf_latest h.latest]

theorem At.latest_eq (h : p.At later w earlier) : p.latest = some w := by
  rw [Processor.latest, h.stack]
  rfl

theorem lt_level_of_running (sound : p.Sound) {l : Nat} (h : p.running = .handler l) :
    l < p.level := by
  unfold running at h
  split at h
  · next c failed => exact (sound.failed c failed).2 l h
  · split at h
    · next n level =>
      cases h
      rw [level]
      exact Nat.lt_succ_self l
    · cases h

theorem Sound.alive (sound : p.Sound) : p.Alive p.running := by
  intro boots
  unfold running at boots
  split at boots
  · next c failed => exact (sound.failed c failed).1 boots
  next failed =>
  split at boots
  · cases boots
  · have thread := Strand.thread.inj boots
    cases stage : p.stage with
    | up idle =>
      rw [stage] at thread
      exact (sound.current failed (by rw [stage]; rfl) thread).elim
    | _ => rfl

theorem Sound.here (sound : p.Sound) : Aligned p.masked (stackOf p.running p.frames) := by
  have aligned := sound.aligned p.running sound.alive
  rwa [seen, decide_eq_true rfl, Bool.and_true] at aligned

theorem Sound.goesOn (sound : p.Sound) (runs : p'.running = p.running) (level : p'.level = p.level)
    (others : ∀ c, c ≠ p.running → stackOf c p'.frames = stackOf c p.frames)
    (alive : ∀ c, c ≠ p.running → p'.Alive c → p.Alive c)
    (here : p'.Alive p.running → Aligned p'.masked (stackOf p.running p'.frames))
    (frames : ∀ f ∈ p'.frames, f ∈ p.frames ∨ f.strand = p.running ∧ f.Placed)
    (current : p'.failed = none → p'.stage.idle.isSome → p'.core.kernel.current ≠ none)
    (failed : ∀ c, p'.failed = some c → c = p.running ∧ p'.Alive c) : p'.Sound where
  aligned c live := by
    by_cases same : c = p.running
    · subst same
      rw [seen, runs, decide_eq_true rfl, Bool.and_true]
      exact here live
    · have aligned := sound.aligned c (alive c same live)
      rw [seen, decide_eq_false same, Bool.and_false] at aligned
      rwa [seen, runs, decide_eq_false same, Bool.and_false, others c same]
  levels f hf l handles := by
    rw [level]
    rcases frames f hf with old | ⟨runs, -⟩
    · exact sound.levels f old l handles
    · exact lt_level_of_running sound (runs.symm.trans handles)
  placed f hf := (frames f hf).elim (sound.placed f) And.right
  current := current
  failed c hc := by
    obtain ⟨rfl, live⟩ := failed c hc
    exact ⟨live, fun l handles => level ▸ lt_level_of_running sound handles⟩

theorem running_of_failed {c : Strand} (h : p.failed = some c) : p.running = c := by
  rw [running, h]

theorem Sound.moves (sound : p.Sound) {core : Core} {held : List Message} {lost : List MessageId}
    {log : List Record} {masked : Bool} {frames : List Frame} {fault : Option Strand}
    (steady : fault = p.failed ∧ core.kernel.current = p.core.kernel.current ∨
      fault = some p.running)
    (others : ∀ c, c ≠ p.running → stackOf c frames = stackOf c p.frames)
    (here : Aligned masked (stackOf p.running frames))
    (placed : ∀ f ∈ frames, f ∈ p.frames ∨ f.strand = p.running ∧ f.Placed) :
    Sound { p with core, held, lost, log, masked, frames, failed := fault } := by
  refine sound.goesOn ?_ rfl others (fun _ _ live => live) (fun _ => here) placed ?_ fun c hc => ?_
  · rcases steady with ⟨rfl, current⟩ | rfl
    · simp only [running, current]
    · rfl
  · rcases steady with ⟨rfl, current⟩ | rfl
    · intro sane started
      exact current ▸ sound.current sane started
    · exact nofun
  · rcases steady with ⟨rfl, -⟩ | rfl
    · have failed : p.failed = some c := hc
      exact ⟨(running_of_failed failed).symm, (sound.failed c failed).1⟩
    · cases hc
      exact ⟨rfl, sound.alive⟩

section

variable (here : p.At later w earlier)
include here

theorem At.others {c : Strand} (other : c ≠ p.running) :
    stackOf c (later ++ ⟨p.running, w'⟩ :: earlier) = stackOf c p.frames := by
  rw [here.frames, stackOf_middle other, stackOf_middle other]

theorem At.others_of_gone {c : Strand} (other : c ≠ p.running) :
    stackOf c (later ++ earlier) = stackOf c p.frames := by
  rw [here.frames, stackOf_middle other]

theorem At.mem : ⟨p.running, w⟩ ∈ p.frames := by
  rw [here.frames]
  exact List.mem_append_right later List.mem_cons_self

theorem At.frames_of_gone {f : Frame} (hf : f ∈ later ++ earlier) : f ∈ p.frames := by
  rw [here.frames]
  exact (List.sublist_cons_self _ earlier).append_left later |>.subset hf

theorem At.frames_of_next {f : Frame} (next : Frame.Placed ⟨p.running, w'⟩)
    (hf : f ∈ later ++ ⟨p.running, w'⟩ :: earlier) :
    f ∈ p.frames ∨ f.strand = p.running ∧ f.Placed := by
  rcases List.mem_append.1 hf with hf | hf
  · exact .inl (here.frames_of_gone (List.mem_append_left _ hf))
  · rcases List.mem_cons.1 hf with rfl | hf
    · exact .inr ⟨rfl, next⟩
    · exact .inl (here.frames_of_gone (List.mem_append_right _ hf))

theorem At.stack_of_gone : stackOf p.running (later ++ earlier) = stackOf p.running earlier := by
  rw [stackOf_append, stackOf_of_others here.latest, List.nil_append]

theorem At.aligned (sound : p.Sound) : Aligned p.masked (w :: stackOf p.running earlier) :=
  here.stack ▸ sound.here

end

theorem Sound.placed_at (sound : p.Sound) {α : Type} {s : Service α} {rest : Program Unit α}
    {ph : Phase} {entry : Bool} {sector : Sector}
    (here : p.At later (.serves ⟨s, rest, ph, entry, sector⟩) earlier) :
    (s.isStart → p.running = .thread none) ∧ (s.isSwitch → p.running = .handler 0) :=
  sound.placed _ here.mem

theorem Sound.serves (sound : p.Sound) {α : Type} {s : Service α} {rest rest' : Program Unit α}
    {ph ph' : Phase} {entry : Bool} {sector sector' : Sector}
    (here : p.At later (.serves ⟨s, rest, ph, entry, sector⟩) earlier) {core : Core}
    {log : List Record} {fault : Option Strand} {masked : Bool}
    (mask : masked = (sector'.isMasked || entry))
    (steady : fault = p.failed ∧ core.kernel.current = p.core.kernel.current ∨
      fault = some p.running)
    (goesOn : Guards s entry rest Ends sector → Guards s entry rest' Ends sector') :
    Sound { p with
      core, log, masked
      frames := later ++ ⟨p.running, .serves ⟨s, rest', ph', entry, sector'⟩⟩ :: earlier
      failed := fault } := by
  obtain ⟨-, guards, opens, below⟩ := here.aligned sound
  refine sound.moves steady (fun c other => here.others other) ?_ fun f hf => ?_
  · rw [stackOf_latest here.latest]
    exact ⟨mask, goesOn guards, opens, below⟩
  · have placed : Frame.Placed ⟨p.running, .serves ⟨s, rest', ph', entry, sector'⟩⟩ :=
      sound.placed_at here
    exact here.frames_of_next placed hf

theorem Sound.boot (clock : Clock) : ({ core := { clock } } : Processor).Sound where
  aligned c _ := by
    rw [seen, Bool.false_and]
    rfl
  levels _ hf := nomatch hf
  placed _ hf := nomatch hf
  current _ started := nomatch started
  failed _ failed := nomatch failed

theorem running_of_thread (h : p.failed = none) (level : p.level = 0) :
    p.running = .thread (p.stage.thread p.core.kernel.current) := by
  rw [running, h, level]

theorem level_of_thread (h : p.failed = none) {t : Option TaskId} (runs : p.running = .thread t) :
    p.level = 0 := by
  cases level : p.level with
  | zero => rfl
  | succ l =>
    rw [running, h, level] at runs
    cases runs

section

variable {α β : Type} {s : Service α} {a : Action β} {next : Except Fault β → Program Unit α}
  {ph ph' : Phase} {entry : Bool} {sector : Sector} {b : β} {core : Core} {log : List Record}

theorem Sound.running_act (sound : p.Sound)
    (here : p.At later (.serves ⟨s, .ask (.act a) next, ph, entry, sector⟩) earlier)
    (result : a.toSection p.core = .ok b core) {frames : List Frame} :
    running { p with core, log, frames, stage := p.stage.after a } = p.running := by
  obtain ⟨-, ⟨-, ⟨switches, starts⟩, -⟩, -⟩ := here.aligned sound
  cases failed : p.failed with
  | some c => simp only [running, failed]
  | none =>
    cases level : p.level with
    | succ l => simp only [running, failed, level]
    | zero =>
      have thread := running_of_thread failed level
      rcases Action.current_cases result p.stage with
        ⟨idle, is, current, stage⟩ | ⟨stage, ⟨target, is, -⟩ | current⟩
      · rw [(sound.placed_at here).1 (starts is), running_of_thread rfl rfl]
        simp only [stage, current, Stage.thread, if_true]
      · exact nomatch thread.symm.trans ((sound.placed_at here).2 (switches ▸ is))
      · rw [thread, running_of_thread rfl rfl]
        simp only [stage, current]

theorem Sound.act (sound : p.Sound)
    (here : p.At later (.serves ⟨s, .ask (.act a) next, ph, entry, sector⟩) earlier)
    (result : a.toSection p.core = .ok b core) :
    Sound { p with
      core, log
      stage := p.stage.after a
      frames := later ++ ⟨p.running, .serves ⟨s, next (.ok b), ph', entry, .spent⟩⟩ :: earlier } := by
  obtain ⟨masked, ⟨rfl, ⟨-, starts⟩, guards⟩, opens, below⟩ := here.aligned sound
  have placed : Frame.Placed ⟨p.running, .serves ⟨s, next (.ok b), ph', entry, .spent⟩⟩ :=
    sound.placed_at here
  have cases := Action.current_cases result p.stage
  refine sound.goesOn (sound.running_act here result) rfl (fun c other => here.others other)
    (fun c other live boots => ?_) (fun _ => ?_) (fun f hf => here.frames_of_next placed hf)
    (fun sane started => ?_) fun c hc => ?_
  · rcases cases with ⟨idle, is, -⟩ | ⟨stage, -⟩
    · exact (other (boots.trans ((sound.placed_at here).1 (starts is)).symm)).elim
    · exact (congrArg Stage.isUp stage).symm.trans (live boots)
  · rw [stackOf_latest here.latest]
    exact ⟨masked, guards (.ok b), opens, below⟩
  · rcases cases with ⟨idle, -, current, -⟩ | ⟨stage, ⟨target, -, current⟩ | current⟩
    · exact fun none => nomatch current.symm.trans none
    · exact fun none => nomatch current.symm.trans none
    · exact current ▸ sound.current sane (stage ▸ started)
  · have failed : p.failed = some c := hc
    refine ⟨(running_of_failed failed).symm, fun boots => ?_⟩
    rcases cases with ⟨idle, -, -, stage⟩ | ⟨stage, -⟩
    · exact congrArg Stage.isUp stage
    · exact (congrArg Stage.isUp stage).trans ((sound.failed c failed).1 boots)

end

theorem Sound.push (sound : p.Sound) {held : List Message} {masked : Bool}
    (here : Aligned masked (w :: stackOf p.running p.frames))
    (placed : Frame.Placed ⟨p.running, w⟩) :
    Sound { p with held, masked, frames := ⟨p.running, w⟩ :: p.frames } := by
  refine sound.moves (.inl ⟨rfl, rfl⟩) (fun c other => ?_) ?_ fun f hf => ?_
  · exact stackOf_cons.trans (if_neg fun h => other h.symm)
  · rw [stackOf_cons, if_pos rfl]
    exact here
  · rcases List.mem_cons.1 hf with rfl | hf
    · exact .inr ⟨rfl, placed⟩
    · exact .inl hf

theorem Sound.pop (sound : p.Sound) (here : p.At later w earlier) {held : List Message}
    {masked : Bool} (below : Aligned masked (stackOf p.running earlier)) :
    Sound { p with held, masked, frames := later ++ earlier } := by
  refine sound.moves (.inl ⟨rfl, rfl⟩) (fun c other => here.others_of_gone other) ?_ fun f hf =>
    .inl (here.frames_of_gone hf)
  rw [here.stack_of_gone]
  exact below

theorem Sound.unseen (sound : p.Sound) (unmasked : p.masked = false) {c : Strand} (live : p.Alive c) :
    Aligned false (stackOf c p.frames) := by
  have aligned := sound.aligned c live
  rwa [seen, unmasked, Bool.false_and] at aligned

theorem Sound.launch (sound : p.Sound) {α : Type} {s : Service α} {sp : StackPointer}
    {next : Unit → Program Unit α} {ph : Phase} {entry : Bool} {sector : Sector} {idle : TaskId}
    (sane : p.failed = none) (stage : p.stage = .launching idle) (boots : p.running = .thread none)
    (here : p.At later (.serves ⟨s, .ask (.startFirst sp) next, ph, entry, sector⟩) earlier) :
    Sound { p with
      masked := false
      stage := .up idle
      frames := later ++ ⟨p.running, .serves ⟨s, next (), ph, entry, sector⟩⟩ :: earlier } := by
  have placed : Frame.Placed ⟨p.running, .serves ⟨s, next (), ph, entry, sector⟩⟩ :=
    sound.placed_at here
  refine ⟨fun c live => ?_, fun f hf l handles => ?_, fun f hf => ?_, fun _ _ => ?_, fun c hc =>
    nomatch sane.symm.trans hc⟩
  · have other : c ≠ p.running := fun h => nomatch live (h.trans boots)
    have aligned := sound.aligned c fun h => (other (h.trans boots.symm)).elim
    rw [seen, decide_eq_false other, Bool.and_false] at aligned
    rwa [seen, Bool.false_and, here.others other]
  · rcases here.frames_of_next placed hf with hf | ⟨runs, -⟩
    · exact sound.levels f hf l handles
    · exact nomatch boots.symm.trans (runs.symm.trans handles)
  · exact (here.frames_of_next placed hf).elim (sound.placed f) And.right
  · exact sound.current sane (by rw [stage]; rfl)

theorem Sound.interrupt (sound : p.Sound) (sane : p.failed = none) (unmasked : p.masked = false) :
    Sound { p with level := p.level + 1 } where
  aligned c live := by
    rw [seen, show ({ p with level := p.level + 1 } : Processor).masked = false from unmasked,
      Bool.false_and]
    exact sound.unseen unmasked live
  levels f hf l handles := Nat.lt_succ_of_lt (sound.levels f hf l handles)
  placed := sound.placed
  current := sound.current
  failed _ hc := nomatch sane.symm.trans hc

theorem Sound.exception (sound : p.Sound) {sp : StackPointer} {served : Nat} (sane : p.failed = none)
    (unmasked : p.masked = false) (threads : p.level = 0) :
    Sound { p with
      level := 1
      served
      frames := ⟨.handler 0, .serves ⟨.switch sp, Call.switch sp, {}, p.masked, .outside⟩⟩ ::
        p.frames } := by
  have bare : stackOf (.handler 0) p.frames = [] := stackOf_of_others fun f hf handles =>
    Nat.not_lt_zero 0 (threads ▸ sound.levels f hf 0 handles)
  have begins : Aligned false [.serves ⟨.switch sp, Call.switch sp, {}, p.masked, .outside⟩] :=
    ⟨unmasked.symm, Guards.switch, fun _ h => (nomatch h), unmasked⟩
  have placed : Frame.Placed
      ⟨.handler 0, .serves ⟨.switch sp, Call.switch sp, {}, p.masked, .outside⟩⟩ :=
    ⟨fun h => Bool.noConfusion h, fun _ => rfl⟩
  refine ⟨fun c live => ?_, ?_, List.forall_mem_cons.2 ⟨placed, sound.placed⟩, sound.current,
    fun c hc => nomatch sane.symm.trans hc⟩
  · have before := sound.unseen unmasked (c := c) live
    rw [seen, show (Processor.masked _ && _) = false from Bool.and_eq_false_iff.2 (.inl unmasked),
      stackOf_cons]
    split
    · next first =>
      subst first
      rw [bare]
      exact begins
    · exact before
  · refine List.forall_mem_cons.2 ⟨fun l handles => ?_, fun f hf l handles => ?_⟩
    · cases handles
      exact Nat.zero_lt_one
    · exact (Nat.not_lt_zero l (threads ▸ sound.levels f hf l handles)).elim

theorem Sound.back (sound : p.Sound) {level : Nat} (sane : p.failed = none)
    (handles : p.level = level + 1) (bare : stackOf (.handler level) p.frames = []) :
    p.masked = false ∧ Sound { p with level } := by
  have runs : p.running = .handler level := by rw [running, sane, handles]
  have unmasked : p.masked = false := by
    have here := sound.here
    rwa [runs, bare] at here
  refine ⟨unmasked, fun c live => ?_, fun f hf l handled => ?_, sound.placed, sound.current,
    fun c hc => nomatch sane.symm.trans hc⟩
  · rw [seen, show ({ p with level } : Processor).masked = false from unmasked, Bool.false_and]
    exact sound.unseen unmasked live
  · have below := sound.levels f hf l handled
    rw [handles] at below
    refine Nat.lt_of_le_of_ne (Nat.le_of_lt_succ below) ?_
    rintro rfl
    have mem : f.work ∈ stackOf (.handler l) p.frames :=
      List.mem_map_of_mem (List.mem_filter.2 ⟨hf, decide_eq_true handled⟩)
    rw [bare] at mem
    exact nomatch mem

theorem Sound.step (sound : p.Sound) (step : Step p p') : p'.Sound := by
  cases step with
  | begin _ call held may opens boots _ =>
    exact sound.push ⟨rfl, Service.guards _ _, opens, sound.here⟩ ⟨boots, nofun⟩
  | answer _ later earlier s r next ph entry masked' sector sector' b c here may answer masking =>
    have masked : p.masked = (sector.isMasked || entry) := (here.aligned sound).1
    rw [masked] at masking
    have mask := ((here.aligned sound).2.1.reply answer masking).1
    exact sound.serves here mask (.inl ⟨rfl, congrArg Kernel.current answer.kernel_eq⟩)
      fun guards => (guards.reply answer masking).2
  | act _ later earlier s a next ph entry sector b c here may result => exact sound.act here result
  | fail _ later earlier s a next ph entry sector f c here may result =>
    obtain ⟨masked, ⟨rfl, -⟩, -⟩ := here.aligned sound
    exact sound.serves here masked (.inr rfl) fun guards => guards.2.2 (.error f)
  | unroll _ later earlier s body t next ph entry sector here may =>
    exact sound.serves here (here.aligned sound).1 (.inl ⟨rfl, rfl⟩) Guards.unroll
  | finish _ later earlier s a ph entry sector here may =>
    obtain ⟨masked, ends, -, below⟩ := here.aligned sound
    obtain rfl : sector = .outside := ends
    refine sound.pop here ?_
    rw [masked]
    exact below
  | launch _ later earlier s sp next ph entry sector idle sane stage boots here may =>
    exact sound.launch sane stage boots here
  | guard _ may opens => exact sound.push ⟨rfl, opens, sound.here⟩ trivial
  | unguard _ later earlier saved here may => exact sound.pop here (here.aligned sound).2.2
  | interrupt _ sane unmasked => exact sound.interrupt sane unmasked
  | exception _ sp sane unmasked threads due => exact sound.exception sane unmasked threads
  | back _ level sane handles bare => exact (sound.back sane handles bare).2
  | write | drop | elapse =>
    exact sound.moves (.inl ⟨rfl, rfl⟩) (fun _ _ => rfl) sound.here fun f hf => .inl hf

theorem Runs.sound (h : p.Runs) : p.Sound := by
  induction h with
  | boot clock => exact .boot clock
  | step _ step ih => exact ih.step step

end Processor

def Program.isAtKernel {α : Type} : Program Unit α → Bool
  | .ask (.act _) _ | .ask .pend _ => true
  | _ => false

def Program.isAtApplication {α : Type} : Program Unit α → Bool
  | .done _ | .ask (.put _ _) _ | .ask (.control _ _ _ _) _ | .ask (.fault _) _ => true
  | _ => false

/-- The service keeps to the mask: the kernel is its own in masked sections only, and what it leaves to
the application runs outside of them, with the mask that the service found. -/
structure Serving.KeepsMask (masked : Bool) (x : Serving) : Prop where
  masks : x.rest.isAtKernel → masked = true ∧ x.sector = .fresh
  restores : x.rest.isAtApplication → masked = x.entry ∧ x.sector = .outside

/-- The service that runs keeps to the mask, and by nothing else is the kernel changed or a switch
requested. One strand gives way to another with interrupts unmasked. -/
structure Processor.Disciplined (p : Processor) : Prop where
  keeps : ∀ x, p.latest = some (.serves x) → x.KeepsMask p.masked
  touches : ∀ p', Step p p' →
    p'.core.kernel ≠ p.core.kernel ∨ p'.core.requests ≠ p.core.requests →
      ∃ x, p.latest = some (.serves x) ∧ x.rest.isAtKernel
  leaves : ∀ p', Step p p' → p'.running ≠ p.running → p'.masked = false

theorem Aligned.keepsMask {x : Serving} {ws : List Work} {masked : Bool}
    (h : Aligned masked (.serves x :: ws)) : x.KeepsMask masked := by
  obtain ⟨s, rest, ph, entry, sector⟩ := x
  obtain ⟨rfl, guards, -⟩ := h
  have outer (h : sector = .outside) :
      (sector.isMasked || entry) = entry ∧ sector = .outside := by
    rw [h]
    exact ⟨rfl, rfl⟩
  cases rest with
  | done a => exact ⟨nofun, fun _ => outer guards⟩
  | loop body t next => exact ⟨nofun, nofun⟩
  | ask r next =>
    cases r
    case act | pend =>
      obtain ⟨rfl, -⟩ := guards
      exact ⟨fun _ => ⟨rfl, rfl⟩, nofun⟩
    case put | control => exact ⟨nofun, fun _ => outer guards.1⟩
    case fault => exact ⟨nofun, fun _ => outer guards⟩
    all_goals exact ⟨nofun, nofun⟩

theorem Reply.requests_eq {α β : Type} {r : Request Unit β} {next : β → Program Unit α} {c c' : Core}
    {b : β} (h : Reply r c b c') (other : (Program.ask r next).isAtKernel = false) :
    c'.requests = c.requests := by
  cases h <;> first | rfl | cases other

namespace Processor

variable {p p' : Processor}

theorem Step.touches (step : Step p p')
    (changes : p'.core.kernel ≠ p.core.kernel ∨ p'.core.requests ≠ p.core.requests) :
    ∃ x, p.latest = some (.serves x) ∧ x.rest.isAtKernel := by
  have still (kernel : p'.core.kernel = p.core.kernel) (requests : p'.core.requests = p.core.requests) :
      False := changes.elim (· kernel) (· requests)
  cases step with
  | answer _ later earlier s r next ph entry masked' sector sector' b c here may answer masking =>
    refine ⟨_, here.latest_eq, ?_⟩
    by_contra other
    exact still (answer.kernel_eq) (answer.requests_eq (Bool.eq_false_iff.2 other))
  | act _ later earlier s a next ph entry sector b c here may result =>
    exact ⟨_, here.latest_eq, rfl⟩
  | fail _ later earlier s a next ph entry sector f c here may result =>
    exact ⟨_, here.latest_eq, rfl⟩
  | _ => exact (still rfl rfl).elim

theorem Step.leaves (step : Step p p') (sound : p.Sound) (other : p'.running ≠ p.running) :
    p'.masked = false := by
  cases step with
  | answer _ later earlier s r next ph entry masked' sector sector' b c here may answer masking =>
    refine (other ?_).elim
    simp only [running, answer.kernel_eq]
  | act _ later earlier s a next ph entry sector b c here may result =>
    exact (other (sound.running_act here result)).elim
  | launch => rfl
  | interrupt _ sane unmasked => exact unmasked
  | exception _ sp sane unmasked threads due => exact unmasked
  | back _ level sane handles bare => exact (sound.back sane handles bare).1
  | _ => exact (other rfl).elim

end Processor

/-- On every run, with guards and calls nested in any way, each service keeps to the interrupt mask. -/
theorem Processor.Runs.disciplined {p : Processor} (h : p.Runs) : p.Disciplined where
  keeps x here := by
    obtain ⟨ws, stack⟩ := List.head?_eq_some_iff.1 here
    exact (stack ▸ h.sound.here).keepsMask
  touches p' step := step.touches
  leaves p' step := step.leaves h.sound

open Processor.Move in
/-- A task waits for a semaphore in a control routine and is posted. It goes on, and posts the
semaphore itself, with interrupts masked by the routine. -/
def Processor.postInRoutine : List Processor.Move :=
  .begins (.createSemaphore "s" 0) :: goes 5 ++ .begins (.createQueue "d" .driver) :: goes 8 ++
    calls (.setRoutines ⟨0⟩ none (some .sum) 0) ++ creates "a" 2 100 ++ starts 200 ++
    handles .tick ++ switches 208 ++ .begins (.control ⟨0⟩ 1 2) :: goes 3 ++
    .begins (.wait ⟨0⟩ (-1)) :: goes 4 ++ switches 108 ++ handles (.post ⟨0⟩) ++ switches 216 ++
    goes 6 ++ .guards :: .begins (.post ⟨0⟩) :: goes 3

/-- The second post is about to return, to a routine that masked interrupts. -/
theorem disciplined_postInRoutine :
    (Processor.run Processor.postInRoutine).running = .thread (some ⟨0⟩) ∧
      (stackOf (.thread (some ⟨0⟩)) (Processor.run Processor.postInRoutine).frames).map Work.isOpen =
        [false, true, true] ∧
      (Processor.run Processor.postInRoutine).masked = true ∧
      (Processor.run Processor.postInRoutine).Disciplined :=
  ⟨by decide +kernel, by decide +kernel, by decide +kernel,
    (Processor.proper_run Processor.postInRoutine).runs.disciplined⟩

end Rtos
