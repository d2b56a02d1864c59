import Rtos.Proofs.Launch

/-!
# Proper runs are runs of the system

What happens on a processor is a run of the `System`, which knows no mask. A call that began with
interrupts masked counts as one of a handler there: by the rules neither may give up the processor.
-/

namespace Rtos

/-- Who makes the call in the system: a thread only if the call may give up the processor. -/
def Strand.callerOf {α : Type} (c : Strand) (call : KernelCall α) (entry : Bool) : Caller :=
  if entry && !call.isStart then .handler else c.caller

def Frame.openCall (f : Frame) : Option OpenCall :=
  match f.work with
  | .serves ⟨.call call, rest, ph, entry, _⟩ => some ⟨f.strand.callerOf call entry, call, rest, ph⟩
  | _ => none

/-- The system as it is on the processor, apart from its log. -/
structure Processor.Shows (p : Processor) (s : System) : Prop where
  core : s.core = p.core
  calls : s.calls = p.frames.filterMap Frame.openCall
  held : s.held = p.held
  lost : s.lost = p.lost

namespace Aligned

variable {masked : Bool} {w : Work} {ws : List Work}

theorem opens (h : Aligned masked (w :: ws)) : Opens ws := by
  cases w with
  | guard saved => exact h.2.1
  | serves x => exact h.2.2.1

theorem below (h : Aligned masked (w :: ws)) :
    ∃ masked, Aligned masked ws := by
  cases w with
  | guard saved => exact ⟨_, h.2.2⟩
  | serves x => exact ⟨_, h.2.2.2⟩

theorem isOpen (h : Aligned masked ws) (opens : Opens ws) :
    ∀ w ∈ ws, w.isOpen := by
  induction ws generalizing masked with
  | nil => exact fun _ hw => nomatch hw
  | cons w ws ih =>
    obtain ⟨masked', below⟩ := h.below
    exact List.forall_mem_cons.2 ⟨opens w rfl, ih below h.opens⟩

end Aligned

namespace Processor

variable {p p' : Processor} {s : System} {later earlier : List Frame} {w : Work} {c : Strand}
  {t : Option TaskId}

theorem mem_stackOf : w ∈ stackOf c p.frames ↔ ⟨c, w⟩ ∈ p.frames := by
  simp only [stackOf, List.mem_map, List.mem_filter, decide_eq_true_eq]
  constructor
  · rintro ⟨f, ⟨hf, rfl⟩, rfl⟩
    exact hf
  · exact fun hf => ⟨_, ⟨hf, rfl⟩, rfl⟩

/-- The thread that runs is that of the current task, or it is the start of the scheduler. -/
theorem Runs.current (h : p.Runs) (sane : p.failed = none) (runs : p.running = .thread t) :
    p.core.kernel.current = t ∨
      ∃ idle x sp, t = none ∧ p.stage = .launching idle ∧ p.Launching idle x sp := by
  have thread := running_of_thread sane (level_of_thread sane runs)
  rw [runs] at thread
  obtain rfl := Strand.thread.inj thread
  cases stage : p.stage with
  | booting => exact .inl rfl
  | up idle => exact .inl rfl
  | launching idle =>
    by_cases first : p.core.kernel.current = some idle
    · obtain ⟨x, sp, launching⟩ := h.launching sane stage
      exact .inr ⟨idle, x, sp, if_pos first, rfl, launching⟩
    · exact .inl (if_neg first).symm

theorem openCall_caller {o : OpenCall} {f : Frame} (view : f.openCall = some o) :
    o.caller = .handler ∨ o.caller = f.strand.caller := by
  obtain ⟨c, w⟩ := f
  rcases w with saved | ⟨s | sp, rest, ph, entry, sector⟩
  · cases view
  · cases view
    exact ite_eq_or_eq ..
  · cases view

theorem Strand.caller_thread (h : c.caller = .thread t) : c = .thread t := by
  cases c with
  | thread => exact congrArg Strand.thread (Caller.thread.inj h)
  | handler => cases h

theorem Shows.mayBegin (shows : p.Shows s) (h : p.Proper) {α : Type} {call : KernelCall α}
    (opens : ∀ w, p.latest = some w → w.isOpen)
    (allowed : Frame.Allowed p ⟨p.running, .serves ⟨.call call, call.program,
      { cargo := call.takes }, p.masked, .outside⟩⟩) :
    s.MayBegin (p.running.callerOf call p.masked) call := by
  obtain ⟨handler, unmasked, -⟩ := allowed
  unfold Strand.callerOf
  split
  · next masked =>
    intro may
    rw [Bool.and_eq_true, Bool.not_eq_true'] at masked
    exact nomatch masked.1.symm.trans (unmasked (shows.core ▸ may) masked.2)
  cases runs : p.running with
  | handler level => exact fun may => handler (by rw [runs]; rfl) (shows.core ▸ may)
  | thread t =>
    rcases h.runs.current h.sane runs with current | ⟨idle, x, sp, rfl, -, launching⟩
    · refine ⟨shows.core ▸ current, fun o ho caller => ?_⟩
      rw [shows.calls] at ho
      obtain ⟨f, hf, view⟩ := List.mem_filterMap.1 ho
      have strand : f.strand = .thread t := by
        rcases openCall_caller view with same | same
        · exact nomatch same.symm.trans caller
        · exact Strand.caller_thread (same.symm.trans caller)
      have mem : f.work ∈ stackOf p.running p.frames := by
        rw [runs, mem_stackOf, ← strand]
        exact hf
      have isOpen := h.runs.sound.here.isOpen opens _ mem
      obtain ⟨c, w⟩ := f
      rcases w with saved | ⟨s | sp, rest, ph, entry, sector⟩
      · cases view
      · cases view
        exact isOpen
      · cases view
    · refine (launching.closed (opens _ ?_)).elim
      rw [latest, runs]
      exact launching.stands

theorem Shows.mayGoOn (shows : p.Shows s) (h : p.Proper) {α : Type} {call : KernelCall α}
    {rest : Program Unit α} {ph : Phase} {entry : Bool} {sector : Sector}
    (here : p.At later (.serves ⟨.call call, rest, ph, entry, sector⟩) earlier) :
    OpenCall.MayGoOn ⟨p.running.callerOf call entry, call, rest, ph⟩
      (later.filterMap Frame.openCall) s.core.kernel := by
  unfold Strand.callerOf
  split
  · exact ⟨trivial, fun other => (other rfl).elim⟩
  cases runs : p.running with
  | handler level => exact ⟨trivial, fun other => (other rfl).elim⟩
  | thread t =>
    refine ⟨?_, fun _ o ho caller => ?_⟩
    · rcases h.runs.current h.sane runs with current | ⟨idle, x, sp, rfl, -, launching⟩
      · exact .inl (shows.core ▸ current)
      · obtain rfl := Work.serves.inj (launching.here runs here)
        exact .inr launching.starts
    · obtain ⟨f, hf, view⟩ := List.mem_filterMap.1 ho
      have strand : f.strand = .thread t := by
        rcases openCall_caller view with same | same
        · exact nomatch same.symm.trans caller
        · exact Strand.caller_thread (same.symm.trans caller)
      exact here.latest f hf (strand.trans runs.symm)

section

variable {α : Type} {call : KernelCall α} {rest : Program Unit α} {ph : Phase} {entry : Bool}
  {sector : Sector}

theorem openCalls_call :
    (later ++ ⟨c, .serves ⟨.call call, rest, ph, entry, sector⟩⟩ :: earlier).filterMap Frame.openCall =
      later.filterMap Frame.openCall ++ ⟨c.callerOf call entry, call, rest, ph⟩ ::
        earlier.filterMap Frame.openCall := List.filterMap_append

theorem openCalls_other (other : Frame.openCall ⟨c, w⟩ = none) :
    (later ++ ⟨c, w⟩ :: earlier).filterMap Frame.openCall =
      (later ++ earlier).filterMap Frame.openCall := by
  rw [List.filterMap_append, List.filterMap_append, List.filterMap_cons_none other]

end

/-- A step of a proper run is one of the system, or does nothing there. -/
theorem Shows.goes (shows : p.Shows s) (h : p.Proper) (goes : p.Goes p') :
    p'.Shows s ∨ ∃ s', System.Step s s' ∧ p'.Shows s' := by
  obtain ⟨step, allowed, sane⟩ := goes
  obtain ⟨core, calls, held, lost, log⟩ := s
  have sound := h.runs.sound
  obtain ⟨rfl, rfl, rfl, rfl⟩ := id shows
  -- What the switch exception does shows in the system when the switch itself is taken.
  cases step with
  | begin _ call held may opens boots holds =>
    exact .inr ⟨_, .begin _ _ call held (shows.mayBegin h opens (allowed _ rfl)) holds, rfl, rfl, rfl, rfl⟩
  | answer _ later earlier s r next ph entry masked' sector sector' b c here may answer masking =>
    cases s with
    | call call =>
      have may := shows.mayGoOn h here
      rw [here.frames, openCalls_call]
      exact .inr ⟨_, .reply _ _ _ _ _ _ _ _ call r next ph b may answer, rfl, openCalls_call.symm, rfl,
        rfl⟩
    | switch sp =>
      refine .inl ⟨?_, ?_, rfl, rfl⟩
      · obtain ⟨-, guards, -⟩ := here.aligned sound
        cases answer with
        | pend => exact nomatch guards.2.1
        | _ => rfl
      · rw [here.frames, openCalls_other rfl, openCalls_other rfl]
  | act _ later earlier s a next ph entry sector b c here may result =>
    obtain ⟨-, ⟨-, ⟨switches, -⟩, -⟩, -⟩ := here.aligned sound
    cases s with
    | call call =>
      have may := shows.mayGoOn h here
      rw [here.frames, openCalls_call]
      exact .inr ⟨_, .act _ _ _ _ _ _ _ _ call a next ph b may result, rfl, openCalls_call.symm, rfl,
        rfl⟩
    | switch sp =>
      cases a with
      | switch sp =>
        refine .inr ⟨_, .switch _ c sp b result, rfl, ?_, rfl, rfl⟩
        rw [here.frames, openCalls_other rfl, openCalls_other rfl]
      | _ => cases switches
  | fail => cases sane
  | unroll _ later earlier s body t next ph entry sector here may =>
    cases s with
    | call call =>
      rw [here.frames, openCalls_call]
      exact .inr ⟨_, .unroll _ _ _ _ _ _ _ call body t next ph, rfl, openCalls_call.symm, rfl, rfl⟩
    | switch sp =>
      refine .inl ⟨rfl, ?_, rfl, rfl⟩
      rw [here.frames, openCalls_other rfl, openCalls_other rfl]
  | finish _ later earlier s a ph entry sector here may =>
    cases s with
    | call call =>
      rw [here.frames, openCalls_call]
      exact .inr ⟨_, .finish _ _ _ _ _ _ _ call a ph, rfl, List.filterMap_append.symm, rfl, rfl⟩
    | switch sp =>
      refine .inl ⟨rfl, ?_, rfl, rfl⟩
      rw [here.frames, openCalls_other rfl]
  | launch _ later earlier s sp next ph entry sector idle sane stage boots here may =>
    cases s with
    | call call =>
      have may := shows.mayGoOn h here
      rw [here.frames, openCalls_call]
      exact .inr ⟨_, .reply _ _ _ _ _ _ _ _ call (.startFirst sp) next ph () may (.startFirst _ sp), rfl,
        openCalls_call.symm, rfl, rfl⟩
    | switch sp =>
      refine .inl ⟨rfl, ?_, rfl, rfl⟩
      rw [here.frames, openCalls_other rfl, openCalls_other rfl]
  | guard | interrupt | back => exact .inl ⟨rfl, rfl, rfl, rfl⟩
  | unguard _ later earlier saved here may =>
    refine .inl ⟨rfl, ?_, rfl, rfl⟩
    rw [here.frames, openCalls_other rfl]
  | exception => exact .inl ⟨rfl, rfl, rfl, rfl⟩
  | write _ before behind m payload holds fits =>
    exact .inr ⟨_, .write _ before behind m payload holds fits, rfl, rfl, rfl, rfl⟩
  | drop _ before behind m holds => exact .inr ⟨_, .drop _ before behind m holds, rfl, rfl, rfl, rfl⟩
  | elapse _ clock => exact .inr ⟨_, .elapse _ clock, rfl, rfl, rfl, rfl⟩

/-- A proper run on a processor is a run of the system. -/
theorem Proper.shown (h : p.Proper) : ∃ s, Reachable s ∧ p.Shows s := by
  induction h with
  | boot clock => exact ⟨_, .boot clock, rfl, rfl, rfl, rfl⟩
  | goes before goes ih =>
    obtain ⟨s, reachable, shows⟩ := ih
    rcases shows.goes before goes with still | ⟨s', step, shows⟩
    · exact ⟨s, reachable, still⟩
    · exact ⟨s', reachable.step step, shows⟩

end Processor

end Rtos
