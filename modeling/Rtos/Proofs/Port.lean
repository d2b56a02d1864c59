import Rtos.Proofs.Script

/-!
# Runs on a port

A port builds the frames of tasks and takes the switches. What it has to keep to is said here: a switch
gets the stack pointer of the context that really runs, and every frame has a region of memory to
itself. Which context that is follows from the switches and frames that came before.
-/

namespace Rtos

/-- The port knows in which region of memory a context was saved, and in which one it boots. -/
structure Port where
  Region : Type
  region : StackPointer → Region
  boot : Region

namespace System

inductive Answers {β : Type} (who : Caller) (r : Request Unit β) (b : β) : System → System → Prop
  | reply {α : Type} (c c' : Core) (later earlier : List OpenCall) (held : List Message)
      (lost : List MessageId) (log : List Record) (call : KernelCall α)
      (next : β → Program Unit α) (ph : Phase)
      (may : OpenCall.MayGoOn ⟨who, call, .ask r next, ph⟩ later c.kernel)
      (answer : Reply r c b c') :
      Answers who r b ⟨c, later ++ ⟨who, call, .ask r next, ph⟩ :: earlier, held, lost, log⟩
        ⟨c', later ++ ⟨who, call, next b, ph⟩ :: earlier, held, lost, log⟩

/-- The port takes a switch away from `sp` and goes on at `resumed`. -/
inductive Takes (sp resumed : StackPointer) (s : System) : System → Prop
  | switch (c : Core) (result : Section.switch sp s.core = .ok resumed c) :
      Takes sp resumed s { s with
        core := c
        log := ⟨s.core.kernel, .handler, none, ⟨.switch sp, resumed⟩⟩ :: s.log }

/-- The step has to do with contexts: a switch is taken, a frame is built, or the first frame is
entered. -/
inductive Ports (s s' : System) : Prop
  | takes (sp resumed : StackPointer) (step : s.Takes sp resumed s')
  | builds (who : Caller) (entry : Entry) (arg : UInt64) (bytes : Nat) (sp : StackPointer)
      (step : Answers who (.frame entry arg bytes) sp s s')
  | enters (who : Caller) (sp : StackPointer) (step : Answers who (.startFirst sp) () s s')

end System

def Outcome.refused : Outcome → Option StackPointer
  | ⟨.addTask _ _ sp _, none⟩ => some sp
  | _ => none

/-- The step refuses to create a task, whose frame is in the region. -/
def Port.Frees (port : Port) (s s' : System) (r : port.Region) : Prop :=
  ∃ p sp, s'.log = p :: s.log ∧ p.outcome.refused = some sp ∧ port.region sp = r

structure Port.Moment (port : Port) where
  system : System
  /-- The region of the context that really runs. -/
  here : port.Region
  frames : List StackPointer := []
  /-- The regions in which there are contexts. -/
  taken : List port.Region := [port.boot]
  /-- Whether a first frame was entered. -/
  started : Bool := false

/-- What a run on the port comes to. Each switch gets the stack pointer of the context that really
runs, each frame is built in a region of its own, which may be used again if the creation of its task
is refused, and the thread that boots carries out sections in its own context only. -/
inductive Port.Runs (port : Port) : port.Moment → Prop
  | boots (clock : Clock) :
      port.Runs { system := { core := { clock } }, here := port.boot }
  | switches {m : port.Moment} {s' : System} {sp resumed : StackPointer} (before : port.Runs m)
      (step : m.system.Takes sp resumed s') (really : port.region sp = m.here) :
      port.Runs { m with system := s', here := port.region resumed }
  | builds {m : port.Moment} {s' : System} {who : Caller} {entry : Entry} {arg : UInt64}
      {bytes : Nat} {sp : StackPointer} (before : port.Runs m)
      (step : System.Answers who (.frame entry arg bytes) sp m.system s')
      (new : port.region sp ∉ m.taken) :
      port.Runs { m with system := s', frames := sp :: m.frames, taken := port.region sp :: m.taken }
  | enters {m : port.Moment} {s' : System} {who : Caller} {sp : StackPointer}
      (before : port.Runs m) (step : System.Answers who (.startFirst sp) () m.system s')
      (boots : who = .thread none → m.here = port.boot) :
      port.Runs { m with system := s', here := port.region sp, started := true }
  | goesOn {m : port.Moment} {s' : System} {taken : List port.Region} (before : port.Runs m)
      (step : System.Step m.system s') (inner : ¬ m.system.Ports s')
      (boots : ∀ p, s'.log = p :: m.system.log → p.caller = .thread none → m.here = port.boot)
      (kept : ∀ r ∈ m.taken, r ∈ taken ∨ port.Frees m.system s' r) :
      port.Runs { m with system := s', taken }

theorem System.Answers.step {β : Type} {who : Caller} {r : Request Unit β} {b : β} {s s' : System}
    (h : System.Answers who r b s s') : System.Step s s' := by
  cases h with
  | reply c c' later earlier held lost log call next ph may answer =>
    exact .reply c c' later earlier held lost log who call r next ph b may answer

theorem System.Answers.log {β : Type} {who : Caller} {r : Request Unit β} {b : β} {s s' : System}
    (h : System.Answers who r b s s') : s'.log = s.log := by
  cases h
  rfl

theorem System.Takes.step {sp resumed : StackPointer} {s s' : System}
    (h : s.Takes sp resumed s') : System.Step s s' := by
  cases h with
  | switch c result => exact .switch s c sp resumed result

theorem Port.Runs.reachable {port : Port} {m : port.Moment} (h : port.Runs m) :
    Reachable m.system := by
  induction h with
  | boots clock => exact .boot clock
  | switches _ step _ ih => exact ih.step step.step
  | builds _ step _ ih => exact ih.step step.step
  | enters _ step _ ih => exact ih.step step.step
  | goesOn _ step _ _ _ ih => exact ih.step step

def Program.isAtPort {α : Type} : Program Unit α → Bool
  | .ask (.frame _ _ _) _ | .ask (.startFirst _) _ => true
  | _ => false

namespace System

theorem not_ports {s s' : System} (quiet : s.calls.all (!·.rest.isAtPort))
    (inner : ∀ p, s'.log = p :: s.log → p.call.isSome) : ¬ s.Ports s' := by
  have none {o : OpenCall} {later earlier : List OpenCall}
      (calls : s.calls = later ++ o :: earlier) (here : o.rest.isAtPort) : False := by
    have other := List.all_eq_true.1 quiet o (calls ▸ List.mem_append_right _ List.mem_cons_self)
    rw [here] at other
    cases other
  intro h
  cases h with
  | takes sp resumed step =>
    cases step with
    | switch c result => exact nomatch inner _ rfl
  | builds who entry arg bytes sp step =>
    cases step with
    | reply => exact none rfl rfl
  | enters who sp step =>
    cases step with
    | reply => exact none rfl rfl

theorem log_goOn {s : System} {later earlier : List OpenCall} {o : OpenCall} {p : Record}
    (h : (s.goOn later o earlier).log = p :: s.log) : p.call.isSome ∧ p.caller = o.caller := by
  have same (h : s.log = p :: s.log) : False := List.cons_ne_self p s.log h.symm
  obtain ⟨who, call, rest, ph⟩ := o
  cases rest with
  | done a => exact (same h).elim
  | loop body t rest => exact (same h).elim
  | ask r rest =>
    cases r
    case act a =>
      simp only [goOn] at h
      split at h
      · exact (same h).elim
      · obtain rfl := (List.cons.inj h).1
        exact ⟨rfl, rfl⟩
    all_goals exact (same h).elim

end System

namespace Port

/-- Contexts have numbers, and the one that boots has number 0. -/
abbrev numbered : Port := ⟨StackPointer, id, 0⟩

namespace numbered

/-- One call goes on by one request. A new frame gets the next number. -/
def goOn (m : numbered.Moment) (later : List OpenCall) (o : OpenCall) (earlier : List OpenCall) :
    numbered.Moment :=
  let next (rest : Program Unit o.α) : System :=
    { m.system with calls := later ++ { o with rest } :: earlier }
  match o.rest with
  | .ask (.frame _ _ _) rest =>
    let sp := UInt64.ofNat (m.frames.length + 1)
    if numbered.region sp ∈ m.taken then m
    else
      { m with
        system := next (rest sp)
        frames := sp :: m.frames
        taken := numbered.region sp :: m.taken }
  | .ask (.startFirst sp) rest =>
    { m with system := next (rest ()), here := sp, started := true }
  | _ => { m with system := m.system.goOn later o earlier }

def after (m : numbered.Moment) (move : Move) : numbered.Moment :=
  match move with
  | .switches =>
    match Section.switch m.here m.system.core with
    | .error _ _ => m
    | .ok resumed c =>
      { m with
        here := resumed
        system := { m.system with
          core := c
          log := ⟨m.system.core.kernel, .handler, none, ⟨.switch m.here, resumed⟩⟩ :: m.system.log } }
  | .goesOn n =>
    match m.system.calls[n]? with
    | none => m
    | some o =>
      let later := m.system.calls.take n
      let earlier := m.system.calls.drop (n + 1)
      if System.canGoOn o later m.system.core.kernel ∧ (o.caller = .thread none → m.here = 0) ∧
          (later ++ earlier).all (!·.rest.isAtPort) then
        goOn m later o earlier
      else m
  | move =>
    if m.system.calls.all (!·.rest.isAtPort) then { m with system := m.system.after move } else m

variable {m : numbered.Moment}

theorem goOn_runs (run : numbered.Runs m) {later earlier : List OpenCall} {o : OpenCall}
    (calls : m.system.calls = later ++ o :: earlier) (may : o.MayGoOn later m.system.core.kernel)
    (boots : o.caller = .thread none → m.here = 0)
    (quiet : (later ++ earlier).all (!·.rest.isAtPort)) :
    numbered.Runs (goOn m later o earlier) := by
  obtain ⟨⟨c, _, held, lost, log⟩, here, frames, taken, started⟩ := m
  obtain rfl : _ = later ++ o :: earlier := calls
  -- A request that the port has nothing to do with.
  have inner (other : o.rest.isAtPort = false) : numbered.Runs
      ⟨System.goOn ⟨c, later ++ o :: earlier, held, lost, log⟩ later o earlier, here, frames, taken,
        started⟩ := by
    rcases System.goOn_step rfl may with same | step
    · rw [same]
      exact run
    · refine run.goesOn step (System.not_ports ?_ fun p hp => (System.log_goOn hp).1) (fun p hp who =>
        boots ((System.log_goOn hp).2.symm.trans who)) fun _ => .inl
      rw [List.all_append] at quiet ⊢
      simpa [other] using quiet
  obtain ⟨who, call, rest, ph⟩ := o
  cases rest with
  | done a => exact inner rfl
  | loop body t rest => exact inner rfl
  | ask r rest =>
    cases r
    case frame entry arg bytes =>
      simp only [goOn]
      split
      · exact run
      · next new => exact run.builds (.reply _ _ _ _ _ _ _ _ _ _ may (.frame ..)) new
    case startFirst sp =>
      exact run.enters (.reply _ _ _ _ _ _ _ _ _ _ may (.startFirst ..)) boots
    all_goals exact inner rfl

theorem after_runs (run : numbered.Runs m) (move : Move) : numbered.Runs (after m move) := by
  have begins {move : Move} (quiet : m.system.calls.all (!·.rest.isAtPort))
      (same : (m.system.after move).log = m.system.log) :
      numbered.Runs { m with system := m.system.after move } := by
    have none (p : Record) (hp : (m.system.after move).log = p :: m.system.log) : False :=
      List.cons_ne_self p m.system.log (hp.symm.trans same)
    rcases m.system.after_step move with still | step
    · rw [still]
      exact run
    · exact run.goesOn step (System.not_ports quiet fun p hp => (none p hp).elim)
        (fun p hp => (none p hp).elim) fun _ => .inl
  cases move with
  | goesOn n =>
    simp only [after]
    split
    · exact run
    next o ho =>
    split
    · next h =>
      obtain ⟨hn, rfl⟩ := List.getElem?_eq_some_iff.1 ho
      refine goOn_runs run ?_ (System.mayGoOn h.1) h.2.1 h.2.2
      rw [← List.drop_eq_getElem_cons hn, List.take_append_drop]
    · exact run
  | switches =>
    simp only [after]
    split
    · exact run
    · next result => exact run.switches (.switch _ result) rfl
  | _ =>
    -- A caller does something between its calls.
    simp only [after]
    split
    · next quiet =>
      refine begins quiet ?_
      simp only [System.after]
      repeat' split
      all_goals rfl
    · exact run

def run (moves : List Move) : numbered.Moment :=
  moves.foldl after { system := {}, here := 0 }

theorem runs_run (moves : List Move) : numbered.Runs (run moves) := by
  have all {m : numbered.Moment} (start : numbered.Runs m) :
      numbered.Runs (moves.foldl after m) := by
    induction moves generalizing m with
    | nil => exact start
    | cons move moves ih => exact ih (after_runs start move)
  exact all (.boots {})

end numbered

end Port

end Rtos
