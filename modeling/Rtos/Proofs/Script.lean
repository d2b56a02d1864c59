import Mathlib.Logic.Relation
import Rtos.Proofs.Run

/-!
# Runs by script

A script says what happens next, move by move. What cannot happen is passed over, so every script is
a run, and what it comes to is reachable.
-/

namespace Rtos

inductive Move
  | begins (who : Caller) {α : Type} (call : KernelCall α)
  | puts (who : Caller) (q : QueueId)
  /-- The first of the messages that somebody holds is put on a queue as a tagged one. -/
  | putsTagged (who : Caller) (q : QueueId) (code length : UInt16)
  /-- The first of the messages that somebody holds is written to. -/
  | writes (payload : Payload)
  /-- A call goes on by one request; `n` others were made since. -/
  | goesOn (n : Nat)
  | switches

namespace System

def isBrief {α : Type} : KernelCall α → Bool
  | .tick | .post _ | .wake _ | .put _ _ => true
  | _ => false

def canBegin (s : System) (who : Caller) {α : Type} (call : KernelCall α) : Bool :=
  match who with
  | .handler => isBrief call
  | .thread t => s.core.kernel.current = t ∧
      s.calls.all fun o => o.caller ≠ .thread t ∨ o.rest.isAtRoutine

def canGoOn (o : OpenCall) (later : List OpenCall) (k : Kernel) : Bool :=
  match o.caller with
  | .handler => true
  | .thread t => (k.current = t ∨ o.call.isStart) ∧ later.all (·.caller ≠ .thread t)

def goOn (s : System) (later : List OpenCall) (o : OpenCall) (earlier : List OpenCall) : System :=
  let next (rest : Program Unit o.α) : System :=
    { s with calls := later ++ { o with rest } :: earlier }
  match o.rest with
  | .done a => { s with calls := later ++ earlier, held := o.call.gives a ++ s.held }
  | .loop body t rest => next (Program.unroll body t rest)
  | .ask r rest =>
    match r, rest with
    | .mask, rest => next (rest false)
    | .unmask _, rest | .barrier, rest | .idle, rest | .startFirst _, rest | .put _ _, rest
    | .note _, rest => next (rest ())
    | .pend, rest => { next (rest ()) with core := s.core.requestSwitch }
    | .reserve bytes, rest => next (rest (bytes < Limits.blockBound))
    | .frame _ _ _, rest => next (rest 0)
    | .control _ _ _ _, rest => next (rest 0)
    | .act a, rest =>
      match a.toSection s.core with
      | .error _ _ => s
      | .ok b c =>
        { s with
          core := c
          calls := later ++ { o with rest := rest (.ok b), phase := o.phase.after ⟨a, b⟩ } :: earlier
          log := ⟨s.core.kernel, o.caller, some ⟨o.α, o.call⟩, ⟨a, b⟩⟩ :: s.log }
    | _, _ => s

def after (s : System) : Move → System
  | .begins who call =>
    if call.takes = [] ∧ s.canBegin who call then
      { s with calls := ⟨who, call, call.program, {}⟩ :: s.calls }
    else s
  | .puts who q =>
    match s.held with
    | [] => s
    | m :: held =>
      if s.canBegin who (.put q m) then
        { s with calls := ⟨who, .put q m, (KernelCall.put q m).program, { cargo := [m] }⟩ :: s.calls
                 held }
      else s
  | .putsTagged who q code length =>
    match s.held with
    | [] => s
    | m :: held =>
      let call : KernelCall Unit := .putTagged q ⟨m⟩ code length
      if s.canBegin who call then
        { s with calls := ⟨who, call, call.program, { cargo := [m] }⟩ :: s.calls, held }
      else s
  | .writes payload =>
    match s.held with
    | [] => s
    | m :: held =>
      if payload.length = m.payload.length then { s with held := { m with payload } :: held } else s
  | .goesOn n =>
    match s.calls[n]? with
    | none => s
    | some o =>
      if canGoOn o (s.calls.take n) s.core.kernel then
        s.goOn (s.calls.take n) o (s.calls.drop (n + 1))
      else s
  | .switches =>
    match Section.switch 0 s.core with
    | .error _ _ => s
    | .ok resumed c =>
      { s with
        core := c
        log := ⟨s.core.kernel, .handler, none, ⟨.switch 0, resumed⟩⟩ :: s.log }

def run (moves : List Move) : System := moves.foldl after {}

theorem mayBegin {s : System} {who : Caller} {α : Type} {call : KernelCall α}
    (h : s.canBegin who call) : s.MayBegin who call := by
  cases who with
  | handler => cases call <;> first | exact id | exact nomatch h
  | thread t =>
    simp only [canBegin, Bool.decide_and, Bool.and_eq_true, decide_eq_true_eq,
      List.all_eq_true] at h
    exact ⟨h.1, fun o ho hc => (h.2 o ho).resolve_left fun hn => hn hc⟩

theorem mayGoOn {o : OpenCall} {later : List OpenCall} {k : Kernel} (h : canGoOn o later k) :
    o.MayGoOn later k := by
  obtain ⟨who, call, rest, ph⟩ := o
  cases who with
  | handler => exact ⟨trivial, fun hn => (hn rfl).elim⟩
  | thread t =>
    simp only [canGoOn, Bool.decide_and, Bool.and_eq_true, decide_eq_true_eq, List.all_eq_true] at h
    exact ⟨h.1, fun _ x hx => h.2 x hx⟩

theorem goOn_step {s : System} {later earlier : List OpenCall} {o : OpenCall}
    (calls : s.calls = later ++ o :: earlier) (may : o.MayGoOn later s.core.kernel) :
    s.goOn later o earlier = s ∨ System.Step s (s.goOn later o earlier) := by
  obtain ⟨c, _, held, lost, log⟩ := s
  obtain rfl : _ = later ++ o :: earlier := calls
  obtain ⟨who, call, rest, ph⟩ := o
  cases rest with
  | done a => exact .inr (.finish ..)
  | loop body t rest => exact .inr (.unroll ..)
  | ask r rest =>
    have reply {β : Type} {r : Request Unit β} {rest : β → Program Unit _} {b : β} {c' : Core}
        (may : OpenCall.MayGoOn ⟨who, call, .ask r rest, ph⟩ later c.kernel)
        (answer : Reply r c b c') :=
      System.Step.reply c c' later earlier held lost log who call r rest ph b may answer
    cases r
    case mask => exact .inr (reply may (.mask c false))
    case unmask saved => exact .inr (reply may (.unmask c saved))
    case barrier => exact .inr (reply may (.barrier c))
    case idle => exact .inr (reply may (.idle c))
    case pend => exact .inr (reply may (.pend c))
    case reserve bytes => exact .inr (reply may (.reserve c .any bytes _ of_decide_eq_true))
    case frame entry arg bytes => exact .inr (reply may (.frame c entry arg bytes 0))
    case startFirst sp => exact .inr (reply may (.startFirst c sp))
    case put r data => exact .inr (reply may (.put c r data))
    case control r data control arg => exact .inr (reply may (.control c r data control arg 0))
    case note n => exact .inr (reply may (.note c n))
    case act a =>
      cases result : a.toSection c with
      | error e c' => exact .inl (by simp only [goOn, result])
      | ok b c' =>
        simp only [goOn, result]
        exact .inr (.act c c' later earlier held lost log who call a rest ph b may result)
    all_goals exact .inl rfl

theorem after_step (s : System) (move : Move) : s.after move = s ∨ System.Step s (s.after move) := by
  cases move with
  | begins who call =>
    simp only [after]
    split
    · next h =>
      have step := System.Step.begin s who call s.held (mayBegin h.2) (by rw [h.1]; rfl)
      rw [h.1] at step
      exact .inr step
    · exact .inl rfl
  | puts who q =>
    simp only [after]
    split
    · exact .inl rfl
    next m held hm =>
    split
    · next h => exact .inr (.begin s who (.put q m) held (mayBegin h) (by rw [hm]; rfl))
    · exact .inl rfl
  | putsTagged who q code length =>
    simp only [after]
    split
    · exact .inl rfl
    next m held hm =>
    split
    · next h =>
      exact .inr (.begin s who (.putTagged q ⟨m⟩ code length) held (mayBegin h) (by rw [hm]; rfl))
    · exact .inl rfl
  | writes payload =>
    simp only [after]
    split
    · exact .inl rfl
    next m held hm =>
    split
    · next fits => exact .inr (.write s [] held m payload hm fits)
    · exact .inl rfl
  | goesOn n =>
    simp only [after]
    split
    · exact .inl rfl
    next o ho =>
    split
    · next h =>
      obtain ⟨hn, rfl⟩ := List.getElem?_eq_some_iff.1 ho
      refine goOn_step ?_ (mayGoOn h)
      rw [← List.drop_eq_getElem_cons hn, List.take_append_drop]
    · exact .inl rfl
  | switches =>
    simp only [after]
    split
    · exact .inl rfl
    · next result => exact .inr (.switch s _ 0 _ result)

/-- A script is a run from wherever it starts. -/
theorem leads (s : System) (moves : List Move) :
    Relation.ReflTransGen System.Step s (moves.foldl after s) := by
  induction moves generalizing s with
  | nil => exact .refl
  | cons move moves ih =>
    rcases s.after_step move with hs | hs
    · rw [List.foldl_cons, hs]
      exact ih s
    · exact .head hs (ih _)

theorem reachable_run (moves : List Move) : Reachable (run moves) := by
  have all {s s' : System} (h : Reachable s) (run : Relation.ReflTransGen System.Step s s') :
      Reachable s' := by
    induction run with
    | refl => exact h
    | tail _ step ih => exact ih.step step
  exact all (.boot {}) (leads _ moves)

theorem along {s s₂ : System} (first : Move) (moves : List Move)
    (comes : (first :: moves).foldl after s = s₂) (more : s.log.length < (s.after first).log.length)
    (count : Nat) (since : (s₂.log.drop count).length = (s.after first).log.length)
    (h : Reachable s) : ∃ p s₁, System.Step s s₁ ∧ s₁.log = p :: s.log ∧
      (s.after first).log.head? = some p ∧ Relation.ReflTransGen System.Step s₁ s₂ ∧
      s₂.log = s₂.log.take count ++ s₁.log := by
  have step := (s.after_step first).resolve_left fun same => by
    rw [same] at more
    exact Nat.lt_irrefl _ more
  rcases step.acts with ⟨-, same⟩ | ⟨p, c', -, -, log⟩
  · rw [same] at more
    exact (Nat.lt_irrefl _ more).elim
  have run := leads (s.after first) moves
  rw [← List.foldl_cons, comes] at run
  refine ⟨p, s.after first, step, log, log ▸ rfl, run, ?_⟩
  obtain ⟨-, newer, later, -⟩ := (h.step step).run_induction (P := fun _ _ => True) run trivial
    fun _ _ _ _ _ _ _ => trivial
  have same := List.append_inj' ((List.take_append_drop count s₂.log).trans later) since
  exact same.1 ▸ later

end System

namespace Script

def goesOn (n : Nat) : List Move := List.replicate n (.goesOn 0)

def calls (who : Caller) {α : Type} (call : KernelCall α) : List Move :=
  .begins who call :: goesOn 4

def creates (name : String) (priority : UInt8) : List Move :=
  .begins (.thread none) (.createTask .worker 0 name priority (.fixed 64)) :: goesOn 9

def starts : List Move := calls (.thread none) .schedule ++ [.switches]

def waits (t : TaskId) (ticks : Int32) : List Move :=
  .begins (.thread (some t)) (.wait ⟨0⟩ ticks) :: goesOn 3 ++ [.switches]

/-- Two tasks wait for a semaphore without units; the time of the first one is over, but it has not
gone on yet. -/
def twoWaiters : List Move :=
  .begins (.thread none) (.createSemaphore "s" 0) :: goesOn 5 ++ creates "a" 2 ++ creates "b" 2 ++
    starts ++ waits ⟨0⟩ 1 ++ waits ⟨1⟩ (-1) ++ calls .handler .tick

/-- A post finds the first of the two waiters out of time, which then leaves the line. -/
def passesOver : List Move :=
  twoWaiters ++ calls .handler (.post ⟨0⟩) ++ .switches :: List.replicate 8 (.goesOn 1)

/-- A task that waits for at most two ticks is woken after one, finds that another task took the unit,
and goes back to sleep. -/
def outrun : List Move :=
  .begins (.thread none) (.createSemaphore "s" 0) :: goesOn 5 ++ creates "a" 2 ++ creates "b" 1 ++
    starts ++ waits ⟨0⟩ 2 ++ calls .handler .tick ++ calls .handler (.post ⟨0⟩) ++
    .begins (.thread (some ⟨1⟩)) (.wait ⟨0⟩ 0) :: goesOn 6 ++ .switches :: goesOn 6

/-- The same task sleeps for two more ticks, and its time is over after three. -/
def oversleeps : List Move := outrun ++ calls .handler .tick ++ calls .handler .tick

/-- A task unlocks a mutex that another one waits for, and locks it again before that one goes on. -/
def barges : List Move :=
  .begins (.thread none) (.createMutex "m") :: goesOn 5 ++ creates "a" 2 ++ creates "b" 1 ++
    starts ++ calls (.thread (some ⟨0⟩)) (.delay 1) ++
    .switches :: .begins (.thread (some ⟨1⟩)) (.lock ⟨0⟩ 0) :: goesOn 6 ++ calls .handler .tick ++
    .switches :: .begins (.thread (some ⟨0⟩)) (.lock ⟨0⟩ (-1)) :: goesOn 3 ++
    .switches :: calls (.thread (some ⟨1⟩)) (.unlock ⟨0⟩) ++
    .begins (.thread (some ⟨1⟩)) (.lock ⟨0⟩ 0) :: goesOn 6 ++ .switches :: goesOn 6

def nods : List Move :=
  creates "a" 2 ++ creates "b" 1 ++ starts ++
    [.begins (.thread (some ⟨0⟩)) (.delay 2), .goesOn 0]

def naps : List Move := goesOn 2 ++ .switches :: calls .handler .tick ++
  calls (.thread (some ⟨1⟩)) (.setLocalWord 0 1)

/-- A task goes to sleep for a tick, one of two less urgent ones takes over, and the tick is due. -/
def dozesOff : List Move :=
  creates "a" 1 ++ creates "b" 1 ++ creates "c" 2 ++ starts ++
    calls (.thread (some ⟨2⟩)) (.delay 1) ++ [.switches, .begins .handler .tick, .goesOn 0]

def starves : List Move :=
  goesOn 3 ++ .switches :: calls (.thread (some ⟨2⟩)) (.delay 1) ++ [.switches]

/-- The thread that boots starts the scheduler, and from the idle task the processor goes over to a
task of the program. -/
def launches : List Move :=
  creates "a" 2 ++ .begins (.thread none) .start :: goesOn 15 ++ .switches ::
    calls .handler .tick ++ [.switches]

/-- That task starts the scheduler once more. Before it masks interrupts to enter the first frame it
loses the processor, and gets it back. -/
def relaunches : List Move :=
  launches ++ .begins (.thread (some ⟨0⟩)) .start :: goesOn 12 ++ calls .handler .tick ++ [.switches]

/-- A pool has two messages, and one of them goes to another queue. -/
def travels : List Move :=
  .begins (.thread none) (.createPool "pool" .task 2 4) :: goesOn 26 ++
    .begins (.thread none) (.createQueue "queue" .task) :: goesOn 12 ++
    .begins (.thread none) (.receive ⟨0⟩ 0) :: goesOn 11 ++ .puts (.thread none) ⟨1⟩ :: goesOn 4

/-- A call has claimed a unit for the message on the other queue, and has not taken it yet. -/
def holdsTicket : List Move :=
  travels ++ .begins (.thread none) (.receive ⟨1⟩ 0) :: goesOn 6

/-- A task is elected, and before the switch to it is taken a more urgent one is created. -/
def overtakes : List Move :=
  creates "a" 1 ++ calls (.thread none) .schedule ++ creates "b" 2

/-- A task that sleeps and is still the one that runs ends itself. -/
def endsAsleep : List Move :=
  creates "a" 1 ++ starts ++ calls (.thread (some ⟨0⟩)) (.delay 5) ++
    .begins (.thread (some ⟨0⟩)) .exit :: goesOn 2

end Script

end Rtos
