import Rtos.Proofs.Journal
import Rtos.Routine.Program

/-!
# The firmware at work

The code that boots runs alone until it enters the first frame. From then on the tasks of the pipeline
run the code of their entries, each while it is the current one. Ticks come in at any moment, and so do
switches. A routine runs on the thread that called it.

Masks only rule out some of these runs, and a masked section is one step.
-/

namespace Rtos

/-- What the code that boots comes to, running by itself, when it enters the first frame: the core, and
the entries of the tasks that were made. It gets all the memory that it asks for; otherwise it ends
before it enters a frame. -/
def Program.boots : Nat → Program Bench Unit → Core → List Entry → Option (Core × List Entry)
  | 0, _, _, _ => none
  | _ + 1, .done _, _, _ => none
  | n + 1, .loop body t next, c, entries => boots n (unroll body t next) c entries
  | n + 1, .ask r next, c, entries =>
    match r, next with
    | .mask, next => boots n (next false) c entries
    | .unmask _, next | .barrier, next | .note _, next => boots n (next ()) c entries
    | .pend, next => boots n (next ()) c.requestSwitch entries
    | .reserve _, next => boots n (next true) c entries
    | .frame entry _ _, next => boots n (next 0) c (entries ++ [entry])
    | .act a, next =>
      match a.toSection c with
      | .ok b c => boots n (next (.ok b)) c entries
      | .error f c => boots n (next (.error f)) c entries
    | .startFirst _, _ => some (c, entries)
    | _, _ => none

theorem Program.boots_succ {n : Nat} {p : Program Bench Unit} {c : Core} {entries : List Entry}
    {x : Core × List Entry} (h : p.boots n c entries = some x) :
    p.boots (n + 1) c entries = some x := by
  induction n generalizing p c entries with
  | zero => cases h
  | succ n ih =>
    cases p with
    | done a => cases h
    | loop body t next => exact ih h
    | ask r next =>
      cases r with
      | act a =>
        cases result : a.toSection c with
        | ok b c' =>
          simp only [boots, result] at h ⊢
          exact ih h
        | error f c' =>
          simp only [boots, result] at h ⊢
          exact ih h
      | mask | unmask | barrier | note | pend | reserve | frame => exact ih h
      | startFirst => exact h
      | _ => cases h

theorem Program.boots_add {n : Nat} {p : Program Bench Unit} {c : Core} {entries : List Entry}
    {x : Core × List Entry} (h : p.boots n c entries = some x) (k : Nat) :
    p.boots (n + k) c entries = some x := by
  induction k with
  | zero => exact h
  | succ k ih => exact boots_succ ih

structure Firmware where
  core : Core
  bench : Bench := {}
  /-- What each task has left to do. -/
  thread : TaskId → Program Bench Unit
  journal : Journal := {}

/-- What the port may answer, and the core that it leaves. -/
def Request.Answers {σ : Type} : {β : Type} → Request σ β → Core → β → Core → Prop
  | _, mask, c, _, c' | _, unmask _, c, _, c' | _, barrier, c, _, c' | _, idle, c, _, c'
  | _, frame .., c, _, c' | _, startFirst _, c, _, c' => c' = c
  | _, pend, c, _, c' => c' = c.requestSwitch
  | _, reserve bytes, c, granted, c' => Heap.any.answers bytes granted ∧ c' = c
  | _, _, _, _, _ => False

namespace Firmware

def boot (n : Nat) : Option Firmware :=
  (Program.boots n Pipeline.boot {} []).map fun (core, entries) =>
    { core, thread := fun t => (entries[t.index]?.getD .idle).program }

variable (w : Firmware)

def IsUp (t : TaskId) : Prop := w.core.kernel.current = some t

def setThread (t : TaskId) (p : Program Bench Unit) : Firmware :=
  { w with thread := Function.update w.thread t p }

variable {w} in
@[simp] theorem thread_setThread {t : TaskId} {p : Program Bench Unit} :
    (w.setThread t p).thread t = p := Function.update_self ..

variable {w} in
theorem thread_setThread_of_ne {t u : TaskId} {p : Program Bench Unit} (h : u ≠ t) :
    (w.setThread t p).thread u = w.thread u := Function.update_of_ne h ..

/-- What may happen next. -/
inductive Step : Firmware → Prop
  | replies (t : TaskId) {β : Type} (r : Request Bench β) (next : β → Program Bench Unit) (b : β)
      (c : Core) (up : w.IsUp t) (here : w.thread t = .ask r next) (answer : r.Answers w.core b c) :
      Step { w.setThread t (next b) with core := c }
  | acts (t : TaskId) {β : Type} (a : Action β) (next : Except Fault β → Program Bench Unit) (b : β)
      (c : Core) (up : w.IsUp t) (here : w.thread t = .ask (.act a) next)
      (result : a.toSection w.core = .ok b c) :
      Step { w.setThread t (next (.ok b)) with
        core := c
        journal := w.journal.acts t ⟨a, b⟩ }
  | owns (t : TaskId) {β : Type} (f : StateM Bench β) (next : β → Program Bench Unit) (up : w.IsUp t)
      (here : w.thread t = .ask (.own f) next) :
      Step { w.setThread t (next (f.run w.bench).1) with
        bench := (f.run w.bench).2
        journal := w.journal.owns t w.bench.totals (f.run w.bench).2.totals }
  | notes (t : TaskId) (n : Note) (next : Unit → Program Bench Unit) (up : w.IsUp t)
      (here : w.thread t = .ask (.note n) next) :
      Step { w.setThread t (next ()) with journal := w.journal.notes n }
  | puts (t : TaskId) (r : PutRoutine) (data : UInt64) (next : Unit → Program Bench Unit)
      (up : w.IsUp t) (here : w.thread t = .ask (.put r data) next) :
      Step (w.setThread t ((r.program data).bind next))
  | controls (t : TaskId) (r : ControlRoutine) (data : UInt64) (control : UInt32) (arg : UInt64)
      (next : Int32 → Program Bench Unit) (up : w.IsUp t)
      (here : w.thread t = .ask (.control r data control arg) next) :
      Step (w.setThread t ((r.program data control arg).bind next))
  | unrolls (t : TaskId) {β τ : Type} (body : τ → Program Bench (τ ⊕ β)) (s : τ)
      (next : β → Program Bench Unit) (up : w.IsUp t) (here : w.thread t = .loop body s next) :
      Step (w.setThread t (Program.unroll body s next))
  | ticks (u : Unit) (c : Core) (result : Section.tick w.core = .ok u c) : Step { w with core := c }
  | switches (sp resumed : StackPointer) (c : Core) (result : Section.switch sp w.core = .ok resumed c) :
      Step { w with core := c }
  | elapses (clock : Clock) : Step { w with core := { w.core with clock } }

inductive Runs : Firmware → Prop
  | boots (n : Nat) (w : Firmware) (h : boot n = some w) : Runs w
  | step {w w' : Firmware} (before : Runs w) (step : Step w w') : Runs w'

/-- A task is about to meet a fault, or a tick or a switch would. -/
inductive Faults (f : Fault) : Prop
  | raises (t : TaskId) {β : Type} (next : β → Program Bench Unit) (up : w.IsUp t)
      (here : w.thread t = .ask (.fault f) next)
  | meets (t : TaskId) {β : Type} (a : Action β) (next : Except Fault β → Program Bench Unit) (c : Core)
      (up : w.IsUp t) (here : w.thread t = .ask (.act a) next)
      (result : a.toSection w.core = .error f c)
  | ticks (c : Core) (result : Section.tick w.core = .error f c)
  | switches (sp : StackPointer) (c : Core) (result : Section.switch sp w.core = .error f c)

/-- The next step where a switch is taken as soon as it is due, a tick comes in when a task waits for
interrupts, and nobody masks what is masked already. -/
def next : Option Firmware :=
  if w.core.kernel.next.isSome then
    match Section.switch 0 w.core with
    | .ok _ c => some { w with core := c }
    | .error _ _ => none
  else
    w.core.kernel.current.bind fun t =>
      match w.thread t with
      | .done _ => none
      | .loop body s next => some (w.setThread t (Program.unroll body s next))
      | .ask r next =>
        match r, next with
        | .mask, next => some (w.setThread t (next false))
        | .unmask _, next | .barrier, next => some (w.setThread t (next ()))
        | .pend, next => some { w.setThread t (next ()) with core := w.core.requestSwitch }
        | .act a, next =>
          match a.toSection w.core with
          | .ok b c => some { w.setThread t (next (.ok b)) with
              core := c
              journal := w.journal.acts t ⟨a, b⟩ }
          | .error _ _ => none
        | .own f, next => some { w.setThread t (next (f.run w.bench).1) with
            bench := (f.run w.bench).2
            journal := w.journal.owns t w.bench.totals (f.run w.bench).2.totals }
        | .note n, next => some { w.setThread t (next ()) with journal := w.journal.notes n }
        | .put r data, next => some (w.setThread t ((r.program data).bind next))
        | .idle, _ =>
          match Section.tick w.core with
          | .ok _ c => some { w with core := c }
          | .error _ _ => none
        | _, _ => none

variable {w w' : Firmware}

theorem step_of_next (h : w.next = some w') : Step w w' := by
  unfold next at h
  split_ifs at h
  · cases result : Section.switch 0 w.core with
    | ok resumed c =>
      rw [result] at h
      cases h
      exact .switches 0 resumed c result
    | error f c =>
      rw [result] at h
      cases h
  obtain ⟨t, up, h⟩ := Option.bind_eq_some_iff.1 h
  cases here : w.thread t with
  | done a =>
    rw [here] at h
    cases h
  | loop body s next =>
    rw [here] at h
    cases h
    exact .unrolls t body s next up here
  | ask r next =>
    rw [here] at h
    cases r with
    | mask =>
      cases h
      exact .replies t .mask next false w.core up here rfl
    | unmask saved =>
      cases h
      exact .replies t (.unmask saved) next () w.core up here rfl
    | barrier =>
      cases h
      exact .replies t .barrier next () w.core up here rfl
    | pend =>
      cases h
      exact .replies t .pend next () w.core.requestSwitch up here rfl
    | act a =>
      cases result : a.toSection w.core with
      | ok b c =>
        simp only [result] at h
        cases h
        exact .acts t a next b c up here result
      | error f c =>
        simp only [result] at h
        cases h
    | own f =>
      cases h
      exact .owns t f next up here
    | note n =>
      cases h
      exact .notes t n next up here
    | put r data =>
      cases h
      exact .puts t r data next up here
    | idle =>
      cases result : Section.tick w.core with
      | ok u c =>
        simp only [result] at h
        cases h
        exact .ticks u c result
      | error f c =>
        simp only [result] at h
        cases h
    | _ => cases h

def after : Nat → Firmware → Option Firmware
  | 0, w => some w
  | n + 1, w => w.next.bind (after n)

theorem Runs.after {n : Nat} (h : w.Runs) (later : w.after n = some w') : w'.Runs := by
  induction n generalizing w with
  | zero =>
    cases later
    exact h
  | succ n ih =>
    obtain ⟨between, next, later⟩ := Option.bind_eq_some_iff.1 later
    exact ih (h.step (step_of_next next)) later

end Firmware

end Rtos
