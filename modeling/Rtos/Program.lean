import Rtos.Action

/-!
# Programs

A program is code that runs on the processor: a row of requests, each of which waits for its answer.
Between two requests other code may run. A program is not bound to end: `loop` repeats its body with
a new state until the body yields a result.

An action that meets a fault says so to the program, which leaves its masked section like any other
before it ends in that fault.

`σ` is what the application keeps for itself; kernel calls are programs over every `σ`.
-/

namespace Rtos

/-- What a program asks for, with the type of the answer. -/
inductive Request (σ : Type) : Type → Type 1
  /-- Mask interrupts; whether they were masked before. -/
  | mask : Request σ Bool
  /-- Go back to an earlier mask. A pending switch is taken if nothing is masked now. -/
  | unmask (saved : Bool) : Request σ Unit
  /-- Let others run until the current task is runnable. -/
  | barrier : Request σ Unit
  | idle : Request σ Unit
  /-- Carry out an action on the kernel; its result, or the fault that it met. -/
  | act {β : Type} (a : Action β) : Request σ (Except Fault β)
  /-- Have the switch done as soon as interrupts are unmasked. -/
  | pend : Request σ Unit
  /-- Have a block of so many bytes; whether the heap grants it. -/
  | reserve (bytes : Nat) : Request σ Bool
  /-- Build the first frame of a task on its stack. -/
  | frame (entry : Entry) (arg : UInt64) (stackBytes : Nat) : Request σ StackPointer
  /-- Go over to the first task and unmask interrupts. -/
  | startFirst (sp : StackPointer) : Request σ Unit
  | put (r : PutRoutine) (data : UInt64) : Request σ Unit
  | control (r : ControlRoutine) (data : UInt64) (control : UInt32) (arg : UInt64) : Request σ Int32
  | note (n : Note) : Request σ Unit
  /-- End the run with a fault. -/
  | fault {β : Type} (f : Fault) : Request σ β
  /-- Perform the next operation of the script; whether it says to return. -/
  | perform : Request σ Bool
  | advance (microseconds : UInt32) : Request σ Unit
  /-- Have an interrupt come in at the unmasking that follows `after` others. -/
  | arm (after : Nat) : Request σ Unit
  /-- Work on the application's own state. -/
  | own {β : Type} (f : StateM σ β) : Request σ β

inductive Program (σ : Type) : Type → Type 1
  | done {α : Type} (a : α) : Program σ α
  | ask {α β : Type} (r : Request σ β) (next : β → Program σ α) : Program σ α
  | loop {α β τ : Type} (body : τ → Program σ (τ ⊕ β)) (t : τ) (next : β → Program σ α) :
      Program σ α

namespace Program

variable {σ α β τ : Type}

def bind : Program σ α → (α → Program σ β) → Program σ β
  | done a, k => k a
  | ask r next, k => ask r fun b => (next b).bind k
  | loop body t next, k => loop body t fun b => (next b).bind k

instance : Monad (Program σ) where
  pure := done
  bind := bind

/-- One round of a loop, then the loop again or what comes after it. -/
def unroll (body : τ → Program σ (τ ⊕ β)) (t : τ) (next : β → Program σ α) : Program σ α :=
  (body t).bind fun
    | .inl t => loop body t next
    | .inr b => next b

theorem bind_done (p : Program σ α) : p.bind done = p := by
  induction p with
  | done a => rfl
  | ask r next ih => simp only [bind, ih]
  | loop body t next _ ih => simp only [bind, ih]

theorem bind_assoc {γ : Type} (p : Program σ α) (f : α → Program σ β) (g : β → Program σ γ) :
    (p.bind f).bind g = p.bind fun a => (f a).bind g := by
  induction p with
  | done a => rfl
  | ask r next ih => simp only [bind, ih]
  | loop body t next _ ih => simp only [bind, ih]

instance : LawfulMonad (Program σ) :=
  LawfulMonad.mk' (Program σ) bind_done (fun _ _ => rfl) bind_assoc

def request (r : Request σ α) : Program σ α := ask r done

def mask : Program σ Bool := request .mask

def unmask (saved : Bool) : Program σ Unit := request (.unmask saved)

def act (a : Action α) : Program σ (Except Fault α) := request (.act a)

def note (n : Note) : Program σ Unit := request (.note n)

def fault (f : Fault) : Program σ α := request (.fault f)

def own (f : StateM σ α) : Program σ α := request (.own f)

def ofExcept : Except Fault α → Program σ α
  | .ok a => done a
  | .error f => fault f

/-- Leaves a masked section: goes back to the mask `saved`, then goes on with the result. Others may
run before a fault is raised. -/
def leave (saved : Bool) (result : Except Fault α) : Program σ α := do
  unmask saved
  ofExcept result

/-- Carries out one action with interrupts masked and goes back to the mask from before. -/
def critical (a : Action α) : Program σ α := do
  let saved ← mask
  leave saved (← act a)

def reading (f : Kernel → Except Fault α) : Program σ α := critical (.read f)

/-- Goes back to the mask `saved` for a moment, in which others may run, and masks again. Returns
the mask that there was at the end of that moment. -/
def window (saved : Bool) : Program σ Bool := do
  unmask saved
  request .barrier
  mask

def repeatWith (body : τ → Program σ (τ ⊕ β)) (t : τ) : Program σ β := loop body t done

def forever (p : Program σ Unit) : Program σ α :=
  loop (fun _ => p.bind fun _ => done (.inl ())) () fun e : Empty => nomatch e

def times : Nat → Program σ Unit → Program σ Unit
  | 0, _ => done ()
  | n + 1, p => p.bind fun _ => times n p

end Program

end Rtos
