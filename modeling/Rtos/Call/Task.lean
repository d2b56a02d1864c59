import Rtos.Program
import Rtos.Stack

/-!
# Calls about tasks

Kernel calls are programs. Most of them are a single action; creating a task looks for room first
and adds the task later, with interrupts unmasked in between.
-/

namespace Rtos

namespace Call

open Program

variable {σ α : Type}

/-- Whether there is memory for the stack. A stack that the creator brings along needs none. -/
def reserveStack : Stack → Program σ Bool
  | .heap bytes => request (.reserve bytes)
  | .fixed _ => return true

def createTask (entry : Entry) (arg : UInt64) (name : String) (priority : UInt8) (stack : Stack) :
    Program σ (Except Error TaskId) := do
  if ← reading (.ok ·.taskTableIsFull) then
    note .noTask
    return .error .noMemory
  else if ← reserveStack stack then
    let sp ← request (.frame entry arg stack.bytes)
    match ← critical (.addTask name priority sp stack.bytes) with
    | some id =>
      note (.taskCreated name priority stack.bytes)
      return .ok id
    | none =>
      note .noTask
      return .error .noMemory
  else
    note .noStack
    return .error .noMemory

/-- Creates the idle task and gives it the processor. The caller's context is left behind when the
first switch is taken. -/
def start : Program σ (Except Error TaskId) := do
  match ← createTask .idle 0 "idle" 0 (.heap Limits.idleStackBytes) with
  | .error e => return .error e
  | .ok idle =>
    let sp ← critical (.startWith idle)
    -- The mask stays until the first frame is in place, and `startFirst` lifts it.
    let _ ← mask
    request .pend
    request (.startFirst sp)
    return .ok idle

def delay (ticks : Int32) : Program σ Unit := critical (.delay ticks)

def wake (t : TaskId) : Program σ Unit := critical (.wake t)

/-- Ends the current task. Its context never gets the processor back, except for interrupts. -/
def exit : Program σ α := do
  critical .exit
  forever (request .idle)

def tick : Program σ Unit := critical .tick

def schedule : Program σ Unit := critical .schedule

def switch (sp : StackPointer) : Program σ StackPointer := critical (.switch sp)

def kernel : Program σ Kernel := reading .ok

def task (t : TaskId) : Program σ Task := reading (·.task t)

def localWord (n : Nat) : Program σ UInt64 := reading (·.localWord n)

def setLocalWord (n : Nat) (value : UInt64) : Program σ Unit :=
  critical (.setLocalWord n value)

def resetTimes : Program σ Unit := critical .resetTimes

end Call

end Rtos
