import Rtos.Section

/-!
# Scheduling

`schedule` makes a decision and requests a switch where one is due, `switch` takes it later. Every
change of a task's state is followed by a decision in the same section.
-/

namespace Rtos.Section

/-- Decides which task should run, and accounts for the time that this takes. -/
def schedule : Section Unit := do
  let start ← now
  let k ← kernel
  match k.choice with
  | none => pure ()
  | some t =>
    let (k, due) := k.elect t
    setKernel k
    if due then requestSwitch
  let stop ← now
  modifyKernel fun k => { k with stats := k.stats.addDecision (stop - start) }

def tick : Section Unit := do
  modifyKernel Kernel.countTick
  schedule

/-- Hands the processor on to the task elected last. Gets the stack pointer of the context that is
left, which the current task keeps, and returns the one to go on with. Without an election the
context stays. -/
def switch (sp : StackPointer) : Section StackPointer := do
  let k ← kernel
  match k.next with
  | none => return sp
  | some target =>
    setKernel { k with next := none }
    let t ← now
    let name := (← task target).name
    match k.current with
    | none => pure ()
    | some source =>
      modifyKernel (·.updateTask source (Task.switchOut sp t))
      note (.taskSwitch (← task source).name name)
    modifyKernel (·.updateTask target ({ · with start := t }))
    let resumed := (← task target).stackPointer
    modifyKernel fun k => { k with current := some target, stats := k.stats.addSwitch }
    return resumed

/-- Puts the current task to sleep; it goes on once the ticks have passed or something wakes it. A
delay of no ticks does nothing at all. -/
def delay (ticks : Int32) : Section Unit := do
  if ticks ≠ 0 then
    let me ← currentTask
    modifyKernel (·.updateTask me (Task.block ticks))
    schedule

/-- Wakes a sleeping task as if its time had run out. -/
def wake (id : TaskId) : Section Unit := do
  let t ← task id
  if t.state = .sleep then
    modifyKernel (·.updateTask id (Task.wake .timeout))
    schedule

def exit : Section Unit := do
  let me ← currentTask
  modifyKernel (·.updateTask me ({ · with state := .exit }))
  note (.taskExited (← task me).name)
  schedule

def setLocalWord (n : Nat) (value : UInt64) : Section Unit := do
  let me ← currentTask
  if n < Limits.localWords then
    modifyKernel (·.updateTask me (Task.setLocalWord n value))
  else throw (.localIndex n)

def resetTimes : Section Unit :=
  modifyKernel fun k => { k with tasks := k.tasks.map ({ · with time := 0 }) }

/-- Makes the idle task the one that runs and the one to switch to; its first stack pointer. -/
def startWith (idle : TaskId) : Section StackPointer := do
  modifyKernel ({ · with current := some idle, next := some idle })
  return (← task idle).stackPointer

end Rtos.Section
