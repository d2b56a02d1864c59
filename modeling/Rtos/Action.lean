import Rtos.Section.Queueing

/-!
# Actions

The masked sections that kernel calls are made of, by name. Between two actions other code may run;
an action by itself is a single step.
-/

namespace Rtos

inductive Action : Type → Type 1
  | read {α : Type} (f : Kernel → Except Fault α) : Action α
  | schedule : Action Unit
  | tick : Action Unit
  | switch (sp : StackPointer) : Action StackPointer
  | startWith (idle : TaskId) : Action StackPointer
  | delay (ticks : Int32) : Action Unit
  | wake (t : TaskId) : Action Unit
  | exit : Action Unit
  | setLocalWord (n : Nat) (value : UInt64) : Action Unit
  | resetTimes : Action Unit
  | addTask (name : String) (priority : UInt8) (sp : StackPointer) (stackBytes : Nat) :
      Action (Option TaskId)
  | addSemaphore (name : String) (count : UInt32) : Action (Option SemId)
  | addMutex (name : String) : Action (Option MutexId)
  | addQueue (name : String) (discipline : Discipline) : Action (Option QueueId)
  /-- Makes queue `q` a pool; the first of its slots. -/
  | addPool (q : QueueId) (shape : PoolShape) : Action (Option MessageId)
  | post (s : SemId) : Action Unit
  | beginWait (s : SemId) (ticks : Int32) : Action Verdict
  | resumeWait (s : SemId) (ticks : Int32) (sleeper : TaskId) : Action Verdict
  | beginLock (m : MutexId) (ticks : Int32) : Action (TaskId × Verdict)
  | resumeLock (m : MutexId) (locker : TaskId) (ticks : Int32) (sleeper : TaskId) : Action Verdict
  | unlock (m : MutexId) : Action Unit
  | enqueue (q : QueueId) (m : Message) : Action (Option (PutRoutine × UInt64))
  | dequeue (q : QueueId) : Action (Option Message)
  | pollDriver (q : QueueId) : Action (Option Message)
  | setRoutines (q : QueueId) (put : Option PutRoutine) (control : Option ControlRoutine)
      (data : UInt64) : Action (Except Error Unit)

namespace Section

variable {α : Type}

/-- Carries out an addition to a table. One that the kernel refuses changes nothing. -/
def adding (f : Kernel → Option (α × Kernel)) : Section (Option α) := do
  match f (← kernel) with
  | some (a, k) =>
    setKernel k
    return some a
  | none => return none

end Section

def Action.toSection {α : Type} : Action α → Section α
  | read f => Section.reading f
  | schedule => Section.schedule
  | tick => Section.tick
  | switch sp => Section.switch sp
  | startWith idle => Section.startWith idle
  | delay ticks => Section.delay ticks
  | wake t => Section.wake t
  | exit => Section.exit
  | setLocalWord n value => Section.setLocalWord n value
  | resetTimes => Section.resetTimes
  | addTask name priority sp stackBytes => Section.adding (·.addTask name priority sp stackBytes)
  | addSemaphore name count => Section.adding (·.addSemaphore name count)
  | addMutex name => Section.adding (·.addMutex name)
  | addQueue name discipline => Section.adding (·.addQueue name discipline)
  | addPool q shape => Section.adding (·.addPool q shape)
  | post s => Section.post s
  | beginWait s ticks => Section.beginWait s ticks
  | resumeWait s ticks sleeper => Section.resumeWait s ticks sleeper
  | beginLock m ticks => Section.beginLock m ticks
  | resumeLock m locker ticks sleeper => Section.resumeLock m locker ticks sleeper
  | unlock m => Section.unlock m
  | enqueue q m => Section.enqueue q m
  | dequeue q => Section.dequeue q
  | pollDriver q => Section.pollDriver q
  | setRoutines q put control data => Section.setRoutines q put control data

end Rtos
