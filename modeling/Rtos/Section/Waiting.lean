import Rtos.Section.Scheduling

/-!
# Waiting for semaphores and mutexes

A blocking call is a row of masked sections with windows between them in which other tasks run. Each
section ends in a verdict: the object was claimed, the time is over, or the task sleeps and the call
goes on after the next window. Claiming an object and finding it free is one section, so nobody can
come in between.
-/

namespace Rtos

/-- What a task can wait for: a unit of a semaphore, or a mutex for the task that locks it. -/
inductive Resource
  | semaphore (s : SemId)
  | mutex (m : MutexId) (locker : TaskId)

inductive Verdict
  | claimed
  | timedOut
  /-- Task `sleeper` sleeps on the object. -/
  | asleep (sleeper : TaskId)

namespace Section

def isAvailable : Resource → Section Bool
  | .semaphore s => return 0 < (← semaphore s).count
  | .mutex m _ => return (← mutex m).depth = 0

def claim : Resource → Section Unit
  | .semaphore s => do
    let sem ← semaphore s
    setSemaphore s { sem with count := ← decrement sem.count }
  | .mutex m locker => do
    let mutex ← mutex m
    if mutex.owner.isNone ∧ mutex.depth = 0 then
      setMutex m { mutex with owner := some locker, depth := 1 }
    else throw (.claimedWhileHeld mutex.name)

def waiters : Resource → Section WaitList
  | .semaphore s => return (← semaphore s).waiters
  | .mutex m _ => return (← mutex m).waiters

def setWaiters (r : Resource) (w : WaitList) (tasks : List Task) : Section Unit := do
  modifyKernel ({ · with tasks })
  match r with
  | .semaphore s => do setSemaphore s { ← semaphore s with waiters := w }
  | .mutex m _ => do setMutex m { ← mutex m with waiters := w }

def addWaiter (r : Resource) (id : TaskId) (ticks : Int32) : Section Unit := do
  let w ← waiters r
  let tasks := (← kernel).tasks
  if id ∈ w.toList tasks then throw .alreadyWaiting
  else
    let (w, tasks) := w.add tasks id ticks
    setWaiters r w tasks

def removeWaiter (r : Resource) (id : TaskId) : Section Unit := do
  let (w, tasks) := (← waiters r).remove (← kernel).tasks id
  setWaiters r w tasks

/-- Wakes the task that waits longest, if it still sleeps, and decides anew. -/
def wakeFirst (r : Resource) : Section Unit := do
  match (← waiters r).wakeFirst (← kernel).tasks with
  | none => pure ()
  | some (_, w, tasks) =>
    setWaiters r w tasks
    schedule

/-- One try for the object, by a task that comes to it with wake-up `status`. A task whose time ran
out leaves the list, even if the object is free by now. -/
def attempt (r : Resource) (ticks : Int32) (status : TaskStatus) : Section Verdict := do
  let available ← isAvailable r
  if status = .timeout then
    removeWaiter r (← currentTask)
    return .timedOut
  else if available then
    claim r
    return .claimed
  else if ticks = 0 then return .timedOut
  else
    let me ← currentTask
    addWaiter r me ticks
    schedule
    return .asleep me

/-- What a call does after a window: nothing while `sleeper` is blocked, then another try. -/
def reattempt (r : Resource) (ticks : Int32) (sleeper : TaskId) : Section Verdict := do
  let t ← task sleeper
  if t.status = .invalid then return .asleep sleeper else attempt r ticks t.status

/-- Adds a unit and wakes the first waiter, who claims it when it runs. -/
def post (s : SemId) : Section Unit := do
  let sem ← semaphore s
  let count ← increment sem.count
  setSemaphore s { sem with count }
  note (.semPost sem.name count)
  wakeFirst (.semaphore s)

def noteWaitEnd (s : SemId) : Verdict → Section Unit
  | .claimed => do note (.semWaitEnd (← semaphore s).name .ok)
  | .timedOut => do note (.semWaitEnd (← semaphore s).name .timeout)
  | .asleep _ => pure ()

def beginWait (s : SemId) (ticks : Int32) : Section Verdict := do
  note (.semWaitStart (← semaphore s).name)
  let v ← attempt (.semaphore s) ticks .ok
  noteWaitEnd s v
  return v

def resumeWait (s : SemId) (ticks : Int32) (sleeper : TaskId) : Section Verdict := do
  let v ← reattempt (.semaphore s) ticks sleeper
  noteWaitEnd s v
  return v

/-- Locks a mutex deeper that the current task owns; anyone else has to wait for it. Also returns
the task that locks. -/
def beginLock (m : MutexId) (ticks : Int32) : Section (TaskId × Verdict) := do
  let me ← currentTask
  let mutex ← mutex m
  if mutex.owner = some me then
    setMutex m { mutex with depth := ← increment mutex.depth }
    return (me, .claimed)
  else return (me, ← attempt (.mutex m me) ticks .ok)

def resumeLock (m : MutexId) (locker : TaskId) (ticks : Int32) (sleeper : TaskId) :
    Section Verdict :=
  reattempt (.mutex m locker) ticks sleeper

/-- Undoes one lock of the owner. The last one frees the mutex and wakes the first waiter. -/
def unlock (m : MutexId) : Section Unit := do
  let me ← currentTask
  let mutex ← mutex m
  if mutex.owner ≠ some me then throw (.unlockedByNonOwner mutex.name)
  else if mutex.depth = 0 then throw .unlockedWhileFree
  else if mutex.depth = 1 then
    setMutex m { mutex with depth := 0, owner := none }
    wakeFirst (.mutex m me)
  else setMutex m { mutex with depth := mutex.depth - 1 }

end Section

end Rtos
