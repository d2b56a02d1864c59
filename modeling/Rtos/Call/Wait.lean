import Rtos.Program

/-!
# Calls about semaphores and mutexes

A blocking call opens one window after another until its verdict is final. The mask of the caller
holds in each window, so the call must begin unmasked if others are to run in them.
-/

namespace Rtos.Call

open Program

variable {σ : Type}

def createSemaphore (name : String) (count : UInt32) : Program σ (Except Error SemId) := do
  match ← critical (.addSemaphore name count) with
  | some s =>
    note (.semCreated name count)
    return .ok s
  | none =>
    note (.noSemaphore name)
    return .error .noMemory

def createMutex (name : String) : Program σ (Except Error MutexId) := do
  match ← critical (.addMutex name) with
  | some m =>
    note (.mutexCreated name)
    return .ok m
  | none =>
    note (.noMutex name)
    return .error .noMemory

/-- Opens windows until the verdict is final or there is none, then leaves the masked section in
which the call is. `saved` is the mask to go back to. -/
def settle (saved : Bool) (v : Except Fault Verdict) (resume : TaskId → Action Verdict) :
    Program σ Status := do
  let (saved, status) ← repeatWith (fun (saved, v) => do
    match v with
    | .error f => return .inr (saved, .error f)
    | .ok .claimed => return .inr (saved, .ok .ok)
    | .ok .timedOut => return .inr (saved, .ok .timeout)
    | .ok (.asleep sleeper) =>
      let saved ← window saved
      let v ← act (resume sleeper)
      return .inl (saved, v)) (saved, v)
  leave saved status

/-- Claims a unit of a semaphore, within `ticks` ticks. -/
def wait (s : SemId) (ticks : Int32) : Program σ Status := do
  let saved ← mask
  settle saved (← act (.beginWait s ticks)) (.resumeWait s ticks)

def waitUntilClaimed (s : SemId) : Program σ Unit := do
  match ← wait s waitForever with
  | .ok => return ()
  | .timeout => fault .waitForeverTimedOut

def post (s : SemId) : Program σ Unit := critical (.post s)

def lock (m : MutexId) (ticks : Int32) : Program σ Status := do
  let saved ← mask
  match ← act (.beginLock m ticks) with
  | .error f => leave saved (.error f)
  | .ok (locker, v) => settle saved (.ok v) (.resumeLock m locker ticks)

def lockUntilClaimed (m : MutexId) : Program σ Unit := do
  match ← lock m waitForever with
  | .ok => return ()
  | .timeout => fault .lockForeverTimedOut

def unlock (m : MutexId) : Program σ Unit := critical (.unlock m)

def semaphore (s : SemId) : Program σ Semaphore := reading (·.semaphore s)

def mutex (m : MutexId) : Program σ Mutex := reading (·.mutex m)

end Rtos.Call
