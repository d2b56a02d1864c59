import Rtos.Bench
import Rtos.Call.Queue
import Rtos.Call.Task

/-!
# A sampling pipeline

Three tasks that use every service of the kernel. The sampler fills a buffer from the pool every few
ticks and puts it to work; the filter adds the sample to the totals and passes the buffer on to be
transmitted; the monitor reports the totals once a second and starts them anew. Transmission gives
each buffer back to the pool.
-/

namespace Rtos.Pipeline

open Program

variable {α : Type} (p : Pipeline)

def codeSample : UInt16 := 1

def codeFiltered : UInt16 := 2

def nextReading (reading : UInt32) : UInt32 :=
  reading * 1103515245 + 12345

/-- The low byte first. -/
def wordBytes (n : UInt32) : List UInt8 :=
  [n.toUInt8, (n >>> 8).toUInt8, (n >>> 16).toUInt8, (n >>> 24).toUInt8]

def wordOfBytes (bs : List UInt8) : UInt32 :=
  bs.foldr (fun b n => b.toUInt32 ||| (n <<< 8)) 0

def firstBytes (bytes : List UInt8) : Except Fault (List UInt8) :=
  if bytes.length < 4 then .error (.pastEnd 4 bytes.length) else .ok (bytes.take 4)

/-- Work on the totals. Each such step is atomic, and what they mean together is up to the mutex. -/
def onTotals {β : Type} (f : StateM Totals β) : StateM Bench β := do
  let b ← get
  let (x, totals) := f.run b.totals
  set { b with totals }
  return x

/-- Fills a buffer from the pool, if one comes in time, with the next reading and puts it to work. -/
def sampleOnce (reading : UInt32) : Program Bench (UInt32 ⊕ Empty) := do
  let reading ←
    match ← Call.receiveTagged p.pool 10 with
    | none => pure reading
    | some m => do
      let reading := nextReading reading
      let _ ← ofExcept (firstBytes m.area)
      let area := Payload.overwrite m.area 0 (wordBytes reading)
      Call.putTagged p.work (m.withArea area) codeSample 4
      pure reading
  Call.delay 5
  return .inl reading

def sampler : Program Bench α :=
  loop p.sampleOnce 0 fun e : Empty => nomatch e

def addValue (value : UInt32) : StateM Totals Unit := modify fun t => { t with sum := t.sum + value }

def countSample : StateM Totals Unit := modify fun t => { t with samples := t.samples + 1 }

/-- Adds the sample of a buffer to the totals and passes the buffer on. -/
def filterOnce : Program Bench Unit := do
  match ← Call.receiveTagged p.work waitForever with
  | none => return ()
  | some m =>
    let bytes ← ofExcept (firstBytes m.data)
    Call.lockUntilClaimed p.totals
    own (onTotals (addValue (wordOfBytes bytes >>> 24)))
    own (onTotals countSample)
    Call.unlock p.totals
    Call.putTagged p.transmit m codeFiltered m.length

def filter : Program Bench α := forever p.filterOnce

def takeSamples : StateM Totals UInt32 := modifyGet fun t => (t.samples, { t with samples := 0 })

def takeSum : StateM Totals UInt32 := modifyGet fun t => (t.sum, { t with sum := 0 })

def sent : StateM Totals UInt32 := return (← get).sent

def report (samples sum : UInt32) : Program Bench Unit := do
  let sent ← own (onTotals sent)
  let switches := (← Call.kernel).stats.switches
  note (.report samples (sum / samples) sent switches)
  Call.resetTimes

def monitorOnce : Program Bench Unit := do
  Call.delay Limits.ticksPerSecond.toInt32
  Call.lockUntilClaimed p.totals
  let samples ← own (onTotals takeSamples)
  let sum ← own (onTotals takeSum)
  Call.unlock p.totals
  report samples sum

def monitor : Program Bench α := forever p.monitorOnce

def countSent : StateM Totals Unit := modify fun t => { t with sent := t.sent + 1 }

def transmitOnce : Program Bench (Unit ⊕ Unit) := do
  match ← Call.receiveTagged p.transmit noWait with
  | none => return .inr ()
  | some m =>
    own (onTotals countSent)
    Call.giveBackTagged m
    return .inl ()

def transmitAll : Program Bench Unit := repeatWith (fun _ => p.transmitOnce) ()

def expect {β : Type} (step : String) (p : Program Bench (Except Error β)) : Program Bench β := do
  match ← p with
  | .ok b => return b
  | .error e => fault (.startUp step e)

def boot : Program Bench α := do
  let pool ← expect "Failed to create pool" (Call.createTaggedPool "pool" .task 8 16)
  let work ← expect "Failed to create work queue" (Call.createQueue "work" .task)
  let transmit ← expect "Failed to create tx queue" (Call.createQueue "tx" .driver)
  let totals ← expect "Failed to create stats mutex" (Call.createMutex "stats")
  let p : Pipeline := { pool, work, transmit, totals }
  expect "tx is a driver queue" (Call.setRoutines transmit (some (.transmit p)) none 0)
  let stack : Stack := .heap Limits.taskStackBytes
  let _ ← expect "Failed to create sampler" (Call.createTask (.sampler p) 0 "sampler" 2 stack)
  let _ ← expect "Failed to create filter" (Call.createTask (.filter p) 0 "filter" 3 stack)
  let _ ← expect "Failed to create monitor" (Call.createTask (.monitor p) 0 "monitor" 1 stack)
  let _ ← Call.start
  forever (request .idle)

end Rtos.Pipeline
