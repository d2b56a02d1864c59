/-!
# Capacities and rates

Every table of the kernel has a fixed capacity, so creation can fail and nothing is ever moved.
-/

namespace Rtos.Limits

def tasks : Nat := 16

def localWords : Nat := 2

/-- The local word that by convention holds the handle of a task's standard output. -/
def stdoutWord : Nat := 0

def semaphores : Nat := 32

def mutexes : Nat := 16

def queues : Nat := 32

/-- Message slots of all pools together. -/
def slots : Nat := 256

/-- Waiters named in the listing of one semaphore or mutex. -/
def listedWaiters : Nat := 8

def listedMessages : Nat := 32

def idleStackBytes : Nat := 256

def taskStackBytes : Nat := 1024

def slotAlignment : Nat := 4

def ticksPerSecond : Nat := 1000

def clockHertz : Nat := 16000000

/-- Blocks of memory are smaller than this bound: a signed word counts the bytes of each. -/
def blockBound : Nat := 0x8000000000000000

def wordBound : Nat := UInt64.size

end Rtos.Limits

namespace Rtos

/-- A timeout that polls once and never blocks. -/
def noWait : Int32 := 0

/-- A timeout that never expires, as does every negative one. -/
def waitForever : Int32 := -1

end Rtos
