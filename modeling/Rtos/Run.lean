import Rtos.Machine

/-!
# Whole runs

A run starts with a fresh kernel and ends with its script, or with a fault. One that goes on for
longer than a script should ever take is given up as stuck.
-/

namespace Rtos

namespace Operation

def rounds : Operation → Nat
  | tick n => n + 1
  | _ => 1

end Operation

/-- Machine steps after which a run is given up. -/
def stepBound (script : List Operation) : Nat :=
  100000 * (script.foldl (fun n op => n + op.rounds) 1)

/-- The run of a script whose operations are performed from the start. -/
def runScript (mode : Mode) (verbosity : Verbosity) (clock : Clock) (script : List Operation) :
    Machine :=
  (Machine.initial mode verbosity clock (.forever (.bind (.request .perform) fun _ => .done ()))
    script).run (stepBound script)

/-- The run of a script whose operations come in as interrupts of the sampling pipeline. -/
def runPipeline (mode : Mode) (verbosity : Verbosity) (clock : Clock) (script : List Operation) :
    Machine :=
  (Machine.initial mode verbosity clock Pipeline.boot script).run (stepBound script)

end Rtos
