import Stencil.Fault
import Stencil.Issue

/-!
# How a run ends

A run is completed with an output, or it halts: what it has written so far is then discarded.
-/

namespace Stencil.Sandbox

/-- Why a run does not go on. -/
inductive Halt where
  | rejected (issue : Issue)
  | timedOut
  | recursionExceeded
  | inclusionDepthExceeded
  | iterationsExceeded
  | sizeExceeded
  | aborted (fault : Fault)
deriving DecidableEq, Repr

/-- The fault that a halted run is reported as. -/
def Halt.fault : Halt → Fault
  | .rejected issue => .violation issue.category
  | .timedOut => .exhausted .time
  | .recursionExceeded => .exhausted .recursion
  | .inclusionDepthExceeded => .exhausted .includeDepth
  | .iterationsExceeded => .exhausted .iterations
  | .sizeExceeded => .exhausted .size
  | .aborted fault => fault

/-- The end of a run. -/
inductive Outcome where
  | completed (output : Text)
  | halted (halt : Halt)
deriving DecidableEq, Repr

/-- The output of a completed run, or the fault of one that has halted. -/
def Outcome.result : Outcome → Except Fault Text
  | .completed output => .ok output
  | .halted halt => .error halt.fault

end Stencil.Sandbox
