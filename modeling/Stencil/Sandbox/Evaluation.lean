import Stencil.Sandbox.Run
import Stencil.Template.Program

/-!
# Evaluating programs

A program is evaluated node by node, with a look at the clock at the beginning of each body and in front of each node.
The recursion goes down the program, and through inclusions down the number of inclusions that may still lie inside of
each other; so it ends even if files include each other in a circle.
-/

namespace Stencil.Sandbox

open Template

/-- Nodes one after the other, with a look at the clock in front of each. -/
def nodes (s : Sandbox) (includeFile : Text → Action) : List Node → Action
  | [] => pure ()
  | node :: rest => do
    s.look
    ofNode node
    nodes s includeFile rest
where
  /-- A node. -/
  ofNode : Node → Action
    | .literal t => s.emit t
    | .substitution path raw => s.substitute path raw
    | .loop name collection body => s.loop name collection (do s.look; nodes s includeFile body)
    | .conditional condition body otherwise =>
      s.choose condition (do s.look; nodes s includeFile body) (do s.look; nodes s includeFile otherwise)
    | .region name body => s.region name (do s.look; nodes s includeFile body)
    | .inclusion path => includeFile path

/-- A program in which so many inclusions may lie inside of each other. -/
def execute (s : Sandbox) : Nat → Program → Action
  | 0, program => do
    s.look
    s.nodes (s.inclusion none) program
  | room + 1, program => do
    s.look
    s.nodes (s.inclusion (some (execute s room))) program

/-- How the run of a program ends, and the inclusions that are kept behind it. -/
def evaluate (s : Sandbox) (cache : InclusionCache) (program : Program) : Outcome × InclusionCache :=
  match s.execute s.budget.maxIncludeDepth program (Run.start cache) with
  | .ok () after => (.completed after.output, after.cache)
  | .error halt after => (.halted halt, after.cache)

end Stencil.Sandbox
