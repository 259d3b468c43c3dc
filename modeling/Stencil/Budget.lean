import Stencil.Fault
import Stencil.Template.Outline

/-!
# Budgets

A budget bounds what one render may use. Each profile of deployment has its own; a configuration may override it field
by field, and is refused if the result makes no sense.

Main statement: the budget of every profile is valid (`validate_ofProfile`).
-/

namespace Stencil

/-- The profiles of deployment. -/
inductive Profile where
  | basic
  | performance
  | secure
  | enterprise
deriving DecidableEq, Repr

namespace Profile

/-- All profiles. -/
def all : List Profile := [basic, performance, secure, enterprise]

/-- The name of a profile. -/
def name : Profile → Text
  | basic => "basic"
  | performance => "performance"
  | secure => "secure"
  | enterprise => "enterprise"

/-- The profile of a name. -/
def ofName? (t : Text) : Option Profile := all.find? fun p => p.name = t

end Profile

/-- What one render may use at most. A loop is cut short behind its greatest number of turns; every other bound, once
exceeded, ends the render. -/
structure Budget where
  maxContentBytes : Nat
  maxOutputBytes : Nat
  maxLoopIterations : Nat
  maxTotalIterations : Nat
  maxIncludeDepth : Nat
  maxRecursionDepth : Nat
  maxWallTimeMs : Nat
  maxExpressionLength : Nat
  maxVariableBytes : Nat
deriving DecidableEq, Repr

namespace Budget

/-- Bytes in a kibibyte. -/
def kibi : Nat := 1024

/-- Bytes in a mebibyte. -/
def mebi : Nat := 1024 * kibi

/-- The budget of a profile. -/
def ofProfile : Profile → Budget
  | .basic => ⟨mebi, 5 * mebi, 1000, 10000, 3, 10, 5000, 256, 64 * kibi⟩
  | .performance => ⟨5 * mebi, 20 * mebi, 10000, 100000, 5, 20, 10000, 512, 256 * kibi⟩
  | .secure => ⟨512 * kibi, 2 * mebi, 500, 5000, 2, 8, 2000, 200, 16 * kibi⟩
  | .enterprise => ⟨mebi, 10 * mebi, 1000, 20000, 3, 10, 3000, 256, 64 * kibi⟩

/-- The limits of the grammar under a budget. -/
def parseLimits (b : Budget) : Template.Limits := ⟨b.maxExpressionLength, b.maxRecursionDepth⟩

/-- The greatest depth of recursion that a budget may grant. -/
def greatestDepth : Nat := 64

/-- The longest time that a budget may grant, in milliseconds. -/
def greatestWallTime : Nat := 300000

/-- The fields that must not be zero, in the order in which they are checked, with their names. -/
def positiveFields (b : Budget) : List (Text × Nat) :=
  [("max_content_bytes", b.maxContentBytes), ("max_output_bytes", b.maxOutputBytes),
    ("max_loop_iterations", b.maxLoopIterations), ("max_total_iterations", b.maxTotalIterations),
    ("max_recursion_depth", b.maxRecursionDepth), ("max_expression_length", b.maxExpressionLength),
    ("max_variable_bytes", b.maxVariableBytes)]

/-- Refuses a budget with a bound of zero, with a depth or a time out of range, or with less turns in all loops than in
one. -/
def validate (b : Budget) : Except Fault Unit :=
  match b.positiveFields.find? fun (_, value) => value = 0 with
  | some (field, _) => .error (.config (.zeroBudget field))
  | none =>
    if greatestDepth < b.maxRecursionDepth then .error (.config (.deepRecursion greatestDepth))
    else if b.maxWallTimeMs = 0 ∨ greatestWallTime < b.maxWallTimeMs then .error (.config (.wallTime greatestWallTime))
    else if b.maxTotalIterations < b.maxLoopIterations then .error (.config .totalBelowLoop)
    else .ok ()

/-- The budget of every profile is valid. -/
theorem validate_ofProfile (p : Profile) : (ofProfile p).validate = .ok () := by cases p <;> rfl

/-- New values for some fields of a budget. -/
structure Overrides where
  maxContentBytes : Option Nat := none
  maxOutputBytes : Option Nat := none
  maxLoopIterations : Option Nat := none
  maxTotalIterations : Option Nat := none
  maxIncludeDepth : Option Nat := none
  maxRecursionDepth : Option Nat := none
  maxWallTimeMs : Option Nat := none
  maxExpressionLength : Option Nat := none
  maxVariableBytes : Option Nat := none
deriving DecidableEq, Repr

/-- A budget with its new values. -/
def override (b : Budget) (o : Overrides) : Budget where
  maxContentBytes := o.maxContentBytes.getD b.maxContentBytes
  maxOutputBytes := o.maxOutputBytes.getD b.maxOutputBytes
  maxLoopIterations := o.maxLoopIterations.getD b.maxLoopIterations
  maxTotalIterations := o.maxTotalIterations.getD b.maxTotalIterations
  maxIncludeDepth := o.maxIncludeDepth.getD b.maxIncludeDepth
  maxRecursionDepth := o.maxRecursionDepth.getD b.maxRecursionDepth
  maxWallTimeMs := o.maxWallTimeMs.getD b.maxWallTimeMs
  maxExpressionLength := o.maxExpressionLength.getD b.maxExpressionLength
  maxVariableBytes := o.maxVariableBytes.getD b.maxVariableBytes

end Budget

end Stencil
