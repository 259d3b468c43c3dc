import Stencil.Context.Clean
import Stencil.Template.Condition

/-!
# What names stand for

A path names a value: its first segment a variable of a loop, a variable of the context or one of its lists, in this
order, and each further segment a key or an index in the value so far. Conditions are decided on the values that their
operands name.
-/

namespace Stencil

open Json

namespace Json.Value

/-- The part of a value at a key or an index. -/
def descend? : Value → Text → Option Value
  | .object members, key => Table.get? members key
  | .array items, index => (Text.toNatSigned? index).bind fun i => items[i]?
  | _, _ => none

/-- Whether a value counts as a yes: neither null nor false, nor zero, nor empty. -/
def isTruthy : Value → Bool
  | .null => false
  | .bool b => b
  | .number (.int i) => i ≠ 0
  | .number (.double d) => d.units ≠ 0
  | .string t => !t.isEmpty
  | .array items => !items.isEmpty
  | .object members => !members.isEmpty

/-- A value as it is put out: a text without quotes, null as nothing, and arrays and objects as compact JSON. -/
def plainText : Value → Text
  | .string t => t
  | .null => []
  | value => value.compact

end Json.Value

namespace Sandbox

open Template

/-- The variables of the loops around a place in a program, innermost first. -/
abbrev Scopes := List (Text × Value)

/-- The value that a name stands for. -/
def valueOf? (context : CleanContext) (scopes : Scopes) (name : Text) : Option Value :=
  (Table.get? scopes name).or (context.get? name)

/-- The value that a path names. -/
def resolve? (context : CleanContext) (scopes : Scopes) : Path → Option Value
  | [] => none
  | name :: rest => do
    let root ← valueOf? context scopes name
    rest.foldlM Value.descend? root

/-- The value of an operand. -/
def operandValue? (context : CleanContext) (scopes : Scopes) : Operand → Option Value
  | .path path => resolve? context scopes path
  | .text t => some (.string t)
  | .int i => some (.number (.int i))
  | .bool b => some (.bool b)

/-- The text of an operand; a path that names nothing has no text. -/
def operandText (context : CleanContext) (scopes : Scopes) (operand : Operand) : Text :=
  match operandValue? context scopes operand with
  | some value => value.plainText
  | none => []

/-- Whether a condition holds. Values are equal if they have the same text. -/
def holds (context : CleanContext) (scopes : Scopes) : Condition → Bool
  | .truthy operand => (operandValue? context scopes operand).any Value.isTruthy
  | .equal left right => operandText context scopes left = operandText context scopes right
  | .not condition => !holds context scopes condition

end Sandbox

end Stencil
