import Stencil.Number.Shortest
import Stencil.Table

/-!
# JSON values

The dynamic values of the library: what a caller binds to a variable, and what templates and contexts are stored as.
The members of an object are a table in ascending order of keys.
-/

namespace Stencil.Json

/-- A number: an integer of sixty-four bits, with or without sign, or a double. -/
inductive Number where
  | int (value : Int)
  | double (value : Double)
deriving DecidableEq, Repr

/-- A JSON value. -/
inductive Value where
  | null
  | bool (value : Bool)
  | number (value : Number)
  | string (text : Text)
  | array (items : List Value)
  | object (members : List (Text × Value))
deriving BEq, Repr, Inhabited

/-! ## Text of values -/

/-- Doubles are positional while their first digit counts between `10 ^ -5` and `10 ^ 15`. -/
def Number.layout : Double.Layout := ⟨-5, 15⟩

/-- A number as it is written: an integer in digits, a double as its shortest decimal. -/
def Number.text : Number → Text
  | .int i => Text.ofInt i
  | .double d => (if d.negative then ['-'] else []) ++ layout.write (Double.shortest d.units)

/-- A character as it stands in a string: quotes, backslashes and controls are escaped, all else stands for itself. -/
def escapeChar (c : Char) : Text :=
  match c with
  | '"' => ['\\', '"']
  | '\\' => ['\\', '\\']
  | '\x08' => ['\\', 'b']
  | '\t' => ['\\', 't']
  | '\n' => ['\\', 'n']
  | '\x0c' => ['\\', 'f']
  | '\r' => ['\\', 'r']
  | c =>
    if c.toNat < 0x20 then ['\\', 'u', '0', '0'] ++ (if c.toNat < 0x10 then ['0'] else []) ++ Nat.toDigits 16 c.toNat
    else [c]

/-- A text between quotes, as strings are written. -/
def stringText (t : Text) : Text := '"' :: t.flatMap escapeChar ++ ['"']

namespace Value

/-- A value written without any blank between its parts. -/
def compact : Value → Text
  | .null => "null"
  | .bool true => "true"
  | .bool false => "false"
  | .number n => n.text
  | .string t => stringText t
  | .array items => '[' :: compactItems items ++ [']']
  | .object members => '{' :: compactMembers members ++ ['}']
where
  /-- The items of an array with commas between them. -/
  compactItems : List Value → Text
    | [] => []
    | [item] => compact item
    | item :: rest => compact item ++ ',' :: compactItems rest
  /-- The members of an object with commas between them. -/
  compactMembers : List (Text × Value) → Text
    | [] => []
    | [(key, value)] => stringText key ++ ':' :: compact value
    | (key, value) :: rest => stringText key ++ ':' :: compact value ++ ',' :: compactMembers rest

/-! ## Parts of values -/

/-- The value of a member of an object. -/
def member? : Value → Text → Option Value
  | .object members, key => Table.get? members key
  | _, _ => none

/-- How many arrays and objects lie around the innermost part of a value. -/
def depth : Value → Nat
  | .array items => 1 + depthItems items
  | .object members => 1 + depthMembers members
  | _ => 0
where
  /-- The greatest depth among the items of an array. -/
  depthItems : List Value → Nat
    | [] => 0
    | item :: rest => max item.depth (depthItems rest)
  /-- The greatest depth among the values of an object. -/
  depthMembers : List (Text × Value) → Nat
    | [] => 0
    | (_, value) :: rest => max value.depth (depthMembers rest)

end Value

end Stencil.Json
