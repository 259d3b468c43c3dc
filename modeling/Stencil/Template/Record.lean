import Stencil.Json.Value

/-!
# Templates as records

A template is kept with the names of the variables that it expects. Each may be required or have a default, and may be
bound to a type of value.
-/

namespace Stencil

namespace Template

/-- The types that a variable may be bound to. -/
inductive TypeTag where
  | any
  | string
  | number
  | boolean
  | list
  | object
deriving DecidableEq, Repr

namespace TypeTag

/-- All tags. -/
def all : List TypeTag := [any, string, number, boolean, list, object]

/-- The name of a tag. -/
def name : TypeTag → Text
  | any => "any"
  | string => "string"
  | number => "number"
  | boolean => "boolean"
  | list => "list"
  | object => "object"

/-- The tag of a name. -/
def ofName? (t : Text) : Option TypeTag := all.find? fun tag => tag.name = t

/-- Whether a value is of a type. Null is of no type but `any`. -/
def accepts : TypeTag → Json.Value → Bool
  | any, _ => true
  | string, .string _ => true
  | number, .number _ => true
  | boolean, .bool _ => true
  | list, .array _ => true
  | object, .object _ => true
  | _, _ => false

end TypeTag

/-- A variable that a template declares. -/
structure Declaration where
  name : Text
  required : Bool
  default : Option Json.Value
  type : TypeTag
deriving BEq, Repr

namespace Declaration

/-- A variable that a caller has to supply. -/
def mandatory (name : Text) : Declaration := ⟨name, true, none, .any⟩

/-- A variable that a caller may leave out. -/
def optional (name : Text) (default : Option Json.Value) : Declaration := ⟨name, false, default, .any⟩

/-- The declaration with a type. -/
def withType (d : Declaration) (type : TypeTag) : Declaration := { d with type }

end Declaration

end Template

/-- A template as it is kept: its text, what it declares, who owns it, and whether personal data in its output is
masked. -/
structure Template where
  id : Text
  content : Text
  declarations : List Template.Declaration
  owner : Text
  masksPersonalData : Bool
deriving BEq, Repr

namespace Template

/-- A template that declares nothing. -/
def new (id content : Text) : Template := ⟨id, content, [], [], false⟩

/-- The template with one more declaration behind the others. -/
def withDeclaration (t : Template) (d : Declaration) : Template := { t with declarations := t.declarations ++ [d] }

/-- The template with an owner. -/
def withOwner (t : Template) (owner : Text) : Template := { t with owner }

/-- The template with masking switched on or off. -/
def withMasking (t : Template) (masks : Bool) : Template := { t with masksPersonalData := masks }

/-- The first declaration of a name. -/
def declaration? (t : Template) (name : Text) : Option Declaration := t.declarations.find? fun d => d.name = name

/-! ## Names of variables -/

/-- The greatest length of the name of a variable, in bytes. -/
def maxVariableName : Nat := 64

/-- A variable may have any name of at most sixty-four characters. -/
def isVariableName (t : Text) : Bool := Text.isName t && t.length ≤ maxVariableName

end Template

end Stencil
