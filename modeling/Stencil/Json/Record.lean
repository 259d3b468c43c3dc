import Stencil.Json.Document

/-!
# Records in JSON

How a record with named fields is read from a document: from an object, in which no field may stand twice, or from an
array that gives the fields in their order. A closed record admits no other members. What is not there is left to the
reader of each field.
-/

namespace Stencil.Json.Document

/-- The documents that stand under a name. -/
def named (members : List (Option Text × Document)) (name : Text) : List Document :=
  (members.filter fun (key, _) => key = some name).map (·.2)

/-- The document of a field of an object: none if the field is missing, and a failure if it stands there twice. -/
def field? (members : List (Option Text × Document)) (name : Text) : Option (Option Document) :=
  match named members name with
  | [] => some none
  | [document] => some (some document)
  | _ => none

/-- The documents of the fields of a record, in the order of their names. -/
def fields? (names : List Text) (closed : Bool) : Document → Option (List (Option Document))
  | .object members =>
    if members.any (fun (key, _) => key.isNone) then none
    else if closed && members.any (fun (key, _) => !names.any fun name => key = some name) then none
    else names.mapM (field? members)
  | .array items =>
    if items.length ≤ names.length then
      some (items.map some ++ List.replicate (names.length - items.length) none)
    else none
  | _ => none

/-! ## Fields -/

/-- A field that has to be there. -/
def required? {α : Type} (read : Document → Option α) (field : Option Document) : Option α := field.bind read

/-- A field that takes a value of its own if it is not there. -/
def defaulted? {α : Type} (read : Document → Option α) (default : α) : Option Document → Option α
  | none => some default
  | some document => read document

/-- The text of a string. -/
def text? : Document → Option Text
  | .string t => t
  | _ => none

/-- A truth value. -/
def bool? : Document → Option Bool
  | .bool b => some b
  | _ => none

/-- The items of an array, each read alike. -/
def list? {α : Type} (read : Document → Option α) : Document → Option (List α)
  | .array items => items.mapM read
  | _ => none

/-- The members of an object, each read alike; of a repeated key the last counts. -/
def table? {α : Type} (read : Document → Option α) : Document → Option (Table Text α)
  | .object members =>
    (members.mapM fun (member : Option Text × Document) => do
      let key ← member.1
      let value ← read member.2
      return (key, value)).map Table.ofEntries
  | _ => none

/-- One of several names: a string, or an object that has it for its only key, with nothing under it. -/
def name? {α : Type} (ofName? : Text → Option α) : Document → Option α
  | .string (some t) => ofName? t
  | .object [(some key, .null)] => ofName? key
  | _ => none

/-- A value that may be missing, for which null stands. -/
def nullable? : Document → Option (Option Value)
  | .null => some none
  | document => document.toValue?.map some

end Stencil.Json.Document
