import Stencil.Number.Word
import Stencil.Yaml.Document

/-!
# Fields of YAML documents

How the parts of a record are read from a document. A scalar is taken as the text it is written as, unless a number is
expected, which has to be plain. Where nothing is written there is an empty list, an empty mapping, or no value at all.
-/

namespace Stencil.Yaml.Document

/-- The full tag of null. -/
def nullTag : Tag := Text.utf8 "tag:yaml.org,2002:null"

/-- The full tag of integers. -/
def integerTag : Tag := Text.utf8 "tag:yaml.org,2002:int"

/-- Whether a text stands for no value. -/
def isNullText (t : Text) : Bool := t = "null".toList || t = "Null".toList || t = "NULL".toList || t = ['~']

/-- A value that may be left out. A scalar that is tagged as null has to be one. -/
def optional? {α : Type} (read : Document → Option α) (d : Document) : Option (Option α) :=
  match d.node with
  | .scalar tag ⟨.plain, t⟩ =>
    if tag = some nullTag then if isNullText t then some none else none
    else if tag.isNone && (t.isEmpty || isNullText t) then some none
    else (read d).map some
  | _ => (read d).map some

/-- The text of a scalar. -/
def text? (d : Document) : Option Text :=
  match d.node with
  | .scalar _ s => some s.text
  | _ => none

/-- The name in a tag of the document's own, behind the exclamation mark. -/
def localName? (tag : Tag) : Option Text := do
  match ← Text.ofUtf8? tag with
  | ['!'] => some ['!']
  | '!' :: name => some name
  | _ => none

/-- One of the things that a scalar may name: by its text, or by a tag of the document's own if it has no value. -/
def name? {α : Type} (ofName? : Text → Option α) (d : Document) : Option α :=
  match d.node with
  | .scalar tag s =>
    match tag.bind localName? with
    | some name => if s.style = .plain && (s.text.isEmpty || isNullText s.text) then ofName? name else none
    | none => ofName? s.text
  | _ => none

/-- The number that digits write to a base. -/
def ofDigits? (base : Nat) (t : Text) : Option Nat :=
  if t.isEmpty then none
  else t.foldlM (fun n c => ((hexDigit? c).filter (· < base)).map fun d => base * n + d) 0

/-- The number that a plain scalar writes, in digits or, behind a mark, to the base sixteen, eight or two. Digits behind
a leading zero are no number. -/
def number? (t : Text) : Option Nat :=
  let unsigned := match t with
    | '+' :: rest => rest
    | _ => t
  match unsigned with
  | '0' :: 'x' :: digits => ofDigits? 16 digits
  | '0' :: 'o' :: digits => ofDigits? 8 digits
  | '0' :: 'b' :: digits => ofDigits? 2 digits
  | ['0'] => some 0
  | '0' :: _ => none
  | digits => ofDigits? 10 digits

/-- A number below a bound. It is plain, or a literal block that is tagged as an integer. -/
def nat? (bound : Nat) (d : Document) : Option Nat :=
  match d.node with
  | .scalar tag s =>
    if s.style = .plain || (s.style = .literal && tag = some integerTag) then (number? s.text).filter (· < bound)
    else none
  | _ => none

/-- The items of a list. -/
def listOf? {α : Type} (read : Document → Option α) (d : Document) : Option (List α) :=
  match d.node with
  | .sequence items => items.mapM fun item => read (d.seenFrom item)
  | .scalar _ ⟨.plain, []⟩ => some []
  | _ => none

/-- The entries of a mapping whose keys are texts. -/
def entriesOf? (d : Document) : Option (List (Text × Document)) :=
  match d.node with
  | .mapping entries => entries.mapM fun (key, value) => do return (← (d.seenFrom key).text?, d.seenFrom value)
  | .scalar _ ⟨.plain, []⟩ => some []
  | _ => none

/-- The values of the fields of a record that is written as a mapping, in the order of their names. A field may be
missing, but none may stand there twice, and there may be no others. -/
def fields? (names : List Text) (d : Document) : Option (List (Option Document)) := do
  let entries ← d.entriesOf?
  if entries.any fun (key, _) => !names.contains key then none
  names.mapM fun name =>
    match entries.filter fun (key, _) => key = name with
    | [] => some none
    | [(_, value)] => some (some value)
    | _ => none

/-- A field that takes a value of its own if it is missing. -/
def defaulted? {α : Type} (read : Document → Option α) (default : α) (field : Option Document) : Option α :=
  match field with
  | none => some default
  | some d => read d

end Stencil.Yaml.Document
