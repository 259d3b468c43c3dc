import Stencil.Context.Basic
import Stencil.Issue
import Stencil.Json.Record
import Stencil.Template.Record

/-!
# Stored forms

The JSON forms in which templates, contexts, issues and reports are kept and exchanged. Templates and contexts are
closed records; issues and reports pass over members that they do not know. A form is read from a document, and a
record is written with all of its fields.
-/

namespace Stencil

open Json

/-- An object of some members, in ascending order of keys. -/
def Json.Value.ofMembers (members : List (Text × Value)) : Value := .object (Table.ofEntries members)

/-! ## Templates -/

namespace Template

/-- The stored form of a type. -/
def TypeTag.toJson (tag : TypeTag) : Value := .string tag.name

/-- A type from its stored form. -/
def TypeTag.ofDocument? : Document → Option TypeTag := Document.name? TypeTag.ofName?

/-- The stored form of a declaration. A missing default is null. -/
def Declaration.toJson (d : Declaration) : Value :=
  .ofMembers [("name", .string d.name), ("required", .bool d.required), ("default", d.default.getD .null),
    ("type_tag", d.type.toJson)]

/-- A declaration from its stored form; a default of null is none. -/
def Declaration.ofDocument? (document : Document) : Option Declaration := do
  match ← document.fields? ["name", "required", "default", "type_tag"] true with
  | [name, required, default, type] =>
    return ⟨← Document.required? Document.text? name, ← Document.defaulted? Document.bool? false required,
      ← Document.defaulted? Document.nullable? none default, ← Document.defaulted? TypeTag.ofDocument? .any type⟩
  | _ => none

/-- The stored form of a template. -/
def toJson (t : Template) : Value :=
  .ofMembers [("id", .string t.id), ("content", .string t.content),
    ("declared_variables", .array (t.declarations.map Declaration.toJson)), ("owner", .string t.owner),
    ("mask_pii", .bool t.masksPersonalData)]

/-- A template from its stored form. -/
def ofDocument? (document : Document) : Option Template := do
  match ← document.fields? ["id", "content", "declared_variables", "owner", "mask_pii"] true with
  | [id, content, declarations, owner, masks] =>
    return ⟨← Document.required? Document.text? id, ← Document.required? Document.text? content,
      ← Document.defaulted? (Document.list? Declaration.ofDocument?) [] declarations,
      ← Document.defaulted? Document.text? [] owner, ← Document.defaulted? Document.bool? false masks⟩
  | _ => none

/-- A template from a value. -/
def ofJson? (v : Value) : Option Template := ofDocument? (.ofValue v)

end Template

/-! ## Contexts -/

namespace Context

/-- The stored form of a context. -/
def toJson (c : Context) : Value :=
  .ofMembers [("variables", .ofMembers c.values),
    ("section_flags", .ofMembers (c.regions.map fun (name, shown) => (name, .bool shown))),
    ("loop_sources", .ofMembers (c.lists.map fun (name, items) => (name, .array items)))]

/-- A context from its stored form. -/
def ofDocument? (document : Document) : Option Context := do
  match ← document.fields? ["variables", "section_flags", "loop_sources"] true with
  | [values, regions, lists] =>
    return ⟨← Document.defaulted? (Document.table? Document.toValue?) [] values,
      ← Document.defaulted? (Document.table? Document.bool?) [] regions,
      ← Document.defaulted? (Document.table? (Document.list? Document.toValue?)) [] lists⟩
  | _ => none

/-- A context from a value. -/
def ofJson? (v : Value) : Option Context := ofDocument? (.ofValue v)

end Context

/-! ## Issues and reports -/

/-- The stored form of an issue. -/
def Issue.toJson (i : Issue) : Value :=
  .ofMembers [("category", .string i.category.name), ("severity", .string i.severity.name),
    ("excerpt", .string i.excerpt)]

/-- An issue from its stored form. -/
def Issue.ofDocument? (document : Document) : Option Issue := do
  match ← document.fields? ["category", "severity", "excerpt"] false with
  | [category, severity, excerpt] =>
    return ⟨← Document.required? (Document.name? Category.ofName?) category,
      ← Document.required? (Document.name? Severity.ofName?) severity, ← Document.required? Document.text? excerpt⟩
  | _ => none

/-- The stored form of a report. -/
def Report.toJson (r : Report) : Value :=
  .ofMembers [("is_valid", .bool r.isValid), ("issues", .array (r.issues.map Issue.toJson))]

/-- A report from its stored form. -/
def Report.ofDocument? (document : Document) : Option Report := do
  match ← document.fields? ["is_valid", "issues"] false with
  | [isValid, issues] =>
    return ⟨← Document.required? Document.bool? isValid,
      ← Document.required? (Document.list? Issue.ofDocument?) issues⟩
  | _ => none

/-! ## Text -/

/-- The document of a text that is nested no deeper than values may be. -/
def Json.Document.readBounded? (t : Text) : Option Document :=
  (Document.read? t).filter fun document => document.depth ≤ Document.maxDepth

/-- A template from text. -/
def Template.read? (t : Text) : Option Template := (Document.readBounded? t).bind ofDocument?

/-- A declaration from text. -/
def Template.Declaration.read? (t : Text) : Option Declaration := (Document.readBounded? t).bind ofDocument?

/-- A type from text. -/
def Template.TypeTag.read? (t : Text) : Option TypeTag := (Document.readBounded? t).bind ofDocument?

/-- A context from text. -/
def Context.read? (t : Text) : Option Context := (Document.readBounded? t).bind ofDocument?

/-- An issue from text. The members that it passes over may be nested to any depth. -/
def Issue.read? (t : Text) : Option Issue := (Document.read? t).bind ofDocument?

/-- A report from text. The members that it passes over may be nested to any depth. -/
def Report.read? (t : Text) : Option Report := (Document.read? t).bind ofDocument?

end Stencil
