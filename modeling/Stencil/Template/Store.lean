import Stencil.Fault
import Stencil.Table
import Stencil.Template.Record

/-!
# Stores of templates

Templates under their ids; one that is inserted replaces an older one of its id.
-/

namespace Stencil.Template

/-- Templates by id. -/
abbrev Store := Table Text Template

namespace Store

/-- Stores a template under its id. -/
def insert (s : Store) (t : Template) : Store := Table.set s t.id t

/-- The template of an id, taken out of the store, and the store without it. -/
def remove (s : Store) (id : Text) : Option Template × Store := (Table.get? s id, Table.erase s id)

/-- The template of an id. -/
def find (s : Store) (id : Text) : Except Fault Template :=
  match Table.get? s id with
  | some t => .ok t
  | none => .error (.context (.unknownTemplate id))

/-- What is inserted is found. -/
theorem find_insert (s : Store) (t : Template) : (s.insert t).find t.id = .ok t := by
  simp [find, insert, Table.get?_set]

end Store

end Stencil.Template
