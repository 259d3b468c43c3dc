import Stencil.Context.Basic
import Stencil.Inspection.Validator

/-!
# Clean contexts

The evaluator sees nothing of a caller's context but what came out of `ofContext`: every value cleaned and of its
declared type, every required name bound, and declared defaults filled in.

Of several faults the one reported does not hang on the order of the caller's variables and lists: they are looked at
in ascending order of names, variables first, then lists, then regions, then missing names, then defaults.
-/

namespace Stencil

open Json Inspection

/-- A context that has been inspected. -/
structure CleanContext where
  values : Table Text Value
  regions : Table Text Bool
  lists : Table Text Value
deriving BEq, Repr

/-- Refuses a value that is not of the type under which the template first declares its name. -/
def Template.checkType (t : Template) (name : Text) (value : Value) : Except Fault Unit :=
  match t.declaration? name with
  | some d => if d.type.accepts value then .ok () else .error (.context (.wrongType name d.type.name))
  | none => .ok ()

namespace CleanContext

/-- A context in which nothing is bound. -/
def empty : CleanContext := ⟨[], [], []⟩

/-! ## Looking things up -/

/-- The value of a variable. -/
def value? (c : CleanContext) (name : Text) : Option Value := Table.get? c.values name

/-- A list to loop over. -/
def list? (c : CleanContext) (name : Text) : Option Value := Table.get? c.lists name

/-- The value of a variable or, if there is none of the name, a list. -/
def get? (c : CleanContext) (name : Text) : Option Value := (c.value? name).or (c.list? name)

/-- Regions are rendered unless they are switched off. -/
def regionEnabled (c : CleanContext) (name : Text) : Bool := (Table.get? c.regions name).getD true

/-- How many names are bound, one that is both a variable and a list counted twice. -/
def size (c : CleanContext) : Nat := c.values.length + c.lists.length

/-- Whether nothing is bound. -/
def isEmpty (c : CleanContext) : Bool := c.size = 0

/-! ## Inspecting a context -/

/-- A supplied value, cleaned and of its declared type. -/
def cleanEntry (v : Validator) (t : Template) (name : Text) (value : Value) : Except Fault Value := do
  let cleaned ← v.validateValue name value
  t.checkType name cleaned
  return cleaned

/-- Supplied values, cleaned one after the other. -/
def cleanEntries (v : Validator) (t : Template) : List (Text × Value) → Except Fault (Table Text Value)
  | [] => .ok []
  | (name, value) :: rest => do
    let cleaned ← cleanEntry v t name value
    let later ← cleanEntries v t rest
    return (name, cleaned) :: later

/-- Refuses the first name that no region may have. -/
def checkRegions (regions : List (Text × Bool)) : Except Fault Unit :=
  match regions.find? fun (name, _) => !Template.isVariableName name with
  | some (name, _) => .error (.context (.invalidRegionName name))
  | none => .ok ()

/-- The required names that are not bound, once for each declaration. -/
def missing (t : Template) (c : CleanContext) : List Text :=
  (t.declarations.filter fun d => d.required && (c.get? d.name).isNone).map (·.name)

/-- Refuses a context in which a required name is not bound. -/
def checkRequired (t : Template) (c : CleanContext) : Except Fault Unit :=
  if (missing t c).isEmpty then .ok () else .error (.missingVariables (missing t c))

/-- The context with the cleaned defaults of declared names that are not bound; the first default of a name counts. -/
def mergeDefaults (v : Validator) : List Template.Declaration → CleanContext → Except Fault CleanContext
  | [], c => .ok c
  | d :: rest, c =>
    match c.get? d.name, d.default with
    | none, some default => do
      let cleaned ← v.validateValue d.name default
      mergeDefaults v rest { c with values := c.values.insert d.name cleaned }
    | _, _ => mergeDefaults v rest c

/-- What a template gets to see of a context. -/
def ofContext (v : Validator) (t : Template) (context : Context) : Except Fault CleanContext := do
  let values ← cleanEntries v t (Table.ofEntries context.values)
  let lists ← cleanEntries v t (Table.ofEntries (context.lists.map fun (name, items) => (name, .array items)))
  checkRegions context.regions
  -- defaults do not count as supplied, so a required name with a default is missing all the same
  let supplied : CleanContext := ⟨values, Table.ofEntries context.regions, lists⟩
  checkRequired t supplied
  mergeDefaults v t.declarations supplied

end CleanContext

end Stencil
