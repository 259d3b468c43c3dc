import Stencil.Text.Basic

/-!
# Locations and paths

A location is a place in a tree of files, given by the names on the way from the root. A path is a text that leads to a
location: its steps stand between slashes, an empty step or a point stays where it is, and two points go up.

Two readings of a path are needed. Following it through the files takes each step where the steps before have led, links
included (`Stencil.Files.Tree`); reading it as it is written drops a step with two points together with the name in
front (`lexical`).
-/

namespace Stencil.Files

/-- The names on the way from the root. -/
abbrev Location := List Text

namespace Location

/-- A location in writing. -/
def text (l : Location) : Text := if l.isEmpty then ['/'] else l.flatMap ('/' :: ·)

end Location

/-- The steps of a path. -/
def steps (path : Text) : List Text := Text.split (· == '/') path

/-- Whether a path starts at the root. -/
def isAbsolute (path : Text) : Bool := path.head? = some '/'

/-- Whether a step stays where it is. -/
def staysPut (step : Text) : Bool := step.isEmpty || step = ['.']

/-- Whether a step goes up. -/
def goesUp (step : Text) : Bool := step = ['.', '.']

/-- Whether a text can be the name of something in a directory: it is a step that goes down, and one step only. -/
def isName (name : Text) : Bool := !staysPut name && !goesUp name && !name.contains '/'

/-- Every name of a location can be a name. -/
def Location.Proper (l : Location) : Prop := ∀ name ∈ l, isName name = true

instance (l : Location) : Decidable l.Proper := inferInstanceAs (Decidable (∀ name ∈ l, isName name = true))

/-- Where a path starts, if relative paths start at a given location. -/
def start (current : Location) (path : Text) : Location := if isAbsolute path then [] else current

/-- The location that steps lead to as they are written. -/
def lexicalFrom : Location → List Text → Location
  | here, [] => here
  | here, step :: rest =>
    if staysPut step then lexicalFrom here rest
    else if goesUp step then lexicalFrom here.dropLast rest
    else lexicalFrom (here ++ [step]) rest

/-- The location that a path names as it is written, whatever the files are. -/
def lexical (current : Location) (path : Text) : Location := lexicalFrom (start current path) (steps path)

end Stencil.Files
