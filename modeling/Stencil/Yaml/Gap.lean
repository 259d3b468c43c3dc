import Stencil.Yaml.Cursor

/-!
# Folding lines

A scalar may run over several lines. What stands between two of its characters is a gap, and stands for blanks, a single
space, or ends of lines.
-/

namespace Stencil.Yaml

/-- What stands between two characters of a scalar: blanks, latest first, or the ends of lines, of which the first may
be escaped. -/
inductive Gap where
  | blanks (latestFirst : Text)
  | lines (first : Option Char) (more : Text)
deriving DecidableEq, Repr

namespace Gap

/-- Nothing. -/
def none : Gap := blanks []

/-- One more blank; beside the ends of lines blanks do not count. -/
def addBlank (g : Gap) (c : Char) : Gap :=
  match g with
  | blanks found => blanks (c :: found)
  | lines first more => lines first more

/-- One more end of a line. -/
def addBreak (g : Gap) (c : Char) : Gap :=
  match g with
  | blanks _ => lines (some c) []
  | lines first more => lines first (more ++ [c])

/-- Whether there is nothing. -/
def isNone (g : Gap) : Bool := g = none

/-- Whether a line ends. -/
def crossesLine (g : Gap) : Bool :=
  match g with
  | blanks _ => false
  | lines _ _ => true

/-- What a gap stands for, in front of the text found so far, latest character first: one end of a line is a space, and
of several the first is dropped. -/
def fill (g : Gap) (found : Text) : Text :=
  match g with
  | blanks latestFirst => latestFirst ++ found
  | lines .none more => more.reverse ++ found
  | lines (some '\n') [] => ' ' :: found
  | lines (some '\n') more => more.reverse ++ found
  | lines (some c) more => more.reverse ++ c :: found

/-- Where nothing stands, nothing is filled in. -/
@[simp] theorem fill_none (found : Text) : none.fill found = found := rfl

end Gap

end Stencil.Yaml
