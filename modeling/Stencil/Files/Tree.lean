import Stencil.Fault
import Stencil.Files.Location
import Stencil.Table

/-!
# Trees of files

Directories, files and symbolic links, and the ways in which a path leads through them. A link stands for the steps of
its target; a path may meet forty links, and one with more leads nowhere, so a cycle of links does not either.

A path is given to the system whole, and one that is too long leads nowhere (`Tree.Fits`). So a place may be there and
still not be found by its own path, while a shorter path, through a link or from a directory nearby, leads to it.

A location is occupied if the path to it leads to it through directories; nothing is said of entries that no path
reaches.
-/

namespace Stencil.Files

open Fault

/-- What stands at a location. -/
inductive Entry where
  | directory
  | file (content : List UInt8)
  | link (target : Text)
deriving DecidableEq, Repr

/-- The entries of a tree, the directory at its root left out, and where relative paths start. -/
structure Tree where
  entries : Table Location Entry
  current : Location
  proper_current : current.Proper
deriving Repr

namespace Tree

/-- A tree whose only directories are those on the way to where relative paths start. What can be no name is left out
on this way. -/
def empty (names : List Text) : Tree where
  entries := (List.range (names.filter isName).length).map fun n => ((names.filter isName).take (n + 1), .directory)
  current := names.filter isName
  proper_current := fun _ h => (List.mem_filter.1 h).2

/-- What stands at a location, links not followed. -/
def get? (tree : Tree) : Location → Option Entry
  | [] => some .directory
  | name :: rest => Table.get? tree.entries (name :: rest)

/-! ## Following paths -/

/-- The bytes that a name may have. -/
def maxName : Nat := 255

/-- The links that a path may meet. -/
def maxLinks : Nat := 40

/-- The greatest number of bytes of a path. -/
def maxPath : Nat := 4095

/-- Where steps lead, and what is there; nothing may be there behind the last step. A link is left to `jump`, which
gets the steps that remain. -/
def walk (tree : Tree) (jump : Location → List Text → Except ReadFailure (Location × Option Entry)) :
    Location → List Text → Except ReadFailure (Location × Option Entry)
  | here, [] => .ok (here, some .directory)
  | here, step :: rest =>
    if staysPut step then walk tree jump here rest
    else if goesUp step then walk tree jump here.dropLast rest
    else if maxName < Text.byteLength step then .error .invalidName
    else match tree.get? (here ++ [step]) with
      | some .directory => walk tree jump (here ++ [step]) rest
      -- a relative target starts in the directory that holds the link
      | some (.link target) => jump (start here target) (steps target ++ rest)
      | some (.file content) =>
        -- even an empty step behind a file asks for a directory
        if rest.isEmpty then .ok (here ++ [step], some (.file content)) else .error .notDirectory
      | none => if rest.isEmpty then .ok (here ++ [step], none) else .error .notFound

/-- Where steps lead if so many links may be followed. -/
def follow (tree : Tree) : Nat → Location → List Text → Except ReadFailure (Location × Option Entry)
  | 0 => tree.walk fun _ _ => .error .tooManyLinks
  | links + 1 => tree.walk (follow tree links)

/-- Where a path leads, and what is there. -/
def locate (tree : Tree) (path : Text) : Except ReadFailure (Location × Option Entry) :=
  if path.isEmpty then .error .notFound
  else if path.contains '\x00' then .error .invalidPath
  else if maxPath < Text.byteLength path then .error .invalidName
  else tree.follow maxLinks (start tree.current path) (steps path)

/-! ## Asking for locations -/

/-- Whether the path to a location is short enough to be given to the system. -/
def Fits (l : Location) : Prop := Text.byteLength l.text ≤ maxPath

instance : DecidablePred Fits := fun l => inferInstanceAs (Decidable (Text.byteLength l.text ≤ maxPath))

/-- Whether steps ask for a directory in front of them: there are some, and before any of them goes down they end or go
up. -/
def askDirectory (rest : List Text) : Bool := !rest.isEmpty && (rest.find? fun step => !staysPut step).all goesUp

/-- The bytes of the path by which a directory is asked for. It ends with a slash if the steps behind the directory do
not go down from it. -/
def askedLength (l : Location) (rest : List Text) : Nat :=
  Text.byteLength l.text + if askDirectory rest then 1 else 0

/-- Whether every place that steps lead over can be asked for by its path. -/
def walkFits (tree : Tree) (jump : Location → List Text → Bool) : Location → List Text → Bool
  | _, [] => true
  | here, step :: rest =>
    if staysPut step then walkFits tree jump here rest
    else if goesUp step then walkFits tree jump here.dropLast rest
    else if maxName < Text.byteLength step then true
    else match tree.get? (here ++ [step]) with
      | some .directory =>
        decide (askedLength (here ++ [step]) rest ≤ maxPath) && walkFits tree jump (here ++ [step]) rest
      | some (.link target) =>
        decide (Fits (here ++ [step])) && jump (start here target) (steps target ++ rest)
      | some (.file _) | none => decide (Fits (here ++ [step]))

/-- Whether every place that steps lead over can be asked for by its path, if so many links may be followed. -/
def followFits (tree : Tree) : Nat → Location → List Text → Bool
  | 0 => tree.walkFits fun _ _ => true
  | links + 1 => tree.walkFits (followFits tree links)

/-- The location behind all links, if something is there. Each place on the way is asked for by its own path, so the
location is not found if one of these paths, or the one to start with, is too long. -/
def real? (tree : Tree) (l : Location) : Option Location :=
  if Fits l ∧ tree.followFits maxLinks [] l = true then
    match tree.follow maxLinks [] l with
    | .ok (place, some _) => some place
    | _ => none
  else none

/-- What stands at a name in the directory that a location leads to, a link at the name itself not followed. -/
def beneath? (tree : Tree) (parent : Location) (name : Text) : Option Entry :=
  match tree.follow maxLinks [] parent with
  | .ok (place, some .directory) =>
    if maxName < Text.byteLength name then none else tree.get? (place ++ [name])
  | _ => none

/-- What is found at a name in a directory by the path to it, a link at the name itself not followed. If the path is too
long nothing is found. -/
def standing? (tree : Tree) (parent : Location) (name : Text) : Option Entry :=
  if Fits (parent ++ [name]) then tree.beneath? parent name else none

/-- Whether something is found at a name in a directory, if only a link. -/
def isOccupied (tree : Tree) (parent : Location) (name : Text) : Bool := (tree.standing? parent name).isSome

/-! ## Changing a tree -/

/-- The tree with something at a location. -/
def put (tree : Tree) (l : Location) (entry : Entry) : Tree := { tree with entries := tree.entries.set l entry }

/-- The tree with a directory at the end of some steps, innermost first, and with the directories around it, as far as
there are none. Nothing if something else is in the way. -/
def makeDirectories? (tree : Tree) : List Text → Option Tree
  | [] => some tree
  | name :: outer => do
    let made ← makeDirectories? tree outer
    match made.follow maxLinks made.current (name :: outer).reverse,
      made.follow maxLinks made.current outer.reverse with
    | .ok (_, some .directory), _ => some made
    -- what is missing has to be the name itself, not the target of a link of this name
    | .ok (place, none), .ok (parent, _) => if place = parent ++ [name] then some (made.put place .directory) else none
    | _, _ => none

/-- A path taken apart into the steps to a directory, innermost first, and a name in it. -/
def parentAndName (path : Text) : List Text × Text := ((steps path).reverse.drop 1, (steps path).getLast?.getD [])

/-- The tree with a file, in directories that are made if they are missing. Nothing if a directory is in the way. -/
def write? (tree : Tree) (path : Text) (content : List UInt8) : Option Tree := do
  let made ← tree.makeDirectories? (parentAndName path).1
  match made.follow maxLinks made.current (steps path) with
  | .ok (place, none) => some (made.put place (.file content))
  | .ok (place, some (.file _)) => some (made.put place (.file content))
  | _ => none

/-- The tree with a symbolic link, in directories that are made if they are missing. Nothing if the name is taken. -/
def link? (tree : Tree) (path target : Text) : Option Tree := do
  let (outer, name) := parentAndName path
  let made ← tree.makeDirectories? outer
  match made.follow maxLinks made.current outer.reverse with
  | .ok (place, some .directory) =>
    if staysPut name || goesUp name || maxName < Text.byteLength name || target.isEmpty ||
        maxPath < Text.byteLength target || (made.get? (place ++ [name])).isSome then none
    else some (made.put (place ++ [name]) (.link target))
  | _ => none

/-- The tree without a file or a link. Nothing if there is none of the name. -/
def unlink? (tree : Tree) (path : Text) : Option Tree :=
  let (outer, name) := parentAndName path
  match tree.follow maxLinks tree.current outer.reverse with
  | .ok (place, some .directory) =>
    match tree.get? (place ++ [name]) with
    | some (.file _) => some { tree with entries := tree.entries.erase (place ++ [name]) }
    | some (.link _) => some { tree with entries := tree.entries.erase (place ++ [name]) }
    | _ => none
  | _ => none

end Tree

end Stencil.Files
