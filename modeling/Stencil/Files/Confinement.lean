import Stencil.Files.Tree

/-!
# Confining paths to a directory

The path of an inclusion is untrusted. It is accepted only if it is relative, goes up nowhere, and leads to a place
inside of the base directory once every link on the part of it that exists has been followed. What is missing behind
that part is kept as it is written.

A location whose path is too long for the system counts as missing, like one where nothing is. So what stands behind the
part that can be asked for is not looked at, links included.
-/

namespace Stencil.Files

/-- Whether a path is refused as it is written: it starts at a root, names a drive or a scheme, or holds an encoded
character. -/
def isSuspicious (path : Text) : Bool :=
  path.isEmpty || path.contains '\x00' || path.head? = some '/' || path.head? = some '\\' || path.contains ':' ||
    path.contains '%'

/-- The names that a path consists of, slashes of both kinds counted; nothing if it goes up. -/
def names? (path : Text) : Option (List Text) :=
  let parts := Text.split (fun c => c == '/' || c == '\\') path
  if parts.any goesUp then none else some (parts.filter fun part => !staysPut part)

namespace Tree

/-- A location with its names innermost first: the longest part of it that is found with all links followed, and the
rest of it as it is. Nothing if that part cannot be followed to something. -/
def settleReversed? (tree : Tree) : List Text → Option Location
  | [] => tree.real? []
  | name :: outer =>
    if tree.isOccupied outer.reverse name then tree.real? (name :: outer).reverse
    else (settleReversed? tree outer).map (· ++ [name])

/-- A location with the links followed on the part of it that is found. -/
def settle? (tree : Tree) (l : Location) : Option Location := tree.settleReversed? l.reverse

/-- The location of the base directory, as its path is written and with links followed. -/
def base? (tree : Tree) (base : Text) : Option Location := tree.settle? (lexical tree.current base)

/-- The location inside of the base directory to which a path leads; nothing if it may leave the directory. -/
def confine? (tree : Tree) (base path : Text) : Option Location := do
  if isSuspicious path then none
  let names ← names? path
  if names.isEmpty then none
  let root ← tree.base? base
  let place ← tree.settle? (root ++ names)
  if root.isPrefixOf place then some place else none

end Tree

end Stencil.Files
