import Stencil.Files.Tree
import Stencil.Number.Word
import Stencil.Text.Utf8

/-!
# Reading files

A file is read only up to one byte behind the limit, which is enough to see that it is too long.
-/

namespace Stencil.Files

namespace Tree

/-- The bytes of a file that are asked for in order to see whether it has at most so many. Counts are words, so behind
the greatest comes zero. -/
def requested (maxBytes : Nat) : Nat := (maxBytes + 1) % Word.size

/-- The first so many bytes at a path. A directory is found out only when there is something to be read from it. -/
def readBytes (tree : Tree) (path : Text) (count : Nat) : Except Fault.ReadFailure (List UInt8) :=
  match tree.locate path with
  | .error failure => .error failure
  | .ok (_, some (.file content)) => .ok (content.take count)
  | .ok (_, some _) => if count = 0 then .ok [] else .error .isDirectory
  | .ok (_, none) => .error .notFound

/-- The text of a file of at most so many bytes. -/
def readText (tree : Tree) (maxBytes : Nat) (path : Text) : Except Fault Text :=
  match tree.readBytes path (requested maxBytes) with
  | .error failure => .error (.context (.unreadableInclusion failure))
  | .ok bytes =>
    if maxBytes < bytes.length then .error (.exhausted .size)
    else match Text.ofUtf8? bytes with
      | some t => .ok t
      | none => .error (.context .undecodableInclusion)

end Tree

end Stencil.Files
