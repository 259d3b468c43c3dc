import Stencil.Text.Utf8
import Stencil.Yaml.Scalar

/-!
# Properties of nodes

A node may carry an anchor, by which aliases refer to it, and a tag, which tells what it is. Tags are written in short
by handles; directives in front of a document say what handles stand for.
-/

namespace Stencil.Yaml

/-- What a directive says: the version of a document, or what a handle stands for. -/
inductive Directive where
  | version (major minor : Nat)
  | handle (name : Text) (meaning : List UInt8)
deriving DecidableEq, Repr

/-- A tag as it is written: a handle, and the bytes behind it. -/
structure ShortTag where
  handle : Text
  rest : List UInt8
deriving DecidableEq, Repr

/-- The name behind the mark of an anchor or of an alias, and the place behind it. -/
def Cursor.anchor? (c : Cursor) : Option (Text × Cursor) :=
  let (name, after) := (c.advance 1).span isNameChar
  let isEnded := endsWord after.rest ||
    after.rest.head?.any fun d => ['?', ':', ',', ']', '\x7d', '%', '@', '\x60'].contains d
  if name.isEmpty || !isEnded then none else some (name, after)

/-! ## Tags -/

/-- The characters that may stand in a tag; brackets and commas may only between angle brackets. -/
def isTagChar (inAngles : Bool) (c : Char) : Bool :=
  isNameChar c || [';', '/', '?', ':', '@', '&', '=', '+', '$', '.', '!', '~', '*', '\'', '(', ')'].contains c ||
    (inAngles && [',', '[', ']'].contains c)

/-- How many bytes follow the first byte of a character in UTF-8. -/
def followers? (lead : UInt8) : Option Nat :=
  if lead < 0x80 then some 0
  else if lead &&& 0xe0 = 0xc0 then some 1
  else if lead &&& 0xf0 = 0xe0 then some 2
  else if lead &&& 0xf8 = 0xf0 then some 3
  else none

/-- The bytes of a tag, put behind those found before, latest first. A byte may be written as a percent sign and two
digits; so many of these still have to follow one that begins a character. -/
def tagFrom (inAngles : Bool) (found : List UInt8) (owed : Nat) (p : Place) : Text → Option (List UInt8 × Cursor)
  | '%' :: a :: b :: rest => do
    let byte := UInt8.ofNat (← hexadecimal? [a, b])
    let owed ← match owed with
      | 0 => followers? byte
      | n + 1 => if byte &&& 0xc0 = 0x80 then some n else none
    tagFrom inAngles (byte :: found) owed (((p.after '%').after a).after b) rest
  | c :: rest =>
    if owed ≠ 0 || c = '%' then none
    else if isTagChar inAngles c then tagFrom inAngles (UInt8.ofNat c.toNat :: found) 0 (p.after c) rest
    else some (found.reverse, ⟨p, c :: rest⟩)
  | [] => if owed = 0 then some (found.reverse, ⟨p, []⟩) else none

/-- The bytes of a tag at a place. -/
def Cursor.tagBytes? (c : Cursor) (inAngles : Bool) : Option (List UInt8 × Cursor) :=
  tagFrom inAngles [] 0 c.place c.rest

/-- An exclamation mark, the characters of a name behind it, and one more exclamation mark if there is one. -/
def Cursor.handle? (c : Cursor) : Option (Text × Cursor) :=
  if c.rest.head? = some '!' then
    let (name, after) := (c.advance 1).span isNameChar
    if after.rest.head? = some '!' then some ('!' :: name ++ ['!'], after.advance 1) else some ('!' :: name, after)
  else none

/-- Whether a text is a handle with a mark at each end. -/
def isNamedHandle (t : Text) : Bool := 2 ≤ t.length && t.getLast? = some '!'

/-- The tag at a place, and the place behind it. -/
def Cursor.tag? (c : Cursor) (inBrackets : Bool) : Option (ShortTag × Cursor) := do
  let (tag, after) ←
    if (c.rest.drop 1).head? = some '<' then do
      let (bytes, stop) ← (c.advance 2).tagBytes? true
      if bytes.isEmpty || stop.rest.head? ≠ some '>' then none else some (⟨[], bytes⟩, stop.advance 1)
    else do
      let (handle, behind) ← c.handle?
      let (bytes, stop) ← behind.tagBytes? false
      if isNamedHandle handle then
        if bytes.isEmpty then none else some (⟨handle, bytes⟩, stop)
      else
        -- no handle but the beginning of a tag; the mark alone is a tag of its own
        let rest := Text.utf8 (handle.drop 1) ++ bytes
        some (if rest.isEmpty then ⟨[], Text.utf8 ['!']⟩ else ⟨['!'], rest⟩, stop)
  if endsWord after.rest || (inBrackets && after.rest.head? = some ',') then some (tag, after) else none

/-! ## Directives -/

/-- A number of at most nine digits, and the place behind it. -/
def Cursor.number? (c : Cursor) : Option (Nat × Cursor) :=
  let (digits, after) := c.span Char.isDigit
  if digits.isEmpty || 9 < digits.length then none else some (Text.digitsValue digits, after)

/-- What stands behind the name of a directive. -/
def Cursor.argument? (c : Cursor) (name : Text) : Option (Directive × Cursor) :=
  if name = "YAML".toList then do
    let (major, point) ← c.number?
    if point.rest.head? ≠ some '.' then none
    let (minor, after) ← (point.advance 1).number?
    return (.version major minor, after)
  else if name = "TAG".toList then do
    let (handle, behind) ← c.handle?
    if !(handle = ['!'] || isNamedHandle handle) || !behind.rest.head?.any isBlank then none
    let (bytes, after) ← behind.skipBlanks.tagBytes? true
    if bytes.isEmpty || !endsWord after.rest then none
    return (.handle handle bytes, after)
  else none

/-- The directive at a place, and the place behind its line. -/
def Cursor.directive? (c : Cursor) : Option (Directive × Cursor) := do
  let (name, behind) := (c.advance 1).span isNameChar
  if !endsWord behind.rest then none
  let (directive, after) ← behind.skipBlanks.argument? name
  return (directive, ← after.skipLine?)

end Stencil.Yaml
