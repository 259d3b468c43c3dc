import Stencil.Yaml.Scalar

/-!
# Text blocks

A scalar may also be written as a block of indented lines, which keep their breaks or are folded. Its header may say how
far the lines are indented, and whether the breaks behind the last line are kept.
-/

namespace Stencil.Yaml

/-- Which of the breaks behind the last line are kept: none, the first, or all. -/
inductive Ending where
  | strip
  | clip
  | keep
deriving DecidableEq, Repr

/-- The header of a text block: which breaks are kept at its end, and by how much it is indented, if that is said. -/
structure BlockHeader where
  ending : Ending
  indentation : Option Nat
deriving DecidableEq, Repr

/-- What an indicator says about the breaks at the end. -/
def Ending.ofIndicator? (c : Char) : Option Ending :=
  if c = '+' then some .keep else if c = '-' then some .strip else none

/-- The header that a text begins with, its two indicators in either order, and how many characters it has. No text is
indented by nothing. -/
def BlockHeader.read? : Text → Option (BlockHeader × Nat)
  | [] => some (⟨.clip, none⟩, 0)
  | c :: rest =>
    match Ending.ofIndicator? c, rest.head? with
    | some ending, some d =>
      if d = '0' then none
      else if d.isDigit then some (⟨ending, some (d.toNat - '0'.toNat)⟩, 2)
      else some (⟨ending, none⟩, 1)
    | some ending, none => some (⟨ending, none⟩, 1)
    | none, next =>
      if c = '0' then none
      else if c.isDigit then
        match next.bind Ending.ofIndicator? with
        | some ending => some (⟨ending, some (c.toNat - '0'.toNat)⟩, 2)
        | none => some (⟨.clip, some (c.toNat - '0'.toNat)⟩, 1)
      else some (⟨.clip, none⟩, 0)

/-- The empty lines in front of a text block whose indentation is not said: their breaks, latest first, the widest
indentation so far, and the place of the first line that is not empty. Tabs do not indent. -/
def emptyLines (breaks : Text) (widest : Nat) (p : Place) : Text → Option (Text × Nat × Cursor)
  | [] => some (breaks, max widest p.column, ⟨p, []⟩)
  | c :: rest =>
    if c = ' ' then emptyLines breaks widest (p.after c) rest
    else if c = '\t' then none
    else if isBreak c then emptyLines (c :: breaks) (max widest p.column) (p.after c) rest
    else some (breaks, max widest p.column, ⟨p, c :: rest⟩)

/-- A text block read in part: what has been found, latest character first, the break behind the last line, the breaks
of empty lines behind that, latest first, whether the last line begins with a blank, and whether a line is under way. -/
structure TextBlock where
  found : Text
  last : Option Char
  more : Text
  ledByBlank : Bool
  inLine : Bool
deriving DecidableEq, Repr

namespace TextBlock

/-- A text block in front of its first line, behind some empty ones. -/
def start (breaks : Text) : TextBlock := ⟨[], none, breaks, false, false⟩

/-- Begins a line with its first character. Between two lines that are folded, neither of them led by a blank, a single
break becomes a space and of several the first is dropped. -/
def beginLine (b : TextBlock) (isFolded : Bool) (c : Char) : TextBlock :=
  let joined :=
    if isFolded && b.last = some '\n' && !b.ledByBlank && !isBlank c then
      if b.more.isEmpty then ' ' :: b.found else b.more ++ b.found
    else b.more ++ b.last.toList ++ b.found
  ⟨c :: joined, none, [], isBlank c, true⟩

/-- Puts one more character behind a line, or ends it. -/
def continueLine (b : TextBlock) (c : Char) : TextBlock :=
  if isBreak c then { b with last := some c, more := [], inLine := false } else { b with found := c :: b.found }

/-- The text of a block that is complete. -/
def text (b : TextBlock) (ending : Ending) : Text :=
  (match ending with
    | .strip => b.found
    | .clip => b.last.toList ++ b.found
    | .keep => b.more ++ b.last.toList ++ b.found).reverse

end TextBlock

/-- A text block from the beginning of a line or inside of one up to the first line that is not indented far enough.
Tabs do not indent. -/
def textBlockFrom (isFolded : Bool) (indentation : Nat) (b : TextBlock) (p : Place) : Text → Option (TextBlock × Cursor)
  | [] => some (b, ⟨p, []⟩)
  | c :: rest =>
    if b.inLine then textBlockFrom isFolded indentation (b.continueLine c) (p.after c) rest
    else if p.column < indentation && c = ' ' then textBlockFrom isFolded indentation b (p.after c) rest
    else if p.column < indentation && c = '\t' then none
    else if isBreak c then textBlockFrom isFolded indentation { b with more := c :: b.more } (p.after c) rest
    else if p.column = indentation then
      textBlockFrom isFolded indentation (b.beginLine isFolded c) (p.after c) rest
    else some (b, ⟨p, c :: rest⟩)

/-- The text block at a place where lines have at least some column, and the place behind it. -/
def Cursor.textBlock? (c : Cursor) (isFolded : Bool) (least : Nat) : Option (Scalar × Cursor) := do
  let (header, length) ← BlockHeader.read? (c.rest.drop 1)
  let first ← (c.advance (1 + length)).skipLine?
  let (block, after) ←
    match header.indentation with
    | some n => textBlockFrom isFolded (least - 1 + n) (.start []) first.place first.rest
    | none => do
      let (breaks, widest, line) ← emptyLines [] 0 first.place first.rest
      textBlockFrom isFolded (max 1 (max least widest)) (.start breaks) line.place line.rest
  return (⟨if isFolded then .folded else .literal, block.text header.ending⟩, after)

end Stencil.Yaml
