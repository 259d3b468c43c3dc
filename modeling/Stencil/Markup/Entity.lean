import Stencil.Pattern.Build
import Stencil.Pattern.Parts

/-!
# Entities

An entity writes a character by its number or its name. Reading an attribute decodes the entities in it once; an
entity of a number that no character has is dropped.
-/

namespace Stencil.Markup

open Pattern

/-- An entity: a hexadecimal number, a decimal number, or one of ten names. The semicolon may be missing behind a
number. -/
def entity : Pattern :=
  oneOfThese [
    word "&#x" ++ .group 1 (.repetition false isHexDigit 1 (some 6)) ++ atMostOne (· == ';'),
    literal "&#" ++ .group 2 (.repetition false Char.isDigit 1 (some 7)) ++ atMostOne (· == ';'),
    exactly '&' ++
      .group 3 (oneOfWords ["colon", "tab", "newline", "lpar", "rpar", "amp", "lt", "gt", "quot", "apos"]) ++
      exactly ';']

/-- The value of a hexadecimal digit. -/
def hexValue (c : Char) : Nat :=
  if c.isDigit then c.toNat - '0'.toNat else c.toLower.toNat - 'a'.toNat + 10

/-- The number that hexadecimal digits write. -/
def hexDigitsValue (digits : Text) : Nat := digits.foldl (fun n d => n * 16 + hexValue d) 0

/-- The character of a number, if there is one. -/
def charOfNumber (n : Nat) : Text := if n.isValidChar then [Char.ofNat n] else []

/-- The character of a name, in letters of either case. -/
def charOfName (name : Text) : Text :=
  let name := Text.toLower name
  if name = "colon" then [':']
  else if name = "tab" then ['\t']
  else if name = "newline" then ['\n']
  else if name = "lpar" then ['(']
  else if name = "rpar" then [')']
  else if name = "amp" then ['&']
  else if name = "lt" then ['<']
  else if name = "gt" then ['>']
  else if name = "quot" then ['"']
  else if name = "apos" then ['\'']
  else []

/-- The character that an entity writes, as a text; no text if it writes none. -/
def decodeEntity (m : Match) : Text :=
  match m.group? 1, m.group? 2 with
  | some digits, _ => charOfNumber (hexDigitsValue digits)
  | none, some digits => charOfNumber (Text.digitsValue digits)
  | none, none => charOfName (m.group 3)

/-- A text with its entities decoded once. -/
def decodeEntities (t : Text) : Text := entity.replaceAll decodeEntity t

end Stencil.Markup
