import Stencil.Text.Basic
import Stencil.Text.Printable

/-!
# Quoted texts

How a text of unknown content is shown in a message or in the text form of a condition: characters that do not show
are written as escapes, so that the text stays on one line and says what it holds.
-/

namespace Stencil.Text

/-- A character as its code point: a backslash, the letter u and the hexadecimal digits in braces. -/
def codePoint (c : Char) : Text := ['\\', 'u', '{'] ++ Nat.toDigits 16 c.toNat ++ ['}']

/-- A character as it stands in quoted text. The characters of `marks` take a backslash; a character that does not
show, and one that extends its neighbour if `extendingToo`, is written as its code point. -/
def escapeChar (marks : List Char) (extendingToo : Bool) (c : Char) : Text :=
  if c == '\x00' then ['\\', '0']
  else if c == '\t' then ['\\', 't']
  else if c == '\r' then ['\\', 'r']
  else if c == '\n' then ['\\', 'n']
  else if c == '\\' || marks.contains c then ['\\', c]
  else if (extendingToo && isExtending c) || !isPrintable c then codePoint c
  else [c]

/-- A text between double quotes, every character that could be mistaken escaped. -/
def quoted (t : Text) : Text := '"' :: t.flatMap (escapeChar ['"'] true) ++ ['"']

/-- A text without quotes around it, both kinds of quotes escaped inside. Only at its beginning can a character that
extends its neighbour be mistaken, so only there it is escaped. -/
def escaped : Text → Text
  | [] => []
  | c :: rest => escapeChar ['"', '\''] true c ++ rest.flatMap (escapeChar ['"', '\''] false)

end Stencil.Text
