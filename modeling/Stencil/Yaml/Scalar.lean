import Stencil.Yaml.Gap

/-!
# Scalars

A scalar is plain, or stands between single or double quotes. It may run over several lines, which are folded.
-/

namespace Stencil.Yaml

/-- How a scalar is written. -/
inductive Style where
  | plain
  | quoted
  | literal
  | folded
deriving DecidableEq, Repr

/-- A scalar as it is read: how it is written, and its text. -/
structure Scalar where
  style : Style
  text : Text
deriving DecidableEq, Repr

/-- The scalar that nothing writes. -/
def Scalar.empty : Scalar := ⟨.plain, []⟩

/-! ## Plain scalars -/

/-- The brackets and the comma, which end a plain scalar inside of brackets. -/
def isFlowIndicator (c : Char) : Bool := [',', '[', ']', '\x7b', '\x7d'].contains c

/-- The characters that mean something at the beginning of a word. -/
def isIndicator (c : Char) : Bool :=
  isFlowIndicator c ||
    ['-', '?', ':', '#', '&', '*', '!', '|', '>', '\'', '"', '%', '@', '\x60'].contains c

/-- Whether a plain scalar may begin with a text. -/
def beginsPlain (inBrackets : Bool) : Text → Bool
  | [] => false
  | c :: rest =>
    !(isBlank c || isBreak c) &&
      (!isIndicator c || (c = '-' && !endsWord rest) || (!inBrackets && (c = '?' || c = ':') && !endsWord rest))

/-- A plain scalar from inside of it: what has been found, latest character first, what stands behind that, and the
place that has been reached. It goes on in lines that are indented far enough, inside of brackets in all lines. Given
are its text, the place behind it and behind the blanks and breaks that follow it, and whether a line has ended there.
Nothing if a tab takes part in the indentation, or if a colon inside of brackets is followed by one of them. -/
def plainFrom (inBrackets : Bool) (least : Nat) (found : Text) (gap : Gap) (p : Place) :
    Text → Option (Text × Cursor × Bool)
  | [] => some (found.reverse, ⟨p, []⟩, gap.crossesLine)
  | c :: rest =>
    if c = '\t' && gap.crossesLine && p.column < least then none
    else if isBlank c then plainFrom inBrackets least found (gap.addBlank c) (p.after c) rest
    else if isBreak c then plainFrom inBrackets least found (gap.addBreak c) (p.after c) rest
    -- a comment, the end of the document, or a line that is not indented far enough
    else if (!gap.isNone && c = '#') || Cursor.isMarker ⟨p, c :: rest⟩ ||
        (gap.crossesLine && !inBrackets && p.column < least) then
      some (found.reverse, ⟨p, c :: rest⟩, gap.crossesLine)
    else if inBrackets && c = ':' && rest.head?.any (fun d => isFlowIndicator d || d = '?') then none
    else if (c = ':' && endsWord rest) || (inBrackets && isFlowIndicator c) then
      some (found.reverse, ⟨p, c :: rest⟩, gap.crossesLine)
    else plainFrom inBrackets least (c :: gap.fill found) .none (p.after c) rest

/-- The plain scalar at a place, the place behind it, and whether a line has ended there. -/
def Cursor.plain? (c : Cursor) (inBrackets : Bool) (least : Nat) : Option (Scalar × Cursor × Bool) :=
  (plainFrom inBrackets least [] .none c.place c.rest).map fun (t, after, crossed) => (⟨.plain, t⟩, after, crossed)

/-! ## Quoted scalars -/

/-- A scalar between single quotes from inside of it; two quotes stand for one. -/
def singleFrom (found : Text) (gap : Gap) (p : Place) : Text → Option (Text × Cursor)
  | [] => none
  | '\'' :: '\'' :: rest => singleFrom ('\'' :: gap.fill found) .none ((p.after '\'').after '\'') rest
  | '\'' :: rest => some ((gap.fill found).reverse, ⟨p.after '\'', rest⟩)
  | c :: rest =>
    if Cursor.isMarker ⟨p, c :: rest⟩ then none
    else if isBlank c then singleFrom found (gap.addBlank c) (p.after c) rest
    else if isBreak c then singleFrom found (gap.addBreak c) (p.after c) rest
    else singleFrom (c :: gap.fill found) .none (p.after c) rest

/-- The character that one character behind a backslash stands for. -/
def escaped? (c : Char) : Option Char :=
  match c with
  | '0' => some '\x00'
  | 'a' => some '\x07'
  | 'b' => some '\x08'
  | 't' => some '\t'
  | '\t' => some '\t'
  | 'n' => some '\n'
  | 'v' => some '\x0b'
  | 'f' => some '\x0c'
  | 'r' => some '\r'
  | 'e' => some '\x1b'
  | ' ' => some ' '
  | '"' => some '"'
  | '/' => some '/'
  | '\\' => some '\\'
  | 'N' => some '\x85'
  | '_' => some '\xa0'
  | 'L' => some '\u2028'
  | 'P' => some '\u2029'
  | _ => none

/-- The value of a hexadecimal digit. -/
def hexDigit? (c : Char) : Option Nat :=
  if c.isDigit then some (c.toNat - '0'.toNat)
  else if 'a' ≤ c && c ≤ 'f' then some (c.toNat - 'a'.toNat + 10)
  else if 'A' ≤ c && c ≤ 'F' then some (c.toNat - 'A'.toNat + 10)
  else none

/-- The number of hexadecimal digits. -/
def hexadecimal? (digits : List Char) : Option Nat :=
  digits.foldlM (fun n c => (hexDigit? c).map fun d => 16 * n + d) 0

/-- The character of a number in hexadecimal digits. -/
def codePoint? (digits : List Char) : Option Char := do
  let n ← hexadecimal? digits
  if n.isValidChar then some (Char.ofNat n) else none

/-- The place behind an escape: a backslash and some more characters on the same line. -/
def Place.afterEscape (p : Place) (characters : List Char) : Place := characters.foldl Place.after (p.after '\\')

/-- A scalar between double quotes from inside of it. -/
def doubleFrom (found : Text) (gap : Gap) (p : Place) : Text → Option (Text × Cursor)
  | [] => none
  | '"' :: rest => some ((gap.fill found).reverse, ⟨p.after '"', rest⟩)
  | '\\' :: 'x' :: a :: b :: rest =>
    match codePoint? [a, b] with
    | some c => doubleFrom (c :: gap.fill found) .none (p.afterEscape ['x', a, b]) rest
    | none => none
  | '\\' :: 'u' :: a :: b :: c :: d :: rest =>
    match codePoint? [a, b, c, d] with
    | some e => doubleFrom (e :: gap.fill found) .none (p.afterEscape ['u', a, b, c, d]) rest
    | none => none
  | '\\' :: 'U' :: a :: b :: c :: d :: e :: f :: g :: h :: rest =>
    match codePoint? [a, b, c, d, e, f, g, h] with
    | some i => doubleFrom (i :: gap.fill found) .none (p.afterEscape ['U', a, b, c, d, e, f, g, h]) rest
    | none => none
  | '\\' :: c :: rest =>
    if isBreak c then doubleFrom (gap.fill found) (.lines .none []) (p.after c) rest
    else match escaped? c with
      | some e => doubleFrom (e :: gap.fill found) .none (p.afterEscape [c]) rest
      | none => none
  | c :: rest =>
    if Cursor.isMarker ⟨p, c :: rest⟩ then none
    else if isBlank c then doubleFrom found (gap.addBlank c) (p.after c) rest
    else if isBreak c then doubleFrom found (gap.addBreak c) (p.after c) rest
    else doubleFrom (c :: gap.fill found) .none (p.after c) rest

/-- The quoted scalar at a place, and the place behind it. -/
def Cursor.quoted? (c : Cursor) : Option (Scalar × Cursor) :=
  match c.rest with
  | '\'' :: rest => (singleFrom [] .none (c.place.after '\'') rest).map fun (t, after) => (⟨.quoted, t⟩, after)
  | '"' :: rest => (doubleFrom [] .none (c.place.after '"') rest).map fun (t, after) => (⟨.quoted, t⟩, after)
  | _ => none

end Stencil.Yaml
