import Stencil.Text.Basic

/-!
# Places in a YAML document

What a document nests is told by columns, so a place in it is what lies ahead together with the line, the column and the
byte of the line that have been reached. This module knows blanks, line breaks and comments.
-/

namespace Stencil.Yaml

/-- A space or a tab. -/
def isBlank (c : Char) : Bool := c = ' ' || c = '\t'

/-- The characters that end a line. -/
def isBreak (c : Char) : Bool := c = '\n' || c = '\r' || c = '\x85' || c = '\u2028' || c = '\u2029'

/-- Whether a character may stand in a document. -/
def isPrintable (c : Char) : Bool :=
  let n := c.toNat
  c = '\t' || c = '\n' || c = '\r' || (0x20 ≤ n && n ≤ 0x7e) || n = 0x85 || (0xa0 ≤ n && n ≤ 0xfffd) || 0x10000 ≤ n

/-- The characters of the names of anchors, directives and handles. -/
def isNameChar (c : Char) : Bool := c.isAlphanum || c = '_' || c = '-'

/-- A document with every end of a line that is not special written as a line feed. -/
def withLineFeeds : Text → Text
  | '\r' :: '\n' :: rest => '\n' :: withLineFeeds rest
  | c :: rest => (if c = '\r' || c = '\x85' then '\n' else c) :: withLineFeeds rest
  | [] => []

/-- Whether a text is at its end, or begins with a break. -/
def endsLine : Text → Bool
  | [] => true
  | c :: _ => isBreak c

/-- Whether a text is at its end, or begins with a blank or a break. -/
def endsWord : Text → Bool
  | [] => true
  | c :: _ => isBlank c || isBreak c

/-- Where a character stands: its line, and how many characters and bytes stand in front of it there. -/
structure Place where
  line : Nat
  column : Nat
  offset : Nat
deriving DecidableEq, Repr

/-- The place behind a character. -/
def Place.after (p : Place) (c : Char) : Place :=
  if isBreak c then ⟨p.line + 1, 0, 0⟩ else ⟨p.line, p.column + 1, p.offset + c.utf8Size⟩

/-- A place in a document, and what lies ahead. -/
structure Cursor where
  place : Place
  rest : Text
deriving DecidableEq, Repr

namespace Cursor

/-- The beginning of a document. -/
def start (t : Text) : Cursor := ⟨⟨0, 0, 0⟩, t⟩

/-- The place so many characters further on. -/
def advance (c : Cursor) : Nat → Cursor
  | 0 => c
  | n + 1 =>
    match c.rest with
    | [] => c
    | d :: rest => advance ⟨c.place.after d, rest⟩ n

theorem rest_advance (c : Cursor) (n : Nat) : (c.advance n).rest = c.rest.drop n := by
  induction n generalizing c with
  | zero => rfl
  | succ n ih =>
    obtain ⟨place, rest⟩ := c
    cases rest with
    | nil => rfl
    | cons d rest => simpa [advance] using ih ⟨place.after d, rest⟩

/-- The characters of a class that lie ahead, put behind those found before, latest first; and the place behind
them. -/
def spanFrom (holds : Char → Bool) (found : Text) (p : Place) : Text → Text × Cursor
  | [] => (found.reverse, ⟨p, []⟩)
  | c :: rest =>
    if holds c then spanFrom holds (c :: found) (p.after c) rest else (found.reverse, ⟨p, c :: rest⟩)

/-- The characters of a class that lie ahead, and the place behind them. -/
def span (c : Cursor) (holds : Char → Bool) : Text × Cursor := spanFrom holds [] c.place c.rest

theorem spanFrom_append (holds : Char → Bool) (found : Text) (p : Place) (t : Text) :
    (spanFrom holds found p t).1 ++ (spanFrom holds found p t).2.rest = found.reverse ++ t := by
  induction t generalizing found p with
  | nil => rfl
  | cons c rest ih =>
    simp only [spanFrom]
    split
    · simp [ih]
    · rfl

/-- Nothing is lost between the characters of a class and the place behind them. -/
theorem span_append (c : Cursor) (holds : Char → Bool) : (c.span holds).1 ++ (c.span holds).2.rest = c.rest :=
  spanFrom_append holds [] c.place c.rest

/-- The place behind the blanks of the line. -/
def skipBlanks (c : Cursor) : Cursor := (c.span isBlank).2

/-- The place behind the blanks of the line and a comment; nothing if more stands on the line. -/
def skipLine? (c : Cursor) : Option Cursor :=
  let c := c.skipBlanks
  let stop := if c.rest.head? = some '#' then (c.span fun d => !isBreak d).2 else c
  if endsLine stop.rest then some (stop.advance 1) else none

/-- Whether a line with three points or three dashes begins here, which marks the bounds of a document. -/
def isMarker (c : Cursor) : Bool :=
  c.place.column = 0 && (c.rest.take 3 == ['-', '-', '-'] || c.rest.take 3 == ['.', '.', '.']) &&
    endsWord (c.rest.drop 3)

/-- The mark of the order of bytes, which may stand at the beginning of a line and takes a column there. -/
def byteOrderMark : Char := '\ufeff'

/-- Skips blanks, breaks and comments; says too whether a line has ended. Tabs may be forbidden, at the beginning of
lines always unless brackets are open. -/
def skipFrom (inBrackets : Bool) : Bool → Bool → Bool → Place → Text → Cursor × Bool
  | _, _, crossed, p, [] => (⟨p, []⟩, crossed)
  | tabs, comment, crossed, p, c :: rest =>
    if isBreak c then skipFrom inBrackets inBrackets false true (p.after c) rest
    else if comment then skipFrom inBrackets tabs true crossed (p.after c) rest
    else if c = ' ' || (c = '\t' && tabs) || (c = byteOrderMark && p.column = 0) then
      skipFrom inBrackets tabs false crossed (p.after c) rest
    else if c = '#' then skipFrom inBrackets tabs true crossed (p.after c) rest
    else (⟨p, c :: rest⟩, crossed)

/-- The next place where something stands, and whether it is on another line. -/
def skip (c : Cursor) (inBrackets tabs : Bool) : Cursor × Bool :=
  skipFrom inBrackets (inBrackets || tabs) false false c.place c.rest

end Cursor

end Stencil.Yaml
