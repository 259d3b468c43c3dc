import Stencil.Yaml.Property
import Stencil.Yaml.TextBlock

/-!
# Tokens of YAML documents

A document is cut into tokens from left to right. Blocks have no brackets, so their bounds are told by columns: a block
opens where something is indented further than the block around it, and closes where something is indented less. Whether
a node is a key shows only at the colon behind it, so every place where a key may begin is kept until then, and what
opens the key is put there afterwards.
-/

namespace Stencil.Yaml

/-- The parts of a document. Lists and mappings without brackets begin with `openList` and `openMapping` and end with
`close`. -/
inductive Token where
  | directive (directive : Directive)
  | documentStart
  | documentEnd
  | openList
  | openMapping
  | close
  | openBracket
  | closeBracket
  | openBrace
  | closeBrace
  | comma
  | dash
  | key
  | value
  | alias (name : Text)
  | anchor (name : Text)
  | tag (tag : ShortTag)
  | scalar (scalar : Scalar)
deriving DecidableEq, Repr

/-- A place where a key may begin: how many tokens stand in front of it, and whether nothing but a key may stand there,
because the keys of the block begin in its column. -/
structure Candidate where
  number : Nat
  place : Place
  isRequired : Bool
deriving DecidableEq, Repr

/-- The bytes that a key may have in writing. -/
def maxKey : Nat := 1024

/-- Whether nothing that begins at a candidate can be a key any more at a place: a key lies on one line and is not too
long. -/
def Candidate.isOver (c : Candidate) (p : Place) : Bool :=
  c.place.line < p.line || c.place.offset + maxKey < p.offset

/-- What has been made of the text in front of a place: the tokens, latest first, the columns of the open blocks and the
candidates of the brackets around, innermost first, the latest candidate, and whether a key may begin next. -/
structure Layout where
  tokens : List Token
  columns : List Nat
  candidate : Option Candidate
  outer : List (Option Candidate)
  keyMayBegin : Bool
deriving Repr

namespace Layout

/-- The layout of nothing. -/
def start : Layout := ⟨[], [], none, [], true⟩

/-- Whether brackets are open. -/
def inBrackets (l : Layout) : Bool := !l.outer.isEmpty

/-- The least column of what belongs to the innermost block. -/
def least (l : Layout) : Nat :=
  match l.columns with
  | [] => 0
  | column :: _ => column + 1

/-- Adds a token, and says whether a key may begin behind it. -/
def add (l : Layout) (t : Token) (keyMayBegin : Bool) : Layout :=
  { l with tokens := t :: l.tokens, keyMayBegin }

/-- Puts a token behind so many others. -/
def insert (l : Layout) (number : Nat) (t : Token) : Layout :=
  { l with tokens := l.tokens.insertIdx (l.tokens.length - number) t }

/-! ## Keys -/

/-- A candidate as long as it may be a key; nothing if it has to be one and cannot. -/
def keep? (p : Place) : Option Candidate → Option (Option Candidate)
  | none => some none
  | some c => if !c.isOver p then some (some c) else if c.isRequired then none else some none

/-- Drops the candidates that are over at a place. -/
def dropOver? (l : Layout) (p : Place) : Option Layout := do
  return { l with candidate := ← keep? p l.candidate, outer := ← l.outer.mapM (keep? p) }

/-- Drops the latest candidate, which must not have to be a key. -/
def dropCandidate? (l : Layout) : Option Layout :=
  if l.candidate.any Candidate.isRequired then none else some { l with candidate := none }

/-- Takes a place as candidate, if a key may begin there. -/
def offer? (l : Layout) (p : Place) : Option Layout :=
  if !l.keyMayBegin then some l
  else do
    let l ← l.dropCandidate?
    let isRequired := !l.inBrackets && l.columns.head? = some p.column
    return { l with candidate := some ⟨l.tokens.length, p, isRequired⟩ }

/-! ## Blocks -/

/-- Opens a block at a column behind so many tokens, unless one is open there already. Inside of brackets columns do not
count. -/
def openBlock (l : Layout) (column number : Nat) (t : Token) : Layout :=
  if !l.inBrackets && l.columns.head?.all (· < column) then
    { l.insert number t with columns := column :: l.columns }
  else l

/-- Closes blocks as long as a condition holds for their columns. -/
def closeWhile (l : Layout) (holds : Nat → Bool) : Layout :=
  if l.inBrackets then l
  else { l with
    tokens := (l.columns.takeWhile holds).map (fun _ => .close) ++ l.tokens
    columns := l.columns.dropWhile holds }

/-- Closes the blocks that something in a column does not belong to. -/
def closeTo (l : Layout) (column : Nat) : Layout := l.closeWhile (column < ·)

/-- Closes all blocks. -/
def closeAll (l : Layout) : Layout := l.closeWhile fun _ => true

/-! ## Indicators -/

/-- Takes an indicator that begins an entry of a list, or a key of more than one line. Outside of brackets it stands
where a key may begin and opens a block if there is none. -/
def takeEntry? (l : Layout) (p : Place) (opening entry : Token) (keyMayBegin : Bool) : Option Layout :=
  if !l.inBrackets && !l.keyMayBegin then none
  else do
    let l ← (l.openBlock p.column l.tokens.length opening).dropCandidate?
    return l.add entry keyMayBegin

/-- Takes a colon. What begins at the latest candidate is a key then; without one the colon stands where a key might. -/
def takeColon? (l : Layout) (p : Place) : Option Layout :=
  match l.candidate with
  | some c =>
    let l := (l.insert c.number .key).openBlock c.place.column c.number .openMapping
    some ({ l with candidate := none }.add .value false)
  | none =>
    if !l.inBrackets && !l.keyMayBegin then none
    else some ((l.openBlock p.column l.tokens.length .openMapping).add .value !l.inBrackets)

/-- Takes an opening bracket or brace, around which a key may begin. -/
def takeOpening? (l : Layout) (p : Place) (t : Token) : Option Layout := do
  let l ← l.offer? p
  return { l with outer := l.candidate :: l.outer, candidate := none }.add t true

/-- Takes a closing bracket or brace. -/
def takeClosing? (l : Layout) (t : Token) : Option Layout := do
  let l ← l.dropCandidate?
  match l.outer with
  | [] => return l.add t false
  | candidate :: outer => return { l with candidate, outer }.add t false

/-- Takes a mark of the bounds of a document. -/
def takeMarker? (l : Layout) (t : Token) : Option Layout := do return (← l.closeAll.dropCandidate?).add t false

/-- Takes the token that begins at a cursor, where something stands; gives the cursor behind it too. -/
def take? (l : Layout) (c : Cursor) : Option (Layout × Cursor) :=
  let inside := l.inBrackets
  if c.place.column = 0 && c.rest.head? = some '%' then do
    let (directive, after) ← c.directive?
    return (← l.takeMarker? (.directive directive), after)
  else if c.isMarker then do
    return (← l.takeMarker? (if c.rest.head? = some '-' then .documentStart else .documentEnd), c.advance 3)
  else
    match c.rest with
    | [] => none
    | mark :: rest =>
      let after := c.advance 1
      -- outside of brackets the marks of entries, keys and values are words of their own
      let stands := inside || endsWord rest
      if mark = '[' then return (← l.takeOpening? c.place .openBracket, after)
      else if mark = '\x7b' then return (← l.takeOpening? c.place .openBrace, after)
      else if mark = ']' then return (← l.takeClosing? .closeBracket, after)
      else if mark = '\x7d' then return (← l.takeClosing? .closeBrace, after)
      else if mark = ',' then do return ((← l.dropCandidate?).add .comma true, after)
      else if mark = '-' && endsWord rest then return (← l.takeEntry? c.place .openList .dash true, after)
      else if mark = '?' && stands then return (← l.takeEntry? c.place .openMapping .key !inside, after)
      else if mark = ':' && stands then return (← l.takeColon? c.place, after)
      else if mark = '*' || mark = '&' then do
        let (name, after) ← c.anchor?
        return ((← l.offer? c.place).add (if mark = '*' then .alias name else .anchor name) false, after)
      else if mark = '!' then do
        let (tag, after) ← c.tag? inside
        return ((← l.offer? c.place).add (.tag tag) false, after)
      else if (mark = '|' || mark = '>') && !inside then do
        let (scalar, after) ← c.textBlock? (mark = '>') l.least
        return ((← l.dropCandidate?).add (.scalar scalar) true, after)
      else if mark = '\'' || mark = '"' then do
        let (scalar, after) ← c.quoted?
        return ((← l.offer? c.place).add (.scalar scalar) false, after)
      else if beginsPlain inside c.rest then do
        let (scalar, after, crossed) ← c.plain? inside l.least
        return ((← l.offer? c.place).add (.scalar scalar) crossed, after)
      else none

/-- The tokens of what lies ahead, behind those that have been made. Each takes a character at least. -/
def tokens? : Nat → Layout → Cursor → Option (List Token)
  | 0, _, _ => none
  | fuel + 1, l, c => do
    -- tabs are blanks where no key may begin
    let (c, crossed) := c.skip l.inBrackets !l.keyMayBegin
    let l := { l with keyMayBegin := l.keyMayBegin || (crossed && !l.inBrackets) }
    let l := (← l.dropOver? c.place).closeTo c.place.column
    if c.rest.isEmpty then return (← l.closeAll.dropCandidate?).tokens.reverse
    else
      let (l, after) ← l.take? c
      tokens? fuel l after

end Layout

/-- The tokens of a document; nothing if a character is not allowed in one, or is out of place. -/
def Token.ofText? (t : Text) : Option (List Token) :=
  if t.all isPrintable then
    let text := withLineFeeds t
    Layout.start.tokens? (text.length + 1) (.start text)
  else none

end Stencil.Yaml
