import Stencil.Json.Numeral

/-!
# JSON documents

A document is JSON text as it was written: members in their order, repeated keys kept. A number out of range, and a
string with an escape that names no character, are part of a document too, but stand for no value. Text is read in
two steps, first into tokens and then into a document.

Main statement: reading a string leaves a shorter text (`length_lt_of_readPieces`), so that reading comes to an end.
-/

namespace Stencil.Json

/-- JSON text with its structure found out. -/
inductive Document where
  | null
  | bool (value : Bool)
  | number (value : Option Number)
  | string (text : Option Text)
  | array (items : List Document)
  | object (members : List (Option Text × Document))
deriving Inhabited

/-! ## Strings -/

/-- A character of a string, or the sixteen bits that an escape gives in hexadecimal digits. -/
inductive Piece where
  | char (c : Char)
  | unit (bits : Nat)

/-- The value of a hexadecimal digit. -/
def hexDigit? (c : Char) : Option Nat :=
  if c.isDigit then some (c.toNat - '0'.toNat)
  else if 'a' ≤ c ∧ c ≤ 'f' then some (c.toNat - 'a'.toNat + 10)
  else if 'A' ≤ c ∧ c ≤ 'F' then some (c.toNat - 'A'.toNat + 10)
  else none

/-- Four hexadecimal digits. -/
def hexUnit? (a b c d : Char) : Option Nat := do
  return (((← hexDigit? a) * 16 + (← hexDigit? b)) * 16 + (← hexDigit? c)) * 16 + (← hexDigit? d)

/-- The character that a letter behind a backslash stands for. -/
def escaped? : Char → Option Char
  | '"' => some '"'
  | '\\' => some '\\'
  | '/' => some '/'
  | 'b' => some '\x08'
  | 'f' => some '\x0c'
  | 'n' => some '\n'
  | 'r' => some '\r'
  | 't' => some '\t'
  | _ => none

/-- The pieces of a string up to its closing quote, and the text behind that quote. -/
def readPieces : Text → Option (List Piece × Text)
  | '"' :: rest => some ([], rest)
  | '\\' :: 'u' :: a :: b :: c :: d :: rest =>
    match hexUnit? a b c d, readPieces rest with
    | some bits, some (pieces, behind) => some (.unit bits :: pieces, behind)
    | _, _ => none
  | '\\' :: letter :: rest =>
    match escaped? letter, readPieces rest with
    | some c, some (pieces, behind) => some (.char c :: pieces, behind)
    | _, _ => none
  | c :: rest =>
    if c.toNat < 0x20 then none
    else
      match readPieces rest with
      | some (pieces, behind) => some (.char c :: pieces, behind)
      | none => none
  | [] => none

/-- What is behind a string is shorter than the string and it. -/
theorem length_lt_of_readPieces {t : Text} {pieces : List Piece} {behind : Text}
    (h : readPieces t = some (pieces, behind)) : behind.length < t.length := by
  fun_induction readPieces t generalizing pieces behind with
  | case1 rest => simp_all
  | case2 a b c d rest bits pieces' behind' hrest _ ih =>
    obtain ⟨-, rfl⟩ := Prod.mk.inj (Option.some.inj h)
    have := ih hrest
    simp only [List.length_cons]
    omega
  | case4 letter rest _ c pieces' behind' hrest _ ih =>
    obtain ⟨-, rfl⟩ := Prod.mk.inj (Option.some.inj h)
    have := ih hrest
    simp only [List.length_cons]
    omega
  | case7 c rest _ _ _ _ pieces' behind' hrest ih =>
    obtain ⟨-, rfl⟩ := Prod.mk.inj (Option.some.inj h)
    have := ih hrest
    simp only [List.length_cons]
    omega
  | _ => simp_all

/-- The character of two surrogates. -/
def surrogatePair (high low : Nat) : Char := Char.ofNat (0x10000 + (high - 0xd800) * 0x400 + (low - 0xdc00))

/-- The text of a list of pieces; nothing if a surrogate stands without its other half. -/
def textOfPieces? : List Piece → Option Text
  | [] => some []
  | .char c :: rest => (textOfPieces? rest).map (c :: ·)
  | .unit bits :: rest =>
    if 0xdc00 ≤ bits ∧ bits < 0xe000 then none
    -- a high surrogate needs the low one that follows it at once
    else if 0xd800 ≤ bits ∧ bits < 0xdc00 then
      match rest with
      | .unit low :: rest =>
        if 0xdc00 ≤ low ∧ low < 0xe000 then (textOfPieces? rest).map (surrogatePair bits low :: ·) else none
      | _ => none
    else (textOfPieces? rest).map (Char.ofNat bits :: ·)

/-! ## Tokens -/

/-- A token of JSON text. -/
inductive Token where
  | beginArray
  | endArray
  | beginObject
  | endObject
  | comma
  | colon
  | string (text : Option Text)
  | scalar (document : Document)

/-- The mark that a character is. -/
def mark? : Char → Option Token
  | '[' => some .beginArray
  | ']' => some .endArray
  | '{' => some .beginObject
  | '}' => some .endObject
  | ',' => some .comma
  | ':' => some .colon
  | _ => none

/-- The four blanks that may stand between tokens. -/
def isSpace (c : Char) : Bool := c == ' ' || c == '\t' || c == '\n' || c == '\r'

/-- The characters of numbers and of the three names. -/
def isScalarChar (c : Char) : Bool := c.isAlphanum || c == '-' || c == '+' || c == '.'

/-- The document of a name or a number. -/
def scalar? (word : Text) : Option Document :=
  if word = "null" then some .null
  else if word = "true" then some (.bool true)
  else if word = "false" then some (.bool false)
  else (Numeral.read? word).map fun n => .number n.value?

theorem length_dropWhile_le (p : Char → Bool) (t : Text) : (t.dropWhile p).length ≤ t.length :=
  (List.dropWhile_sublist p).length_le

/-- The tokens of a text. -/
def tokens? : Text → Option (List Token)
  | [] => some []
  | c :: rest =>
    if isSpace c then tokens? rest
    else if c == '"' then
      match h : readPieces rest with
      | none => none
      | some (pieces, behind) =>
        have := length_lt_of_readPieces h
        (tokens? behind).map (.string (textOfPieces? pieces) :: ·)
    else
      match mark? c with
      | some mark => (tokens? rest).map (mark :: ·)
      | none =>
        have := length_dropWhile_le isScalarChar rest
        match scalar? (c :: rest.takeWhile isScalarChar) with
        | none => none
        | some document => (tokens? (rest.dropWhile isScalarChar)).map (.scalar document :: ·)
termination_by t => t.length
decreasing_by all_goals simp_all <;> omega

/-! ## Structure -/

/-- An array or object that has been opened and not closed, with what it holds so far, latest first. -/
inductive Frame where
  | array (done : List Document)
  | object (done : List (Option Text × Document))
  | member (done : List (Option Text × Document)) (key : Option Text)

/-- What has been read of a document, and what has to come. -/
inductive Reading where
  | value (frames : List Frame)
  | firstItem (outer : List Frame)
  | firstKey (outer : List Frame)
  | nextKey (done : List (Option Text × Document)) (outer : List Frame)
  | colon (done : List (Option Text × Document)) (key : Option Text) (outer : List Frame)
  | separator (frames : List Frame)
  | finished (document : Document)

/-- Puts a finished document into the innermost open one. -/
def Reading.put (document : Document) : List Frame → Reading
  | [] => .finished document
  | .array done :: outer => .separator (.array (document :: done) :: outer)
  | .member done key :: outer => .separator (.object ((key, document) :: done) :: outer)
  | .object done :: outer => .separator (.object done :: outer)

/-- Takes a token where a value has to come. -/
def Reading.takeValue (frames : List Frame) : Token → Option Reading
  | .beginArray => some (.firstItem frames)
  | .beginObject => some (.firstKey frames)
  | .string text => some (.put (.string text) frames)
  | .scalar document => some (.put document frames)
  | _ => none

/-- Takes the next token. -/
def Reading.step : Reading → Token → Option Reading
  | .value frames, token => Reading.takeValue frames token
  | .firstItem outer, .endArray => some (.put (.array []) outer)
  | .firstItem outer, token => Reading.takeValue (.array [] :: outer) token
  | .firstKey outer, .endObject => some (.put (.object []) outer)
  | .firstKey outer, .string key => some (.colon [] key outer)
  | .nextKey done outer, .string key => some (.colon done key outer)
  | .colon done key outer, .colon => some (.value (.member done key :: outer))
  | .separator (.array done :: outer), .comma => some (.value (.array done :: outer))
  | .separator (.array done :: outer), .endArray => some (.put (.array done.reverse) outer)
  | .separator (.object done :: outer), .comma => some (.nextKey done outer)
  | .separator (.object done :: outer), .endObject => some (.put (.object done.reverse) outer)
  | _, _ => none

namespace Document

/-- The document of a list of tokens, all of which belong to it. -/
def ofTokens? (tokens : List Token) : Option Document :=
  match tokens.foldlM Reading.step (.value []) with
  | some (.finished document) => some document
  | _ => none

/-- The document that a text is. -/
def read? (t : Text) : Option Document := (tokens? t).bind ofTokens?

/-- How many arrays and objects lie around the innermost part of a document. -/
def depth : Document → Nat
  | .array items => 1 + depthItems items
  | .object members => 1 + depthMembers members
  | _ => 0
where
  /-- The greatest depth among the items of an array. -/
  depthItems : List Document → Nat
    | [] => 0
    | item :: rest => max item.depth (depthItems rest)
  /-- The greatest depth among the members of an object. -/
  depthMembers : List (Option Text × Document) → Nat
    | [] => 0
    | (_, document) :: rest => max document.depth (depthMembers rest)

/-- The greatest depth of a document that is read as a value. -/
def maxDepth : Nat := 127

/-! ## Documents and values -/

/-- The value of a document. Of a repeated key the last value counts. -/
def toValue? : Document → Option Value
  | .null => some .null
  | .bool b => some (.bool b)
  | .number n => n.map .number
  | .string t => t.map .string
  | .array items => (toValues? items).map .array
  | .object members => (toMembers? members).map fun entries => .object (Table.ofEntries entries)
where
  /-- The values of the items of an array. -/
  toValues? : List Document → Option (List Value)
    | [] => some []
    | item :: rest => do
      let value ← item.toValue?
      let values ← toValues? rest
      return value :: values
  /-- The entries of an object, in the order in which they were written. -/
  toMembers? : List (Option Text × Document) → Option (List (Text × Value))
    | [] => some []
    | (key, document) :: rest => do
      let key ← key
      let value ← document.toValue?
      let entries ← toMembers? rest
      return (key, value) :: entries

/-- The document of a value. -/
def ofValue : Value → Document
  | .null => .null
  | .bool b => .bool b
  | .number n => .number (some n)
  | .string t => .string (some t)
  | .array items => .array (ofValues items)
  | .object members => .object (ofMembers members)
where
  /-- The documents of the items of an array. -/
  ofValues : List Value → List Document
    | [] => []
    | item :: rest => ofValue item :: ofValues rest
  /-- The documents of the members of an object. -/
  ofMembers : List (Text × Value) → List (Option Text × Document)
    | [] => []
    | (key, value) :: rest => (some key, ofValue value) :: ofMembers rest

end Document

/-- The value that a text is; nothing if it is nested too deeply. -/
def Value.read? (t : Text) : Option Value := do
  let document ← Document.read? t
  if document.depth ≤ Document.maxDepth then document.toValue? else none

end Stencil.Json
