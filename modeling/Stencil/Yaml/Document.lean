import Stencil.Table
import Stencil.Yaml.Token

/-!
# YAML documents

A document is a node with the nodes inside of it. Nodes with an anchor can be referred to by aliases; they are kept by
numbers, so that an alias stays a reference.
-/

namespace Stencil.Yaml

/-- A tag in full, as the bytes of its text. -/
abbrev Tag := List UInt8

/-- What a document consists of. -/
inductive Node where
  | scalar (tag : Option Tag) (scalar : Scalar)
  | sequence (items : List Node)
  | mapping (entries : List (Node × Node))
  | alias (number : Nat)
deriving Repr

/-- What stands where nothing is written. -/
def Node.empty : Node := scalar none .empty

/-- A node, and the nodes that the aliases in it refer to. -/
structure Document where
  root : Node
  anchored : Table Nat Node
deriving Repr

/-! ## From tokens to nodes -/

/-- A document read in part: the tokens that lie ahead, the numbers of the anchors, and the nodes of the numbers. -/
structure Reading where
  tokens : List Token
  numbers : Table Text Nat
  anchored : Table Nat Node

namespace Reading

/-- The reading behind so many tokens. -/
def drop (r : Reading) (n : Nat) : Reading := { r with tokens := r.tokens.drop n }

/-- Whether a token of some kind comes next. -/
def nextIs (r : Reading) (holds : Token → Bool) : Bool := r.tokens.head?.any holds

/-- Gives an anchor a number. -/
def number (r : Reading) (anchor : Option Text) : Option Nat × Reading :=
  match anchor with
  | none => (none, r)
  | some name => (some r.numbers.length, { r with numbers := Table.set r.numbers name r.numbers.length })

/-- Keeps a node by its number. -/
def keep (r : Reading) (number : Option Nat) (node : Node) : Reading :=
  match number with
  | none => r
  | some n => { r with anchored := Table.set r.anchored n node }

end Reading

/-- What handles stand for. -/
abbrev Handles := Table Text Tag

/-- The handles that need no directive. -/
def Handles.standard : Handles := [(['!'], Text.utf8 ['!']), (['!', '!'], Text.utf8 "tag:yaml.org,2002:")]

/-- A tag in full. -/
def ShortTag.expand? (handles : Handles) (t : ShortTag) : Option Tag :=
  if t.handle.isEmpty then some t.rest else (Table.get? handles t.handle).map (· ++ t.rest)

/-- The anchor and the tag that come next, in either order. -/
def Reading.properties (r : Reading) : Option Text × Option ShortTag × Reading :=
  match r.tokens with
  | .anchor name :: .tag tag :: _ => (some name, some tag, r.drop 2)
  | .tag tag :: .anchor name :: _ => (some name, some tag, r.drop 2)
  | .anchor name :: _ => (some name, none, r.drop 1)
  | .tag tag :: _ => (none, some tag, r.drop 1)
  | _ => (none, none, r)

mutual

/-- The node that comes next. Inside of brackets there are no blocks; a list may stand without a block of its own where
a key or a value is expected. -/
def Node.read? (handles : Handles) : Nat → Bool → Bool → Reading → Option (Node × Reading)
  | 0, _, _, _ => none
  | fuel + 1, mayBlock, mayDash, r =>
    match r.tokens with
    | .alias name :: _ => do return (.alias (← Table.get? r.numbers name), r.drop 1)
    | _ => do
      let (anchor, short, r) := r.properties
      let tag ← match short with
        | none => pure none
        | some t => (t.expand? handles).map some
      let (number, r) := r.number anchor
      -- an anchor or a tag alone stands for an empty scalar
      let bare := if anchor.isSome || tag.isSome then some (Node.scalar tag .empty, r) else none
      let (node, r) ← match r.tokens with
        | .scalar s :: _ =>
          -- a lone exclamation mark is no tag for a scalar
          pure (.scalar (tag.filter (· ≠ Text.utf8 ['!'])) s, r.drop 1)
        | .openBracket :: _ => do
          let (items, r) ← bracketed? handles fuel true (r.drop 1)
          pure (.sequence items, r)
        | .openBrace :: _ => do
          let (entries, r) ← braced? handles fuel true (r.drop 1)
          pure (.mapping entries, r)
        | .openList :: _ => do
          if !mayBlock then none
          let (items, r) ← items? handles fuel (r.drop 1)
          pure (.sequence items, r)
        | .openMapping :: _ => do
          if !mayBlock then none
          let (entries, r) ← entries? handles fuel (r.drop 1)
          pure (.mapping entries, r)
        | .dash :: _ =>
          if mayDash then do
            let (items, r) ← dashed? handles fuel r
            pure (.sequence items, r)
          else bare
        | _ => bare
      return (node, r.keep number node)

/-- A node, or nothing in writing if a token of some kind comes next. -/
def Node.readUnless? (handles : Handles) : Nat → (Token → Bool) → Bool → Bool → Reading → Option (Node × Reading)
  | 0, _, _, _, _ => none
  | fuel + 1, ends, mayBlock, mayDash, r =>
    if r.nextIs ends then some (.empty, r) else Node.read? handles fuel mayBlock mayDash r

/-- The items of a list in a block of its own, up to the end of the block. -/
def items? (handles : Handles) : Nat → Reading → Option (List Node × Reading)
  | 0, _ => none
  | fuel + 1, r =>
    match r.tokens with
    | .close :: _ => some ([], r.drop 1)
    | .dash :: _ => do
      let (item, r) ← Node.readUnless? handles fuel (fun t => t = .dash || t = .close) true false (r.drop 1)
      let (later, r) ← items? handles fuel r
      return (item :: later, r)
    | _ => none

/-- The items of a list without a block of its own. -/
def dashed? (handles : Handles) : Nat → Reading → Option (List Node × Reading)
  | 0, _ => none
  | fuel + 1, r =>
    match r.tokens with
    | .dash :: _ => do
      let (item, r) ← Node.readUnless? handles fuel
        (fun t => t = .dash || t = .key || t = .value || t = .close) true false (r.drop 1)
      let (later, r) ← dashed? handles fuel r
      return (item :: later, r)
    | _ => some ([], r)

/-- The entries of a mapping in a block, up to the end of the block. -/
def entries? (handles : Handles) : Nat → Reading → Option (List (Node × Node) × Reading)
  | 0, _ => none
  | fuel + 1, r =>
    match r.tokens with
    | .close :: _ => some ([], r.drop 1)
    | .key :: _ => do
      let ends := fun t => t = .key || t = .value || t = .close
      let (key, r) ← Node.readUnless? handles fuel ends true true (r.drop 1)
      let (value, r) ←
        if r.nextIs (· = .value) then Node.readUnless? handles fuel ends true true (r.drop 1) else some (.empty, r)
      let (later, r) ← entries? handles fuel r
      return ((key, value) :: later, r)
    | _ => none

/-- An entry between brackets or braces behind the mark of its key. -/
def pair? (handles : Handles) : Nat → (Token → Bool) → Reading → Option ((Node × Node) × Reading)
  | 0, _, _ => none
  | fuel + 1, ends, r => do
    let (key, r) ← Node.readUnless? handles fuel (fun t => t = .value || ends t) false false r
    let (value, r) ←
      if r.nextIs (· = .value) then Node.readUnless? handles fuel ends false false (r.drop 1) else some (.empty, r)
    return ((key, value), r)

/-- The items of a list up to its bracket. An item may be a mapping of one entry. -/
def bracketed? (handles : Handles) : Nat → Bool → Reading → Option (List Node × Reading)
  | 0, _, _ => none
  | fuel + 1, isFirst, r => do
    if r.nextIs (· = .closeBracket) then return ([], r.drop 1)
    if !isFirst && !r.nextIs (· = .comma) then none
    let r := if isFirst then r else r.drop 1
    if r.nextIs (· = .closeBracket) then return ([], r.drop 1)
    let (item, r) ←
      if r.nextIs (· = .key) then do
        let (entry, r) ← pair? handles fuel (fun t => t = .comma || t = .closeBracket) (r.drop 1)
        pure (.mapping [entry], r)
      else Node.read? handles fuel false false r
    let (later, r) ← bracketed? handles fuel false r
    return (item :: later, r)

/-- The entries of a mapping up to its brace. A key may stand alone. -/
def braced? (handles : Handles) : Nat → Bool → Reading → Option (List (Node × Node) × Reading)
  | 0, _, _ => none
  | fuel + 1, isFirst, r => do
    if r.nextIs (· = .closeBrace) then return ([], r.drop 1)
    if !isFirst && !r.nextIs (· = .comma) then none
    let r := if isFirst then r else r.drop 1
    if r.nextIs (· = .closeBrace) then return ([], r.drop 1)
    let (entry, r) ←
      if r.nextIs (· = .key) then pair? handles fuel (fun t => t = .comma || t = .closeBrace) (r.drop 1)
      else do
        let (key, r) ← Node.read? handles fuel false false r
        pure ((key, Node.empty), r)
    let (later, r) ← braced? handles fuel false r
    return (entry :: later, r)

end

/-! ## From tokens to documents -/

/-- The handles that the directives in front of a document give, and the tokens behind these. There is at most one
version, which has to be known, and no handle is given twice. -/
def Handles.read? (hasVersion : Bool) (found : Handles) : List Token → Option (Handles × List Token)
  | .directive (.version major minor) :: rest =>
    if hasVersion || major ≠ 1 || (minor ≠ 1 && minor ≠ 2) then none else Handles.read? true found rest
  | .directive (.handle name meaning) :: rest =>
    if (Table.get? found name).isSome then none else Handles.read? hasVersion (found ++ [(name, meaning)]) rest
  | tokens => some (found, tokens)

namespace Document

/-- Whether a token stands outside of documents. -/
def isOutside : Token → Bool
  | .directive _ | .documentStart | .documentEnd => true
  | _ => false

/-- The only document of tokens; nothing if there is none, or more than one. Behind directives the beginning of the
document has to be marked. Every step of the reading takes a token or is the step into a node, so twice their number
bounds the steps. -/
def ofTokens? (tokens : List Token) : Option Document := do
  let isMarked := tokens.head?.any fun t => isOutside t && t ≠ .documentEnd
  let (handles, rest) ← Handles.read? false [] tokens
  if isMarked && rest.head? ≠ some .documentStart then none
  let content := if isMarked then rest.drop 1 else rest
  let start : Reading := ⟨content, [], []⟩
  let (root, r) ←
    if isMarked && (content.isEmpty || start.nextIs isOutside) then some (Node.empty, start)
    else Node.read? (handles ++ Handles.standard) (2 * content.length + 2) true false start
  if r.tokens.all (· = .documentEnd) then return ⟨root, r.anchored⟩ else none

/-- The document of a text; nothing if it is malformed, or there is none. -/
def ofText? (t : Text) : Option Document := (Token.ofText? t).bind ofTokens?

/-! ## Views -/

/-- The same document seen from another node. -/
def seenFrom (d : Document) (n : Node) : Document := { d with root := n }

/-- The node that a document is seen from; in the place of an alias what it refers to. -/
def node (d : Document) : Node :=
  match d.root with
  | .alias number => (Table.get? d.anchored number).getD .empty
  | n => n

end Document

end Stencil.Yaml
