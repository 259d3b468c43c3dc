import Stencil.Template.Defect
import Stencil.Text.Blank

/-!
# Tokens of a template

The text of a template is cut into consecutive pieces: stretches of plain text, and blocks that run from an opener to
the first closer behind it. Pieces become tokens: expressions and directives are kept with the number of their line,
notes and comments are dropped, and plain text that is left side by side is joined.

Main statement: the pieces, one after the other, are the source (`flatten_ofSource`).
-/

namespace Stencil.Template

/-! ## Blocks -/

namespace BlockKind

/-- How a block begins. -/
def opener : BlockKind → Text
  | .expression => ['{', '{']
  | .note => ['{', '#']
  | .comment => "<!--"

/-- How a block ends. -/
def closer : BlockKind → Text
  | .expression => ['}', '}']
  | .note => ['#', '}']
  | .comment => "-->"

/-- The kind of the block that begins right here, and the text behind its opener. -/
def opening? : Text → Option (BlockKind × Text)
  | '{' :: '{' :: rest => some (.expression, rest)
  | '{' :: '#' :: rest => some (.note, rest)
  | '<' :: '!' :: '-' :: '-' :: rest => some (.comment, rest)
  | _ => none

theorem eq_of_opening?_eq_some {t rest : Text} {kind : BlockKind} (h : opening? t = some (kind, rest)) :
    t = kind.opener ++ rest := by
  unfold opening? at h
  split at h <;> simp_all [opener] <;> obtain ⟨rfl, rfl⟩ := h <;> rfl

/-- The text in front of the first opener, the kind of the block that it opens, and the text behind it. -/
def next? : Text → Option (Text × BlockKind × Text)
  | [] => none
  | c :: rest =>
    match opening? (c :: rest) with
    | some (kind, behind) => some ([], kind, behind)
    | none => (next? rest).map fun (front, kind, behind) => (c :: front, kind, behind)

theorem eq_of_next?_eq_some {t front behind : Text} {kind : BlockKind} (h : next? t = some (front, kind, behind)) :
    t = front ++ kind.opener ++ behind := by
  induction t generalizing front with
  | nil => simp [next?] at h
  | cons c rest ih =>
    simp only [next?] at h
    split at h
    · rename_i hopen
      simp only [Option.some.injEq, Prod.mk.injEq] at h
      obtain ⟨rfl, rfl, rfl⟩ := h
      simpa using eq_of_opening?_eq_some hopen
    · obtain ⟨⟨front', kind', behind'⟩, hnext, hparts⟩ := Option.map_eq_some_iff.1 h
      simp only [Prod.mk.injEq] at hparts
      obtain ⟨rfl, rfl, rfl⟩ := hparts
      simp [ih hnext]

theorem closer_ne_nil (kind : BlockKind) : kind.closer ≠ [] := by cases kind <;> simp [closer]

end BlockKind

/-! ## Pieces -/

/-- A stretch of a template: plain text, or a block with what stands between its opener and its closer. -/
inductive Piece where
  | text (content : Text)
  | block (kind : BlockKind) (body : Text)
deriving DecidableEq, Repr

namespace Piece

/-- A piece as it stands in the template. -/
def source : Piece → Text
  | .text content => content
  | .block kind body => kind.opener ++ body ++ kind.closer

/-- A piece of plain text, or none if there is no text. -/
def ofText (content : Text) : List Piece := if content.isEmpty then [] else [.text content]

@[simp] theorem flatten_ofText (content : Text) : (ofText content).flatMap source = content := by
  unfold ofText
  split <;> simp_all [source]

/-- The number of lines that a text ends. -/
def newlines (t : Text) : Nat := t.count '\n'

/-- The pieces of a text that begins on a line. It is refused at the first opener without a closer. -/
def ofSource (line : Nat) (t : Text) : Except Refusal (List Piece) :=
  match _hnext : BlockKind.next? t with
  | none => .ok (ofText t)
  | some (front, kind, behind) =>
    match _hcut : Text.cutAt? kind.closer behind with
    | none => .error (.defect (line + newlines front) (.unterminated kind))
    | some (body, rest) => do
      let block := Piece.block kind body
      let later ← ofSource (line + newlines front + newlines block.source) rest
      return ofText front ++ block :: later
termination_by t.length
decreasing_by
  have h1 := congrArg List.length (BlockKind.eq_of_next?_eq_some _hnext)
  have h2 := Text.length_lt_of_cutAt?_eq_some (BlockKind.closer_ne_nil kind) _hcut
  simp only [List.length_append] at h1
  omega

/-- The pieces of a text, one after the other, are the text. -/
theorem flatten_ofSource {line : Nat} {t : Text} {pieces : List Piece} (h : ofSource line t = .ok pieces) :
    pieces.flatMap source = t := by
  -- by the recursion of the scan: plain rest, block without an end, block with a rest behind it
  induction line, t using ofSource.induct generalizing pieces with
  | case1 line t hnext =>
    unfold ofSource at h
    split at h
    · simp only [Except.ok.injEq] at h
      simp [← h]
    · simp_all
  | case2 line t front kind behind hnext hcut =>
    unfold ofSource at h
    split at h
    · simp_all
    · rename_i front' kind' behind' hnext'
      rw [hnext] at hnext'
      simp only [Option.some.injEq, Prod.mk.injEq] at hnext'
      obtain ⟨rfl, rfl, rfl⟩ := hnext'
      split at h <;> simp_all
  | case3 line t front kind behind hnext body rest hcut block =>
    rename_i ih
    unfold ofSource at h
    split at h
    · simp_all
    · rename_i front' kind' behind' hnext'
      rw [hnext] at hnext'
      simp only [Option.some.injEq, Prod.mk.injEq] at hnext'
      obtain ⟨rfl, rfl, rfl⟩ := hnext'
      split at h
      · simp at h
      · rename_i body' rest' hcut'
        rw [hcut] at hcut'
        simp only [Option.some.injEq, Prod.mk.injEq] at hcut'
        obtain ⟨rfl, rfl⟩ := hcut'
        cases hlater : ofSource (line + newlines front + newlines (Piece.block kind body).source) rest with
        | error e => simp [hlater, bind, Except.bind] at h
        | ok later =>
          have := ih hlater
          simp only [hlater, bind, Except.bind, pure, Except.pure, Except.ok.injEq] at h
          rw [← h, BlockKind.eq_of_next?_eq_some hnext, Text.eq_of_cutAt?_eq_some hcut]
          simp [source, this]

end Piece

/-! ## Tokens -/

/-- What a template is made of for its grammar. An expression is given trimmed and as it was written. -/
inductive Token where
  | text (content : Text)
  | expression (inner : Text) (raw : Text) (line : Nat)
  | directive (body : Text) (line : Nat)
deriving DecidableEq, Repr

namespace Token

/-- The words that make a comment a directive. -/
def keywords : List Text := ["FOR", "END", "IF", "ELSE", "SECTION", "INCLUDE"]

/-- A comment is a directive if its first word is a keyword. -/
def isDirective (body : Text) : Bool :=
  match Text.words body with
  | [] => false
  | word :: _ => keywords.contains word

/-- Puts plain text in front of tokens, and joins it with plain text that is there already. -/
def consText (content : Text) : List Token → List Token
  | .text next :: rest => .text (content ++ next) :: rest
  | tokens => .text content :: tokens

/-- The tokens of pieces, the first of which begins on a line. -/
def ofPieces : Nat → List Piece → List Token
  | _, [] => []
  | line, piece :: rest =>
    let later := ofPieces (line + Piece.newlines piece.source) rest
    match piece with
    | .text content => consText content later
    | .block .expression body => .expression (Text.trim body) piece.source line :: later
    | .block .note _ => later
    | .block .comment body =>
      if isDirective (Text.trim body) then .directive (Text.trim body) line :: later else later

/-- The tokens of a template. -/
def ofSource (t : Text) : Except Refusal (List Token) := (Piece.ofSource 1 t).map (ofPieces 1)

end Token

/-- The line of a byte position: one more than the newlines in front of it, and one if it is no position of the text. -/
def lineOf (t : Text) (offset : Nat) : Nat :=
  match Text.splitAtByte? offset t with
  | some (front, _) => Piece.newlines front + 1
  | none => 1

end Stencil.Template
