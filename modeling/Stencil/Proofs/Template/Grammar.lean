import Mathlib.Data.List.Forall2
import Stencil.Template.Outline

/-!
# The grammar of templates

What a list of tokens has to be to make a program, said without a stack. A token on its own is read as a mark
(`Reads`): a leaf, the heading of a block, the turn to its second body, or its end. Marks in a row build a program by
the rules of a grammar, in which a block lies around a body (`Builds`).

The heads of a program are its leaves and headings in the order of the document (`Program.heads`). What is counted and
listed of a program can be told from them (`Program.length_heads`, `Program.inclusions_eq_filterMap_heads`), and they
are those of the marks that it is built from (`Builds.heads_eq`).
-/

namespace Stencil.Template

/-! ## Marks -/

/-- A part of a program without a body. -/
inductive Leaf where
  | literal (text : Text)
  | substitution (path : Path) (raw : Text)
  | inclusion (path : Text)

/-- What a part of a program with a body has in front of it. -/
inductive Heading where
  | loop (name : Text) (collection : Path)
  | conditional (condition : Condition)
  | region (name : Text)

/-- What a token is for the grammar. An opened block has the line of its token with it. -/
inductive Mark where
  | leaf (part : Leaf)
  | opens (line : Nat) (heading : Heading)
  | turns
  | closes (keyword : Text)

def Leaf.node : Leaf → Node
  | .literal text => .literal text
  | .substitution path raw => .substitution path raw
  | .inclusion path => .inclusion path

def Heading.opening : Heading → Opening
  | .loop name collection => .loop name collection
  | .conditional condition => .conditional condition
  | .region name => .region name

/-- The leaf or heading that a mark adds to a program. -/
def Mark.head? : Mark → Option (Leaf ⊕ Heading)
  | .leaf part => some (.inl part)
  | .opens _ heading => some (.inr heading)
  | .turns => none
  | .closes _ => none

/-! ## Tokens on their own -/

/-- A directive on a line is well formed: its keyword, what stands behind it, and what it means. -/
inductive Instructs (line : Nat) : Text → Text → Mark → Prop
  | loop {rest name collection : Text} {path : Path} (hwords : Text.words rest = [name, "IN", collection])
    (hname : Path.identifier name = .ok name) (hpath : Path.read collection = .ok path) :
    Instructs line "FOR" rest (.opens line (.loop name path))
  | conditional {rest : Text} {condition : Condition} (hcondition : Condition.read rest = .ok condition) :
    Instructs line "IF" rest (.opens line (.conditional condition))
  | alternative : Instructs line "ELSE" [] .turns
  | region {name : Text} (hname : Path.identifier name = .ok name) :
    Instructs line "SECTION" name (.opens line (.region name))
  | inclusion {rest : Text} (hpath : Outline.unquote rest ≠ []) :
    Instructs line "INCLUDE" rest (.leaf (.inclusion (Outline.unquote rest)))
  | close {keyword : Text} : Instructs line "END" keyword (.closes keyword)

/-- A token is well formed and within its bound, and means a mark. -/
inductive Reads (limits : Limits) : Token → Mark → Prop
  | text (content : Text) : Reads limits (.text content) (.leaf (.literal content))
  | expression {inner raw : Text} {line : Nat} {path : Path}
    (hlength : Text.byteLength inner ≤ limits.maxExpressionLength) (hpath : Path.read inner = .ok path) :
    Reads limits (.expression inner raw line) (.leaf (.substitution path raw))
  | directive {body : Text} {line : Nat} {mark : Mark} (hlength : Text.byteLength body ≤ limits.maxExpressionLength)
    (hmark : Instructs line (Text.cutAtBlank body).1 (Text.trim (Text.cutAtBlank body).2) mark) :
    Reads limits (.directive body line) mark

namespace Token

/-- The keywords of directives that become nodes. -/
def nodeKeywords : List Text := ["FOR", "IF", "SECTION", "INCLUDE"]

/-- Whether a token becomes a node. A directive does if its keyword adds to the program. -/
def makesNode : Token → Bool
  | .text _ => true
  | .expression _ _ _ => true
  | .directive body _ => nodeKeywords.contains (Text.cutAtBlank body).1

/-- The path of an inclusion, if a token is one. -/
def inclusionPath? : Token → Option Text
  | .text _ => none
  | .expression _ _ _ => none
  | .directive body _ =>
    if (Text.cutAtBlank body).1 = "INCLUDE" then some (Outline.unquote (Text.trim (Text.cutAtBlank body).2)) else none

end Token

/-- A token means a mark that adds this leaf or heading. -/
def Shows (limits : Limits) (token : Token) (head : Leaf ⊕ Heading) : Prop :=
  ∃ mark, Reads limits token mark ∧ mark.head? = some head

/-! ## Programs -/

/-- Marks build a program with room for a number of blocks inside each other. Every block is closed behind its body by
the keyword that opened it, and only the body of a condition may be followed by a second one. -/
inductive Builds : Nat → List Mark → Program → Prop
  | nil (room : Nat) : Builds room [] []
  | leaf {room : Nat} {marks : List Mark} {program : Program} (leaf : Leaf) (later : Builds room marks program) :
    Builds room (.leaf leaf :: marks) (leaf.node :: program)
  | block {room : Nat} {inner marks : List Mark} {body program : Program} (line : Nat) (heading : Heading)
    (inside : Builds room inner body) (later : Builds (room + 1) marks program) :
    Builds (room + 1) (.opens line heading :: inner ++ .closes heading.opening.keyword :: marks)
      (heading.opening.node body :: program)
  | branches {room : Nat} {first second marks : List Mark} {body otherwise program : Program} (line : Nat)
    (condition : Condition) (inside : Builds room first body) (inside' : Builds room second otherwise)
    (later : Builds (room + 1) marks program) :
    Builds (room + 1) (.opens line (.conditional condition) :: first ++ .turns :: second ++ .closes "IF" :: marks)
      (.conditional condition body otherwise :: program)

/-! ## The order of the document -/

namespace Program

/-- The leaves and headings of a program, each heading in front of those of its bodies. -/
def heads : Program → List (Leaf ⊕ Heading)
  | [] => []
  | node :: rest => ofNode node ++ heads rest
where
  /-- The leaf that a node is, or its heading and what its bodies hold. -/
  ofNode : Node → List (Leaf ⊕ Heading)
    | .loop name collection body => .inr (.loop name collection) :: heads body
    | .conditional condition body otherwise => .inr (.conditional condition) :: (heads body ++ heads otherwise)
    | .region name body => .inr (.region name) :: heads body
    | .literal text => [.inl (.literal text)]
    | .substitution path raw => [.inl (.substitution path raw)]
    | .inclusion path => [.inl (.inclusion path)]

lemma heads_leaf_cons (leaf : Leaf) (program : Program) :
    heads (leaf.node :: program) = .inl leaf :: heads program := by
  cases leaf <;> rfl

lemma heads_block_cons (heading : Heading) (body program : Program) :
    heads (heading.opening.node body :: program) = .inr heading :: (heads body ++ heads program) := by
  cases heading <;> simp [heads, heads.ofNode, Heading.opening, Opening.node]

lemma heads_branches_cons (condition : Condition) (body otherwise program : Program) :
    heads (.conditional condition body otherwise :: program) =
      .inr (.conditional condition) :: (heads body ++ heads otherwise ++ heads program) := by
  simp [heads, heads.ofNode]

/-- What holds of a program if it does of its bodies and of the nodes behind the first holds of every program. -/
@[elab_as_elim]
lemma rec_nodes {motive : Program → Prop} (nil : motive [])
    (leaf : ∀ leaf rest, motive rest → motive (Leaf.node leaf :: rest))
    (block : ∀ heading body rest, motive body → motive rest → motive ((Heading.opening heading).node body :: rest))
    (branches : ∀ condition body otherwise rest, motive body → motive otherwise → motive rest →
      motive (.conditional condition body otherwise :: rest))
    (program : Program) : motive program := by
  refine heads.induct (fun node => ∀ rest, motive rest → motive (node :: rest)) motive ?loop ?conditional ?region
    ?literal ?substitution ?inclusion nil (fun node rest hnode hrest => hnode rest hrest) program
  case loop => exact fun name collection body hbody rest => block (.loop name collection) body rest hbody
  case conditional =>
    exact fun condition body otherwise hbody hotherwise rest => branches condition body otherwise rest hbody hotherwise
  case region => exact fun name body hbody rest => block (.region name) body rest hbody
  case literal => exact fun text => leaf (.literal text)
  case substitution => exact fun path raw => leaf (.substitution path raw)
  case inclusion => exact fun path => leaf (.inclusion path)

/-- The path of a leaf that is an inclusion. -/
def inclusionPath? : Leaf ⊕ Heading → Option Text
  | .inl (.inclusion path) => some path
  | .inl (.literal _) => none
  | .inl (.substitution _ _) => none
  | .inr _ => none

/-- A program has as many nodes as leaves and headings. -/
theorem length_heads (program : Program) : (heads program).length = nodeCount program := by
  induction program using rec_nodes with
  | nil => rfl
  | leaf leaf rest ih =>
    rw [heads_leaf_cons, List.length_cons, ih, nodeCount, Nat.add_comm]
    cases leaf <;> rfl
  | block heading body rest ihbody ih =>
    rw [heads_block_cons, List.length_cons, List.length_append, ihbody, ih, nodeCount]
    cases heading <;> simp [Heading.opening, Opening.node, nodeCount.ofNode, nodeCount] <;> omega
  | branches condition body otherwise rest ihbody ihotherwise ih =>
    rw [heads_branches_cons, List.length_cons, List.length_append, List.length_append, ihbody, ihotherwise, ih,
      nodeCount, nodeCount.ofNode]
    omega

/-- The inclusions of a program are the leaves that are one, in the order of the document. -/
theorem inclusions_eq_filterMap_heads (program : Program) :
    inclusions program = (heads program).filterMap inclusionPath? := by
  induction program using rec_nodes with
  | nil => rfl
  | leaf leaf rest ih =>
    rw [heads_leaf_cons, inclusions, ih]
    cases leaf <;> rfl
  | block heading body rest ihbody ih =>
    rw [heads_block_cons, List.filterMap_cons_none rfl, List.filterMap_append, ← ihbody, ← ih, inclusions]
    cases heading <;> simp [Heading.opening, Opening.node, inclusions.ofNode, inclusions]
  | branches condition body otherwise rest ihbody ihotherwise ih =>
    rw [heads_branches_cons, List.filterMap_cons_none rfl, List.filterMap_append, List.filterMap_append, ← ihbody,
      ← ihotherwise, ← ih, inclusions, inclusions.ofNode]

end Program

/-! ## Tokens, marks and programs -/

/-- A mark has a head if and only if its token makes a node. -/
lemma Reads.isSome_head? {limits : Limits} {token : Token} {mark : Mark} (h : Reads limits token mark) :
    mark.head?.isSome = token.makesNode := by
  cases h with
  | text content => rfl
  | expression _ _ => rfl
  | directive _ hmark =>
    rw [Token.makesNode]
    generalize Text.trim _ = rest at hmark
    generalize (Text.cutAtBlank _).1 = keyword at hmark
    cases hmark <;> rfl

/-- The path of an inclusion is the one that its token names. -/
lemma Reads.inclusionPath?_eq {limits : Limits} {token : Token} {mark : Mark} (h : Reads limits token mark) :
    mark.head?.bind Program.inclusionPath? = token.inclusionPath? := by
  cases h with
  | text content => rfl
  | expression _ _ => rfl
  | directive _ hmark =>
    rw [Token.inclusionPath?]
    generalize Text.trim _ = rest at hmark
    generalize (Text.cutAtBlank _).1 = keyword at hmark
    cases hmark <;> rfl

/-- Only plain text shows a literal. -/
lemma Shows.eq_text {limits : Limits} {token : Token} {content : Text}
    (h : Shows limits token (.inl (.literal content))) : token = .text content := by
  obtain ⟨mark, hreads, hhead⟩ := h
  cases hreads with
  | text content' =>
    obtain rfl : content' = content := by simpa [Mark.head?] using hhead
    rfl
  | expression _ _ => simp [Mark.head?] at hhead
  | directive _ hmark =>
    generalize Text.trim _ = rest at hmark
    generalize (Text.cutAtBlank _).1 = keyword at hmark
    cases hmark <;> simp [Mark.head?] at hhead

/-- The tokens that become nodes show the leaves and headings of their marks, one for one. -/
lemma forall₂_shows {limits : Limits} {tokens : List Token} {marks : List Mark}
    (h : List.Forall₂ (Reads limits) tokens marks) :
    List.Forall₂ (Shows limits) (tokens.filter Token.makesNode) (marks.filterMap Mark.head?) := by
  induction h with
  | nil => exact .nil
  | @cons token mark tokens marks hreads _ ih =>
    rw [List.filter_cons, List.filterMap_cons, ← hreads.isSome_head?]
    cases hhead : mark.head? with
    | none => exact ih
    | some head => exact .cons ⟨mark, hreads, hhead⟩ ih

/-- The inclusions of marks are those of their tokens, in their order. -/
lemma filterMap_inclusionPath?_eq {limits : Limits} {tokens : List Token} {marks : List Mark}
    (h : List.Forall₂ (Reads limits) tokens marks) :
    (marks.filterMap Mark.head?).filterMap Program.inclusionPath? = tokens.filterMap Token.inclusionPath? := by
  rw [List.filterMap_filterMap]
  induction h with
  | nil => rfl
  | cons hreads _ ih => rw [List.filterMap_cons, List.filterMap_cons, hreads.inclusionPath?_eq, ih]

/-- A program has the leaves and headings of the marks that it is built from, in their order. -/
theorem Builds.heads_eq {room : Nat} {marks : List Mark} {program : Program} (h : Builds room marks program) :
    Program.heads program = marks.filterMap Mark.head? := by
  induction h with
  | nil room => rfl
  | leaf part _ ih => simp [Program.heads_leaf_cons, ih, Mark.head?]
  | block line heading _ _ ihinside ih => simp [Program.heads_block_cons, ihinside, ih, List.filterMap_cons, Mark.head?]
  | branches line condition _ _ _ ihinside ihinside' ih =>
    simp [Program.heads_branches_cons, ihinside, ihinside', ih, List.filterMap_cons, Mark.head?]

end Stencil.Template
