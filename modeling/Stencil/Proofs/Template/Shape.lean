import Stencil.Proofs.Template.Nesting
import Stencil.Proofs.Template.Placeholders

/-!
# The shape of programs

What can be relied on in a program that was read, at whatever depth: its names and paths are in order, the source of a
substitution stands in the template, no literal is empty, and none stands beside another in the same body.

What is said of a single node is read off the token that it comes from. That literals are apart is handed down from the
tokens, among which no two texts are side by side, to each body that is built from them (`Builds.literalsApart`).

Main statement: every program that was read has this shape (`wellFormed_of_ofSource`).
-/

namespace Stencil.Template

/-! ## Names and paths -/

/-- A name that a template may use: it begins with a letter or an underscore, goes on with letters, digits and
underscores, all of ASCII, and does not have two underscores in front. -/
structure IsIdentifier (s : Text) : Prop where
  first : ∃ c rest, s = c :: rest ∧ (c.isAlpha = true ∨ c = '_')
  chars : ∀ c ∈ s, c.isAlphanum = true ∨ c = '_'
  unreserved : ¬ ['_', '_'] <+: s

/-- A number in an array: digits of ASCII, at least one. -/
def IsIndex (s : Text) : Prop := s ≠ [] ∧ ∀ c ∈ s, c.isDigit = true

/-- A path has a name in front, and behind it names and indices. -/
def Path.WellFormed (path : Path) : Prop :=
  ∃ name rest, path = name :: rest ∧ IsIdentifier name ∧ ∀ s ∈ rest, IsIdentifier s ∨ IsIndex s

namespace Path

/-- What is read as an identifier is one. -/
lemma isIdentifier_of_identifier {s name : Text} (h : identifier s = .ok name) : IsIdentifier name := by
  obtain rfl := eq_of_identifier h
  unfold identifier at h
  split at h
  · simp at h
  rename_i hname
  split at h
  · simp at h
  rename_i hreserved
  cases name with
  | nil => simp [Text.isName] at hname
  | cons c rest =>
    simp only [Text.isName, Bool.not_eq_true, Bool.not_eq_false', Bool.and_eq_true, Bool.or_eq_true, beq_iff_eq,
      List.all_eq_true] at hname
    obtain ⟨hfirst, hrest⟩ := hname
    refine ⟨⟨c, rest, rfl, hfirst⟩, fun d hd => ?_, ?_⟩
    · rcases List.mem_cons.1 hd with rfl | hd
      · -- what a name begins with may stand further behind as well
        exact hfirst.imp_left fun hletter => by rw [Char.isAlphanum, hletter]; rfl
      · simpa [Text.isNameChar] using hrest d hd
    · rintro ⟨behind, heq⟩
      rw [← heq] at hreserved
      exact hreserved rfl

/-- What is read as a segment is an identifier or an index. -/
lemma isIdentifier_or_isIndex_of_segment {s name : Text} (h : segment s = .ok name) :
    IsIdentifier name ∨ IsIndex name := by
  unfold segment at h
  split at h
  · rename_i hdigits
    rw [← Except.ok.inj h]
    exact .inr (by simpa [IsIndex] using hdigits)
  · exact .inl (isIdentifier_of_identifier h)

/-- What is read as segments are identifiers and indices. -/
lemma isIdentifier_or_isIndex_of_segments {parts names : List Text} (h : segments parts = .ok names) :
    ∀ s ∈ names, IsIdentifier s ∨ IsIndex s := by
  induction parts generalizing names with
  | nil =>
    rw [← Except.ok.inj h]
    simp
  | cons part parts ih =>
    obtain ⟨first, hfirst, hrest⟩ := bind_eq_ok_iff.1 h
    obtain ⟨later, hlater, hnames⟩ := bind_eq_ok_iff.1 hrest
    rw [← Except.ok.inj hnames]
    exact List.forall_mem_cons.2 ⟨isIdentifier_or_isIndex_of_segment hfirst, ih hlater⟩

/-- A path that is read is well-formed. -/
lemma wellFormed_of_read {s : Text} {path : Path} (h : read s = .ok path) : path.WellFormed := by
  unfold read at h
  split at h
  · rename_i hsplit
    exact absurd hsplit (Text.split_ne_nil _ _)
  · obtain ⟨first, hfirst, hrest⟩ := bind_eq_ok_iff.1 h
    obtain ⟨later, hlater, hpath⟩ := bind_eq_ok_iff.1 hrest
    exact ⟨first, later, (Except.ok.inj hpath).symm, isIdentifier_of_identifier hfirst,
      isIdentifier_or_isIndex_of_segments hlater⟩

end Path

/-! ## Conditions -/

/-- An operand that is a path is a well formed one. -/
def Operand.WellFormed : Operand → Prop
  | .path p => Path.WellFormed p
  | .text _ => True
  | .int _ => True
  | .bool _ => True

/-- Every path that a condition asks about is well formed. -/
def Condition.WellFormed (condition : Condition) : Prop := ∀ operand ∈ condition.operands, operand.WellFormed

namespace Condition

/-- An operand that is read is well-formed. -/
lemma wellFormed_of_operand {lexeme : Lexeme} {a : Operand} (h : operand lexeme = .ok a) : a.WellFormed := by
  cases lexeme with
  | word word =>
    rw [operand, operandOfWord] at h
    split at h
    · rw [← Except.ok.inj h]
      trivial
    split at h
    · rw [← Except.ok.inj h]
      trivial
    split at h
    · rw [← Except.ok.inj h]
      trivial
    · obtain ⟨path, hpath, rfl⟩ := map_eq_ok_iff.1 h
      exact Path.wellFormed_of_read hpath
  | quoted t =>
    rw [← Except.ok.inj h]
    trivial
  | equals => simp [operand] at h
  | differs => simp [operand] at h

/-- A comparison that is read is well-formed. -/
lemma wellFormed_of_comparison {lexemes : List Lexeme} {condition : Condition}
    (h : comparison lexemes = .ok condition) : condition.WellFormed := by
  unfold comparison at h
  split at h
  · obtain ⟨a, ha, rfl⟩ := map_eq_ok_iff.1 h
    exact List.forall_mem_singleton.2 (wellFormed_of_operand ha)
  · obtain ⟨a, ha, hrest⟩ := bind_eq_ok_iff.1 h
    obtain ⟨b, hb, hcondition⟩ := bind_eq_ok_iff.1 hrest
    rw [← Except.ok.inj hcondition]
    exact List.forall_mem_cons.2 ⟨wellFormed_of_operand ha, List.forall_mem_singleton.2 (wellFormed_of_operand hb)⟩
  · obtain ⟨a, ha, hrest⟩ := bind_eq_ok_iff.1 h
    obtain ⟨b, hb, hcondition⟩ := bind_eq_ok_iff.1 hrest
    rw [← Except.ok.inj hcondition]
    exact List.forall_mem_cons.2 ⟨wellFormed_of_operand ha, List.forall_mem_singleton.2 (wellFormed_of_operand hb)⟩
  · simp at h

/-- A condition that is made of lexemes is well-formed. -/
lemma wellFormed_of_ofLexemes {lexemes : List Lexeme} {condition : Condition}
    (h : ofLexemes lexemes = .ok condition) : condition.WellFormed := by
  induction lexemes using ofLexemes.induct generalizing condition with
  | case1 rest ih =>
    rw [ofLexemes, if_pos rfl] at h
    obtain ⟨inside, hinside, rfl⟩ := map_eq_ok_iff.1 h
    -- a negation asks about the same operands
    have hoperands : inside.WellFormed := ih hinside
    exact hoperands
  | case2 word rest hnot =>
    rw [ofLexemes, if_neg hnot] at h
    exact wellFormed_of_comparison h
  | case3 lexemes hother =>
    rw [ofLexemes] at h
    · exact wellFormed_of_comparison h
    · exact hother

lemma wellFormed_of_read {t : Text} {condition : Condition} (h : read t = .ok condition) : condition.WellFormed := by
  unfold read at h
  split at h
  · simp at h
  · exact wellFormed_of_ofLexemes h

end Condition

/-! ## Leaves and headings -/

/-- A leaf of a program that was read from a template. A substitution has the source that stands in the template: its
path between double braces, with nothing but blanks around it. -/
def Leaf.WellFormed (limits : Limits) (t : Text) : Leaf → Prop
  | .literal content => content ≠ []
  | .substitution path raw =>
    path.WellFormed ∧ raw <:+: t ∧ Text.byteLength path.text ≤ limits.maxExpressionLength ∧
      ∃ inside, raw = "\x7b\x7b" ++ inside ++ "\x7d\x7d" ∧ Text.trim inside = path.text
  | .inclusion path => path ≠ []

/-- A heading whose names and paths are in order. -/
def Heading.WellFormed : Heading → Prop
  | .loop name collection => IsIdentifier name ∧ collection.WellFormed
  | .conditional condition => condition.WellFormed
  | .region name => IsIdentifier name

section Tokens

variable {limits : Limits} {t : Text} {tokens : List Token} {token : Token}

/-- A token that opens a block gives it a well-formed heading. -/
lemma Reads.wellFormed_heading {line : Nat} {heading : Heading} (h : Reads limits token (.opens line heading)) :
    heading.WellFormed := by
  cases h with
  | directive _ hmark =>
    generalize Text.trim _ = rest at hmark
    generalize (Text.cutAtBlank _).1 = keyword at hmark
    cases hmark with
    | loop _ hname hpath => exact ⟨Path.isIdentifier_of_identifier hname, Path.wellFormed_of_read hpath⟩
    | conditional hcondition => exact Condition.wellFormed_of_read hcondition
    | region hname => exact Path.isIdentifier_of_identifier hname

/-- The source of an expression stands in the template. -/
lemma Token.infix_of_expression (htokens : Token.ofSource t = .ok tokens) {inner raw : Text} {line : Nat}
    (hmem : .expression inner raw line ∈ tokens) : raw <:+: t := by
  obtain ⟨scanned, last, hscan, -, hjoined⟩ := Token.ofSource_eq_ok_iff.1 htokens
  obtain ⟨front, piece, rest, hpieces, htoken⟩ := Token.mem_separate.1 ((hjoined.mem_iff rfl).1 hmem)
  have hraw : raw = piece.source := by
    cases piece with
    | text content => simp [Token.ofPiece?] at htoken
    | block kind body =>
      cases kind with
      | expression =>
        simp only [Token.ofPiece?, Option.some.injEq, Token.expression.injEq] at htoken
        exact htoken.2.1.symm
      | note => simp [Token.ofPiece?] at htoken
      | comment =>
        rw [Token.ofPiece?] at htoken
        split at htoken <;> simp at htoken
  have hsource : (scanned ++ Piece.ofText last).flatMap Piece.source = t := by
    rw [List.flatMap_append, Piece.flatten_ofText, ← hscan.eq_append]
  rw [hraw, ← hsource, hpieces, List.flatMap_append, List.flatMap_cons]
  exact ⟨_, _, List.append_assoc _ _ _⟩

/-- A token that is a leaf gives a well-formed one, with the raw text of the template. -/
lemma Reads.wellFormed_leaf {leaf : Leaf} (h : Reads limits token (.leaf leaf))
    (htokens : Token.ofSource t = .ok tokens) (htoken : token ∈ tokens) : leaf.WellFormed limits t := by
  cases h with
  | text content => exact Token.ne_nil_of_text_mem_ofSource htokens htoken
  | @expression inner raw line path hlength hpath =>
    obtain ⟨body, rfl, rfl⟩ := Token.exists_body_of_expression htokens htoken
    have htext : path.text = Text.trim body := (Path.text_of_read hpath).2
    refine ⟨Path.wellFormed_of_read hpath, Token.infix_of_expression htokens htoken, ?_, body, rfl, htext.symm⟩
    rw [htext]
    exact hlength
  | directive _ hmark =>
    generalize Text.trim _ = rest at hmark
    generalize (Text.cutAtBlank _).1 = keyword at hmark
    cases hmark with
    | inclusion hpath => exact hpath

end Tokens

/-! ## Bodies -/

/-- Whether a node is text that is copied. -/
def Node.isLiteral : Node → Bool
  | .literal _ => true
  | .substitution _ _ => false
  | .loop _ _ _ => false
  | .conditional _ _ _ => false
  | .region _ _ => false
  | .inclusion _ => false

/-- Whether a mark becomes a literal. -/
def Mark.isText : Mark → Bool
  | .leaf part => part.node.isLiteral
  | .opens _ _ => false
  | .turns => false
  | .closes _ => false

namespace Program

/-- The bodies in a program, at whatever depth. -/
def inner : Program → List Program
  | [] => []
  | node :: rest => ofNode node ++ inner rest
where
  /-- The bodies of a node, each with those inside of it. -/
  ofNode : Node → List Program
    | .loop _ _ body => body :: inner body
    | .conditional _ body otherwise => body :: inner body ++ otherwise :: inner otherwise
    | .region _ body => body :: inner body
    | .literal _ => []
    | .substitution _ _ => []
    | .inclusion _ => []

/-- A program and the bodies in it. -/
def bodies (program : Program) : List Program := program :: inner program

/-- No two literals of a body are side by side. -/
def LiteralsApart (body : Program) : Prop := body.IsChain fun a b => ¬ (a.isLiteral = true ∧ b.isLiteral = true)

lemma inner_leaf_cons (leaf : Leaf) (program : Program) : inner (leaf.node :: program) = inner program := by
  cases leaf <;> rfl

lemma mem_inner_block_cons {heading : Heading} {body program found : Program}
    (h : found ∈ inner (heading.opening.node body :: program)) :
    found = [] ∨ found ∈ bodies body ∨ found ∈ inner program := by
  cases heading <;> simp_all [inner, inner.ofNode, bodies, Heading.opening, Opening.node] <;> tauto

/-- The bodies inside a program with a conditional in front are those of both branches and those behind it. -/
lemma mem_inner_branches_cons {condition : Condition} {body otherwise program found : Program}
    (h : found ∈ inner (.conditional condition body otherwise :: program)) :
    found ∈ bodies body ∨ found ∈ bodies otherwise ∨ found ∈ inner program := by
  simp_all [inner, inner.ofNode, bodies]
  tauto

end Program

/-- A body that begins with a literal is built from marks that begin with one. -/
lemma Builds.isText_of_head? {room : Nat} {marks : List Mark} {program : Program} (h : Builds room marks program)
    {node : Node} (hnode : program.head? = some node) (hliteral : node.isLiteral = true) :
    ∃ mark, marks.head? = some mark ∧ mark.isText = true := by
  cases h with
  | nil => simp at hnode
  | leaf part _ =>
    obtain rfl := Option.some.inj hnode
    exact ⟨_, rfl, hliteral⟩
  | block line heading _ _ =>
    obtain rfl := Option.some.inj hnode
    cases heading <;> exact Bool.noConfusion hliteral
  | branches line condition _ _ _ =>
    obtain rfl := Option.some.inj hnode
    exact Bool.noConfusion hliteral

/-- Marks among which no two become literals side by side build a program without literals side by side. -/
theorem Builds.literalsApart {room : Nat} {marks : List Mark} {program : Program} (h : Builds room marks program)
    (hmarks : marks.IsChain fun a b => ¬ (a.isText = true ∧ b.isText = true)) :
    ∀ body ∈ Program.bodies program, body.LiteralsApart := by
  -- in front of a node that is no literal anything may stand
  have hcons : ∀ {node : Node} {program : Program}, node.isLiteral = false → program.LiteralsApart →
      Program.LiteralsApart (node :: program) :=
    fun hnode hrest => hrest.cons fun _ _ hboth => by simp [hnode] at hboth
  induction h with
  | nil room => exact List.forall_mem_singleton.2 .nil
  | @leaf room marks program part later ih =>
    have hlater := ih hmarks.tail
    refine List.forall_mem_cons.2 ⟨?_, ?_⟩
    · refine (hlater program List.mem_cons_self).cons fun next hnext hboth => ?_
      obtain ⟨mark, hmark, htext⟩ := later.isText_of_head? hnext hboth.2
      exact (List.isChain_cons.1 hmarks).1 mark hmark ⟨hboth.1, htext⟩
    · rw [Program.inner_leaf_cons]
      exact fun body hbody => hlater body (List.mem_cons_of_mem _ hbody)
  | @block room inside marks body program line heading _ _ ihinside ih =>
    have hinside := ihinside hmarks.tail.left_of_append
    have hlater := ih hmarks.tail.right_of_append.tail
    refine List.forall_mem_cons.2 ⟨?_, fun found hfound => ?_⟩
    · exact hcons (by cases heading <;> rfl) (hlater program List.mem_cons_self)
    · rcases Program.mem_inner_block_cons hfound with rfl | hbody | hrest
      · exact .nil
      · exact hinside found hbody
      · exact hlater found (List.mem_cons_of_mem _ hrest)
  | @branches room first second marks body otherwise program line condition _ _ _ ihfirst ihsecond ih =>
    have hfront := hmarks.tail.left_of_append
    have hlater := ih hmarks.tail.right_of_append.tail
    refine List.forall_mem_cons.2 ⟨?_, fun found hfound => ?_⟩
    · exact hcons rfl (hlater program List.mem_cons_self)
    · rcases Program.mem_inner_branches_cons hfound with hbody | hotherwise | hrest
      · exact ihfirst hfront.left_of_append found hbody
      · exact ihsecond hfront.right_of_append.tail found hotherwise
      · exact hlater found (List.mem_cons_of_mem _ hrest)

/-! ## Programs -/

/-- What can be relied on in a program that was read from a template. -/
structure Program.WellFormed (limits : Limits) (t : Text) (program : Program) : Prop where
  leaves : ∀ leaf, .inl leaf ∈ heads program → leaf.WellFormed limits t
  headings : ∀ heading, .inr heading ∈ heads program → heading.WellFormed
  nesting : depth program ≤ limits.maxNesting
  apart : ∀ body ∈ bodies program, LiteralsApart body

/-- A mark is text if and only if its token is. -/
lemma Reads.isText_eq {limits : Limits} {token : Token} {mark : Mark} (h : Reads limits token mark) :
    mark.isText = token.isText := by
  cases h with
  | text content => rfl
  | expression _ _ => rfl
  | directive _ hmark =>
    generalize Text.trim _ = rest at hmark
    generalize (Text.cutAtBlank _).1 = keyword at hmark
    cases hmark <;> rfl

/-- Marks are apart as the tokens are that they are read from. -/
lemma isChain_marks {limits : Limits} {tokens : List Token} {marks : List Mark}
    (h : List.Forall₂ (Reads limits) tokens marks)
    (htokens : tokens.IsChain fun a b => ¬ (a.isText = true ∧ b.isText = true)) :
    marks.IsChain fun a b => ¬ (a.isText = true ∧ b.isText = true) := by
  have hsame : marks.map Mark.isText = tokens.map Token.isText := by
    induction h with
    | nil => rfl
    | cons hreads _ ih => rw [List.map_cons, List.map_cons, hreads.isText_eq, ih htokens.tail]
  rw [← List.isChain_map Mark.isText (R := fun a b => ¬ (a = true ∧ b = true)), hsame, List.isChain_map]
  exact htokens

/-- Every program that is read from a template has the shape that the rest relies on: at whatever depth, its names are
identifiers and its paths are names followed by names and indices, no inclusion is without a path, the source of each
substitution stands in the template and is its path between double braces, and within the bound on expressions. Its
blocks lie no deeper than the limit allows, no literal is empty, and no body has two literals side by side. -/
theorem wellFormed_of_ofSource {limits : Limits} {t : Text} {program : Program}
    (h : Program.ofSource limits t = .ok program) : program.WellFormed limits t := by
  obtain ⟨tokens, htokens, hprogram⟩ := bind_eq_ok_iff.1 h
  obtain ⟨marks, hmarks, hbuilds⟩ := Program.ofTokens_eq_ok_iff.1 hprogram
  -- every head of the program is that of a token
  have hhead : ∀ head ∈ Program.heads program, ∃ token ∈ tokens, ∃ mark, Reads limits token mark ∧
      mark.head? = some head := by
    intro head hmem
    rw [hbuilds.heads_eq] at hmem
    obtain ⟨token, htoken, hshows⟩ := exists_mem_of_forall₂ (forall₂_shows hmarks).flip hmem
    exact ⟨token, List.mem_of_mem_filter htoken, hshows⟩
  refine ⟨fun leaf hleaf => ?_, fun heading hheading => ?_, hbuilds.depth_le, ?_⟩
  · obtain ⟨token, htoken, mark, hreads, hmark⟩ := hhead _ hleaf
    cases mark with
    | leaf part =>
      obtain rfl := Sum.inl.inj (Option.some.inj hmark)
      exact hreads.wellFormed_leaf htokens htoken
    | opens | turns | closes => simp [Mark.head?] at hmark
  · obtain ⟨token, -, mark, hreads, hmark⟩ := hhead _ hheading
    cases mark with
    | opens line part =>
      obtain rfl := Sum.inr.inj (Option.some.inj hmark)
      exact hreads.wellFormed_heading
    | leaf | turns | closes => simp [Mark.head?] at hmark
  · exact hbuilds.literalsApart (isChain_marks hmarks (Token.isChain_ofSource htokens))

/-- A template with a note in the middle of a text, an index in a path, and a condition with two bodies. -/
def remarked : Text :=
  "a\x7b# #\x7db\x7b\x7b xs.0 \x7d\x7d<!--IF ok-->c<!--ELSE-->\x7b\x7bd\x7d\x7d<!--END IF-->"

/-- The program of that template. -/
def remarkedProgram : Program :=
  [.literal "ab", .substitution ["xs", "0"] "\x7b\x7b xs.0 \x7d\x7d",
    .conditional (.truthy (.path ["ok"])) [.literal "c"] [.substitution ["d"] "\x7b\x7bd\x7d\x7d"]]

/-- The template is read under limits that it just keeps. -/
theorem wellFormed_remarked :
    Program.ofSource ⟨6, 1⟩ remarked = .ok remarkedProgram ∧ remarkedProgram.WellFormed ⟨6, 1⟩ remarked := by
  have hpieces : Piece.ofSource 1 remarked =
      .ok [.text "a", .block .note " ", .text "b", .block .expression " xs.0 ", .block .comment "IF ok", .text "c",
        .block .comment "ELSE", .block .expression "d", .block .comment "END IF"] := by decide +kernel
  have hsource : Program.ofSource ⟨6, 1⟩ remarked = .ok remarkedProgram := by
    rw [Program.ofSource_of_tokens (Token.ofSource_of_pieces hpieces)]
    rfl
  exact ⟨hsource, wellFormed_of_ofSource hsource⟩

end Stencil.Template
