import Stencil.Proofs.Template.Building
import Stencil.Proofs.Template.Joining

/-!
# How substitutions are written

A substitution whose path names nothing is put out as it was written. So it matters which characters can stand there:
the two braces at either end, blanks, and between them the path, which is made of letters, digits, underscores and
points (`isPathChar_of_read`).

Main statement: the source of every substitution of a program that was read is written in this way
(`placeholder_of_ofSource`).
-/

namespace Stencil

/-- What stands in texts that are joined stands in a separator or in one of them. -/
lemma Text.mem_join {c : Char} {separator : Text} {parts : List Text} (h : c ∈ join separator parts) :
    c ∈ separator ∨ ∃ part ∈ parts, c ∈ part := by
  induction parts using join.induct with
  | case1 => simp [join] at h
  | case2 part => exact .inr ⟨part, List.mem_cons_self, h⟩
  | case3 part rest hrest ih =>
    rw [join, List.mem_append, List.mem_append] at h
    · rcases h with (h | h) | h
      · exact .inr ⟨part, List.mem_cons_self, h⟩
      · exact .inl h
      · rcases ih h with h | ⟨part', hpart', h⟩
        · exact .inl h
        · exact .inr ⟨part', List.mem_cons_of_mem _ hpart', h⟩
    · exact hrest

namespace Template

/-! ## Characters of paths -/

namespace Path

/-- The characters of paths: those of names, and points. -/
def isPathChar (c : Char) : Bool := Text.isNameChar c || c == '.'

lemma isPathChar_of_identifier {s name : Text} (h : identifier s = .ok name) : ∀ c ∈ s, isPathChar c = true := by
  have hname : Text.isName s = true := by
    unfold identifier at h
    split at h
    · simp at h
    · rename_i hname
      simpa using hname
  cases s with
  | nil => simp
  | cons first rest =>
    simp only [Text.isName, Bool.and_eq_true, List.all_eq_true] at hname
    intro c hc
    rcases List.mem_cons.1 hc with rfl | hc
    · -- what a name begins with may stand further behind as well
      have hfirst := hname.1
      simp only [isPathChar, Text.isNameChar, Char.isAlphanum]
      rcases Bool.or_eq_true_iff.1 hfirst with hletter | hunderscore
      · rw [hletter]
        rfl
      · rw [hunderscore, Bool.or_true]
        rfl
    · rw [isPathChar, hname.2 c hc]
      rfl

lemma isPathChar_of_segment {s name : Text} (h : segment s = .ok name) : ∀ c ∈ s, isPathChar c = true := by
  unfold segment at h
  split at h
  · rename_i hdigits
    intro c hc
    rw [Bool.and_eq_true, List.all_eq_true] at hdigits
    have hdigit := hdigits.2 c hc
    simp only [isPathChar, Text.isNameChar, Char.isAlphanum]
    rw [hdigit, Bool.or_true]
    rfl
  · exact isPathChar_of_identifier h

lemma isPathChar_of_segments {parts names : List Text} (h : segments parts = .ok names) :
    ∀ part ∈ parts, ∀ c ∈ part, isPathChar c = true := by
  induction parts generalizing names with
  | nil => simp
  | cons part parts ih =>
    obtain ⟨first, hfirst, hrest⟩ := bind_eq_ok_iff.1 h
    obtain ⟨later, hlater, -⟩ := bind_eq_ok_iff.1 hrest
    exact List.forall_mem_cons.2 ⟨isPathChar_of_segment hfirst, ih hlater⟩

/-- A text that is read as a path is made of the characters of paths. -/
theorem isPathChar_of_read {s : Text} {path : Path} (h : read s = .ok path) : ∀ c ∈ s, isPathChar c = true := by
  have hparts : ∀ part ∈ Text.split (· == '.') s, ∀ c ∈ part, isPathChar c = true := by
    unfold read at h
    cases hs : Text.split (· == '.') s with
    | nil => exact absurd hs (Text.split_ne_nil _ _)
    | cons part rest =>
      rw [hs] at h
      obtain ⟨first, hfirst, hrest⟩ := bind_eq_ok_iff.1 h
      obtain ⟨later, hlater, -⟩ := bind_eq_ok_iff.1 hrest
      exact List.forall_mem_cons.2 ⟨isPathChar_of_identifier hfirst, isPathChar_of_segments hlater⟩
  intro c hc
  rw [← Text.join_split '.' s] at hc
  rcases Text.mem_join hc with hc | ⟨part, hpart, hc⟩
  · rw [List.mem_singleton.1 hc]
    rfl
  · exact hparts part hpart c hc

end Path

/-! ## Expressions in writing -/

/-- A path as an expression writes it: between double braces, with blanks around it. -/
def Placeholder (path : Path) (raw : Text) : Prop :=
  ∃ before behind, Text.Blanks before ∧ Text.Blanks behind ∧
    raw = "\x7b\x7b" ++ (before ++ path.text ++ behind) ++ "\x7d\x7d"

/-- Every character of a placeholder is a brace, a blank, or a character of paths. -/
lemma Placeholder.mem {path : Path} {raw : Text} (h : Placeholder path raw)
    (hpath : ∀ c ∈ path.text, Path.isPathChar c = true) {c : Char} (hc : c ∈ raw) :
    c = '\x7b' ∨ c = '\x7d' ∨ Text.isBlank c = true ∨ Path.isPathChar c = true := by
  obtain ⟨before, behind, hbefore, hbehind, rfl⟩ := h
  simp only [List.mem_append] at hc
  rcases hc with (hc | (hc | hc) | hc) | hc
  · exact .inl (by simpa using hc)
  · exact .inr (.inr (.inl (hbefore c hc)))
  · exact .inr (.inr (.inr (hpath c hc)))
  · exact .inr (.inr (.inl (hbehind c hc)))
  · exact .inr (.inl (by simpa using hc))

/-- Only an expression shows a substitution, and its source is that of the expression. -/
lemma Shows.eq_expression {limits : Limits} {token : Token} {path : Path} {raw : Text}
    (h : Shows limits token (.inl (.substitution path raw))) :
    ∃ inner line, token = .expression inner raw line ∧ Path.read inner = .ok path := by
  obtain ⟨mark, hreads, hhead⟩ := h
  cases hreads with
  | text content => simp [Mark.head?] at hhead
  | @expression inner raw' line path' _ hpath =>
    simp only [Mark.head?, Option.some.injEq, Sum.inl.injEq, Leaf.substitution.injEq] at hhead
    obtain ⟨rfl, rfl⟩ := hhead
    exact ⟨inner, line, rfl, hpath⟩
  | directive _ hmark =>
    generalize Text.trim _ = rest at hmark
    generalize (Text.cutAtBlank _).1 = keyword at hmark
    cases hmark <;> simp [Mark.head?] at hhead

/-- An expression is a piece of the template between double braces, and its inside is that of the piece, trimmed. -/
lemma Token.exists_body_of_expression {t : Text} {tokens : List Token} (h : Token.ofSource t = .ok tokens)
    {inner raw : Text} {line : Nat} (hmem : .expression inner raw line ∈ tokens) :
    ∃ body, inner = Text.trim body ∧ raw = (Piece.block .expression body).source := by
  obtain ⟨scanned, last, -, -, hjoined⟩ := Token.ofSource_eq_ok_iff.1 h
  have hseparate := (hjoined.mem_iff rfl).1 hmem
  obtain ⟨front, piece, rest, -, htoken⟩ := Token.mem_separate.1 hseparate
  cases piece with
  | text content => simp [Token.ofPiece?] at htoken
  | block kind body =>
    cases kind with
    | expression =>
      simp only [Token.ofPiece?, Option.some.injEq, Token.expression.injEq] at htoken
      exact ⟨body, htoken.1.symm, htoken.2.1.symm⟩
    | note => simp [Token.ofPiece?] at htoken
    | comment =>
      rw [Token.ofPiece?] at htoken
      split at htoken <;> simp at htoken

/-- A substitution of a program that was read is written as its path between double braces, and the path is made of the
characters of paths. -/
theorem placeholder_of_ofSource {limits : Limits} {t : Text} {program : Program}
    (h : Program.ofSource limits t = .ok program) {path : Path} {raw : Text}
    (hmem : .inl (.substitution path raw) ∈ Program.heads program) :
    Placeholder path raw ∧ ∀ c ∈ path.text, Path.isPathChar c = true := by
  obtain ⟨tokens, htokens, hbuild⟩ := bind_eq_ok_iff.1 h
  obtain ⟨marks, hmarks, hbuilds⟩ := Program.ofTokens_eq_ok_iff.1 hbuild
  rw [hbuilds.heads_eq] at hmem
  obtain ⟨token, htoken, hshows⟩ := exists_mem_of_forall₂ (forall₂_shows hmarks).flip hmem
  obtain ⟨inner, line, rfl, hpath⟩ := Shows.eq_expression hshows
  obtain ⟨body, rfl, rfl⟩ := Token.exists_body_of_expression htokens (List.mem_of_mem_filter htoken)
  obtain ⟨before, behind, hbody, hbefore, hbehind⟩ := Text.exists_blanks_trim body
  have htext : path.text = Text.trim body := (Path.text_of_read hpath).2
  have hinside : before ++ path.text ++ behind = body := by
    rw [htext]
    exact hbody.symm
  refine ⟨⟨before, behind, hbefore, hbehind, ?_⟩, ?_⟩
  · rw [hinside]
    rfl
  · rw [htext]
    exact Path.isPathChar_of_read hpath

end Template

end Stencil
