import Stencil.Proofs.Inspection.Blanking
import Stencil.Proofs.Pattern.Matches
import Stencil.Proofs.Template.Placeholders

/-!
# What the inspection of a template sees of a program

Scripts are looked for in the text of a template, and a program puts out the literals that its tokens are made of. The
two views differ in the blocks of the template. In a template that passes, the plain text between two blocks is free of
scripts (`clean_of_scan`), as long as no note and no expression leaves a comment open. An expression of a program never
does, as it is a path (`closesComments_expression`); a note may. A literal is a row of such stretches, with nothing in
between but blocks that are dropped.

Main statement: no stretch of a literal holds a script, if no note leaves a comment open (`clean_of_passes`). A literal
of two stretches may hold one, and so may a literal behind a note that leaves a comment open
(`exists_passes_not_clean`).
-/

namespace Stencil.Inspection

open Pattern Template

/-! ## Clean text -/

/-- A text in which no rule finds a script. -/
def Clean (t : Text) : Prop := ∀ rule ∈ ScriptInjection.rules, rule.occursIn t = false

/-- A text that is inspected without a blocking issue. -/
def Passes (v : Validator) (t : Text) : Prop := ∃ report, v.validateContent t = .ok report ∧ report.isValid = true

lemma rules_least : ∀ rule ∈ ScriptInjection.rules, 0 < rule.least ∧ rule.isUnanchored = true := by decide

/-- A text is clean if it is with more text around it, from which no word goes on. -/
lemma Clean.of_append {front t behind : Text} (hfront : front.getLast?.any Text.isWordChar = false)
    (hbehind : behind.head?.any Text.isWordChar = false) (h : Clean (front ++ t ++ behind)) : Clean t := by
  intro rule hrule
  obtain ⟨hleast, hunanchored⟩ := rules_least rule hrule
  by_contra hoccurs
  rw [Bool.not_eq_false] at hoccurs
  have := occursIn_append hleast hunanchored hfront hbehind hoccurs
  rw [h rule hrule] at this
  exact Bool.noConfusion this

lemma distinct_eq_nil_iff {ms : List Match} : SignatureSet.distinct [] ms = [] ↔ ms = [] := by
  cases ms <;> simp [SignatureSet.distinct]

/-- A text that passes is clean once its directives are blanked. -/
lemma Passes.clean {v : Validator} {t : Text} (h : Passes v t) : Clean (blankDirectives t) := by
  obtain ⟨report, hreport, hvalid⟩ := h
  unfold Validator.validateContent at hreport
  split at hreport
  · simp at hreport
  rw [← Except.ok.inj hreport] at hvalid
  have hissues : ∀ issue ∈ v.contentIssues t, issue.isBlocking = false := by
    simpa [Report.ofIssues] using hvalid
  -- every issue of a signature is blocking, so the scan has found none
  have hscan : SignatureSet.scriptInjection.scan .blocking (blankDirectives t) = [] := by
    rw [List.eq_nil_iff_forall_not_mem]
    intro issue hissue
    have hblocking : issue.isBlocking = true := by
      obtain ⟨m, -, rfl⟩ := List.mem_map.1 hissue
      rfl
    have hmem : issue ∈ v.contentIssues t := by
      simp only [Validator.contentIssues, List.mem_append]
      exact .inl (.inl (.inr hissue))
    rw [hissues issue hmem] at hblocking
    exact Bool.noConfusion hblocking
  rw [SignatureSet.scan, List.map_eq_nil_iff, distinct_eq_nil_iff, SignatureSet.allMatches,
    List.flatMap_eq_nil_iff] at hscan
  intro rule hrule
  have hfound := hscan rule hrule
  rw [matchesIn_eq_findAll (rules_least rule hrule).1] at hfound
  rw [occursIn, find?_eq_head?_findAll, hfound]
  rfl

/-! ## Stretches of plain text -/

lemma eq_of_text_mem_ofText {content t : Text} (h : .text content ∈ Piece.ofText t) : content = t := by
  unfold Piece.ofText at h
  split at h
  · simp at h
  · simpa using h

/-- The plain text between the blocks of a template is clean, if the template with its directives blanked is. -/
theorem clean_of_scan {t last : Text} {pieces : List Piece} (h : Scan t pieces last) (hplain : Plain last)
    (hsealed : ∀ kind body, .block kind body ∈ pieces → kind ≠ .comment → ClosesComments body) {front : Text}
    (hfront : front.getLast?.any Text.isWordChar = false) {position : Nat} {previous : Option Char}
    (hclean : Clean (front ++ blankFrom position previous t)) :
    ∀ content, .text content ∈ pieces ++ Piece.ofText last → Clean content := by
  -- by induction on the scan: what was blanked of a block stands in front of the next text and keeps words apart
  induction h generalizing front position previous with
  | here t =>
    intro content hcontent
    obtain rfl := eq_of_text_mem_ofText hcontent
    rw [blankFrom_of_plain hplain] at hclean
    rw [← List.append_nil (front ++ content)] at hclean
    exact hclean.of_append hfront rfl
  | @block t front' behind body rest last kind pieces hopens hcloses _ ih =>
    have hmem : .block kind body ∈ Piece.ofText front' ++ .block kind body :: pieces :=
      List.mem_append_right _ List.mem_cons_self
    obtain ⟨written, position', previous', hwritten, hblank⟩ :=
      exists_blankFrom_block hopens hcloses (hsealed kind body hmem) position previous
    rw [hblank] at hclean
    intro content hcontent
    rw [List.append_assoc, List.cons_append] at hcontent
    rcases List.mem_append.1 hcontent with hcontent | hcontent
    · obtain rfl := eq_of_text_mem_ofText hcontent
      rw [← List.append_assoc] at hclean
      refine hclean.of_append hfront ?_
      rw [List.head?_append_of_ne_nil _ hwritten.ne_nil]
      exact hwritten.head
    · rw [← List.append_assoc, ← List.append_assoc] at hclean
      refine ih hplain (fun kind body hblock => ?_) ?_ hclean content (by simpa using hcontent)
      · exact hsealed kind body (List.mem_append_right _ (List.mem_cons_of_mem _ hblock))
      · rw [List.getLast?_append_of_ne_nil _ hwritten.ne_nil]
        exact hwritten.last

/-! ## Expressions -/

lemma closesComments_of_not_mem {body : Text} (h : '<' ∉ body) : ClosesComments body := by
  rintro a b rfl
  exact absurd (List.mem_append_left _ (List.mem_append_right _ List.mem_cons_self)) h

/-- The expressions of a program begin no comment. -/
theorem closesComments_expression {limits : Limits} {pieces : List Piece} {tokens : List Token} {marks : List Mark}
    (hjoined : Token.Joined (Token.separate [] pieces) tokens) (hmarks : List.Forall₂ (Reads limits) tokens marks)
    {body : Text} (hbody : .block .expression body ∈ pieces) : ClosesComments body := by
  obtain ⟨front, rest, hpieces⟩ := List.append_of_mem hbody
  have hmem : .expression (Text.trim body) (Piece.block .expression body).source
      (1 + Piece.newlines (front.flatMap Piece.source)) ∈ Token.separate [] pieces :=
    Token.mem_separate.2 ⟨front, .block .expression body, rest, hpieces, rfl⟩
  obtain ⟨mark, -, hreads⟩ := exists_mem_of_forall₂ hmarks ((hjoined.mem_iff rfl).2 hmem)
  cases hreads with
  | expression _ hpath =>
    have hinner : '<' ∉ Text.trim body := fun hmem => absurd (Path.isPathChar_of_read hpath _ hmem) (by decide)
    obtain ⟨b, b', heq, hb, hb'⟩ := Text.exists_blanks_trim body
    refine closesComments_of_not_mem fun hopen => ?_
    rw [heq, List.mem_append, List.mem_append] at hopen
    rcases hopen with (hopen | hopen) | hopen
    · exact absurd (hb _ hopen) (by decide)
    · exact hinner hopen
    · exact absurd (hb' _ hopen) (by decide)

/-! ## Literals -/

/-- The literals of a program are plain texts among its tokens. -/
lemma text_mem_of_literal {limits : Limits} {tokens : List Token} {marks : List Mark} {program : Program}
    (hmarks : List.Forall₂ (Reads limits) tokens marks) (hbuilds : Builds limits.maxNesting marks program)
    {content : Text} (h : .inl (.literal content) ∈ Program.heads program) : .text content ∈ tokens := by
  rw [hbuilds.heads_eq] at h
  obtain ⟨token, htoken, hshows⟩ := exists_mem_of_forall₂ (forall₂_shows hmarks).flip h
  obtain rfl := Shows.eq_text hshows
  exact List.mem_of_mem_filter htoken

/-- The stretches of plain text are clean in a template that passes and is a program, if no note leaves a comment
open. -/
lemma clean_of_text_mem {v : Validator} {limits : Limits} {t last : Text} {scanned : List Piece} {tokens : List Token}
    {marks : List Mark} (hpasses : Passes v t) (hscan : Scan t scanned last) (hplain : Plain last)
    (hjoined : Token.Joined (Token.separate [] (scanned ++ Piece.ofText last)) tokens)
    (hmarks : List.Forall₂ (Reads limits) tokens marks)
    (hnotes : ∀ body, .block .note body ∈ scanned ++ Piece.ofText last → ClosesComments body) {content : Text}
    (hcontent : .text content ∈ scanned ++ Piece.ofText last) : Clean content := by
  have hsealed : ∀ kind body, .block kind body ∈ scanned → kind ≠ .comment → ClosesComments body := by
    intro kind body hblock hkind
    have hpiece := List.mem_append_left (Piece.ofText last) hblock
    cases kind with
    | expression => exact closesComments_expression hjoined hmarks hpiece
    | note => exact hnotes body hpiece
    | comment => exact absurd rfl hkind
  have hclean : Clean ([] ++ blankFrom 0 none t) := by
    rw [List.nil_append, ← blankDirectives_eq]
    exact hpasses.clean
  exact clean_of_scan hscan hplain hsealed rfl hclean content hcontent

lemma passes_of_contentIssues {v : Validator} {t : Text} (hlength : Text.byteLength t ≤ v.settings.maxContentBytes)
    (h : v.contentIssues t = []) : Passes v t := by
  refine ⟨.ofIssues [], ?_, rfl⟩
  rw [Validator.validateContent, if_neg (Nat.not_lt_of_le hlength), h]

/-- In a template that passes and is a program, and whose notes leave no comment open, every literal is a row of
stretches of plain text that hold no script; if no block of the template is dropped, no literal holds one. -/
theorem clean_of_passes {v : Validator} {limits : Limits} {t : Text} {pieces : List Piece} {program : Program}
    (hpasses : Passes v t) (hprogram : Program.ofSource limits t = .ok program)
    (hpieces : Piece.ofSource 1 t = .ok pieces)
    (hnotes : ∀ body, .block .note body ∈ pieces → ClosesComments body) {content : Text}
    (hcontent : .inl (.literal content) ∈ Program.heads program) :
    (∃ contents, contents ≠ [] ∧ content = contents.flatten ∧
      contents.map Token.text <:+: Token.separate [] pieces ∧ ∀ part ∈ contents, Clean part) ∧
    ((∀ piece ∈ pieces, Token.isKept piece = true) → Clean content) := by
  obtain ⟨scanned, last, hscan, hplain, rfl⟩ := Piece.ofSource_eq_ok_iff.1 hpieces
  obtain ⟨tokens, htokens, hbuild⟩ := bind_eq_ok_iff.1 hprogram
  obtain ⟨marks, hmarks, hbuilds⟩ := Program.ofTokens_eq_ok_iff.1 hbuild
  have hjoined : Token.Joined (Token.separate [] (scanned ++ Piece.ofText last)) tokens := by
    rw [Token.ofSource_of_pieces hpieces] at htokens
    rw [← Except.ok.inj htokens]
    exact Token.joined_ofPieces [] _
  have hclean : ∀ part, .text part ∈ Token.separate [] (scanned ++ Piece.ofText last) → Clean part :=
    fun part hpart => clean_of_text_mem hpasses hscan hplain hjoined hmarks hnotes (Token.text_mem_separate.1 hpart)
  have htext := text_mem_of_literal hmarks hbuilds hcontent
  refine ⟨?_, fun hkept => ?_⟩
  · obtain ⟨contents, hne, heq, hrow⟩ := hjoined.exists_row htext
    exact ⟨contents, hne, heq, hrow, fun part hpart => hclean part (hrow.subset (List.mem_map_of_mem hpart))⟩
  · rw [Token.eq_separate_of_kept hscan hkept hjoined] at htext
    exact hclean content htext

/-- A validator of short texts that takes no data for personal. -/
def shortTexts : Validator := ⟨⟨100, 0, .warning, false⟩, PersonalData.Detector.none⟩

/-- A template with a bold text in the branch of a condition. -/
def boldBranch : Text := "<!--IF a--><b>x</b><!--END IF-->"

/-- Markup in a literal passes that the rules do not speak of. -/
theorem clean_boldBranch :
    Passes shortTexts boldBranch ∧
      Program.ofSource ⟨256, 10⟩ boldBranch = .ok [.conditional (.truthy (.path ["a"])) [.literal "<b>x</b>"] []] ∧
      Clean "<b>x</b>" := by
  have hpieces : Piece.ofSource 1 boldBranch =
      .ok [.block .comment "IF a", .text "<b>x</b>", .block .comment "END IF"] := by decide +kernel
  have hpasses : Passes shortTexts boldBranch := passes_of_contentIssues (by decide) (by decide +kernel)
  have hprogram : Program.ofSource ⟨256, 10⟩ boldBranch =
      .ok [.conditional (.truthy (.path ["a"])) [.literal "<b>x</b>"] []] := by
    rw [Program.ofSource_of_tokens (Token.ofSource_of_pieces hpieces)]
    rfl
  have hliteral : .inl (.literal "<b>x</b>") ∈
      Program.heads [.conditional (.truthy (.path ["a"])) [.literal "<b>x</b>"] []] := by
    simp [Program.heads, Program.heads.ofNode]
  exact ⟨hpasses, hprogram, (clean_of_passes hpasses hprogram hpieces (by simp) hliteral).2 (by decide)⟩

/-- A note that leaves a comment open hides the script behind it, as the directive that seems to begin in the note is
blanked up to the end of a comment far behind it. And a script that is cut in two by a note is put together again when
the note is dropped. -/
theorem exists_passes_not_clean :
    (∃ body content, Passes shortTexts "\x7b#<!--IF #\x7d<script>-->" ∧
      Piece.ofSource 1 "\x7b#<!--IF #\x7d<script>-->" = .ok [.block .note body, .text content] ∧
      Program.ofSource ⟨256, 10⟩ "\x7b#<!--IF #\x7d<script>-->" = .ok [.literal content] ∧ ¬ Clean content) ∧
    ∃ pieces content, Passes shortTexts "<scr\x7b##\x7dipt>" ∧
      Piece.ofSource 1 "<scr\x7b##\x7dipt>" = .ok pieces ∧
      Program.ofSource ⟨256, 10⟩ "<scr\x7b##\x7dipt>" = .ok [.literal content] ∧
      (∀ body, .block .note body ∈ pieces → ClosesComments body) ∧ ¬ Clean content := by
  have hscript : ∀ content, ScriptInjection.scriptOpen.occursIn content = true → ¬ Clean content := by
    intro content hoccurs hclean
    rw [hclean ScriptInjection.scriptOpen List.mem_cons_self] at hoccurs
    exact Bool.noConfusion hoccurs
  constructor
  · -- a note leaves a comment open, and the rest of the template is hidden in it
    have hpieces : Piece.ofSource 1 "\x7b#<!--IF #\x7d<script>-->" =
        .ok [.block .note "<!--IF ", .text "<script>-->"] := by decide +kernel
    refine ⟨_, _, passes_of_contentIssues (by decide) (by decide +kernel), hpieces, ?_, hscript _ (by decide +kernel)⟩
    rw [Program.ofSource_of_tokens (Token.ofSource_of_pieces hpieces)]
    rfl
  · -- a note between two halves of a tag is dropped, and the halves are joined
    have hpieces : Piece.ofSource 1 "<scr\x7b##\x7dipt>" =
        .ok [.text "<scr", .block .note [], .text "ipt>"] := by decide +kernel
    refine ⟨_, "<script>", passes_of_contentIssues (by decide) (by decide +kernel), hpieces, ?_, fun body hbody => ?_,
      hscript _ (by decide +kernel)⟩
    · rw [Program.ofSource_of_tokens (Token.ofSource_of_pieces hpieces)]
      rfl
    · obtain rfl : body = [] := by simpa using hbody
      exact closesComments_of_not_mem List.not_mem_nil

end Stencil.Inspection
