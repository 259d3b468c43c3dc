import Stencil.Proofs.Template.Joining
import Stencil.Template.Outline

/-!
# Directives are known

The tokens of a template are directives by their first word, which is one of the keywords
(`Token.cutAtBlank_mem_keywords`). So the last case in which a directive is refused, that of an unknown keyword, never
comes up: not where a token is taken (`Outline.step_ne_unknown`), and not where a template is read
(`Program.ofSource_ne_unknown`).
-/

namespace Stencil.Template

/-! ## Steps that can fail -/

/-- A sequence of steps fails in a way only if one of them does. -/
lemma bind_ne_error {ε α β : Type} {x : Except ε α} {f : α → Except ε β} {e : ε} (hx : x ≠ .error e)
    (hf : ∀ a, f a ≠ .error e) : (x >>= f) ≠ .error e := by
  cases x with
  | error e' => exact fun h => hx (congrArg Except.error (Except.error.inj h))
  | ok a => exact hf a

lemma map_ne_error {ε α β : Type} {x : Except ε α} {f : α → β} {e : ε} (hx : x ≠ .error e) :
    x.map f ≠ .error e := by
  cases x with
  | error e' => exact fun h => hx (congrArg Except.error (Except.error.inj h))
  | ok a => simp [Except.map]

/-! ## Names and conditions -/

lemma Path.identifier_ne_unknown (s : Text) : identifier s ≠ .error .unknownDirective := by
  rw [identifier]
  split
  · simp
  · split <;> simp

lemma Path.segment_ne_unknown (s : Text) : segment s ≠ .error .unknownDirective := by
  rw [segment]
  split
  · simp
  · exact identifier_ne_unknown s

lemma Path.segments_ne_unknown (parts : List Text) : segments parts ≠ .error .unknownDirective := by
  induction parts with
  | nil => simp [segments]
  | cons s rest ih =>
    exact bind_ne_error (segment_ne_unknown s) fun first => bind_ne_error ih fun later => by simp [pure, Except.pure]

lemma Path.read_ne_unknown (s : Text) : read s ≠ .error .unknownDirective := by
  rw [read]
  split
  · simp
  · exact bind_ne_error (identifier_ne_unknown _) fun first =>
      bind_ne_error (segments_ne_unknown _) fun later => by simp [pure, Except.pure]

namespace Condition

/-- An operand that cannot be read is no unknown directive. -/
lemma operand_ne_unknown (lexeme : Lexeme) : operand lexeme ≠ .error .unknownDirective := by
  cases lexeme with
  | word word =>
    rw [operand, operandOfWord]
    split
    · simp
    split
    · simp
    split
    · simp
    · exact map_ne_error (Path.read_ne_unknown word)
  | quoted t => simp [operand]
  | equals => simp [operand]
  | differs => simp [operand]

/-- A comparison that cannot be read is no unknown directive. -/
lemma comparison_ne_unknown (lexemes : List Lexeme) : comparison lexemes ≠ .error .unknownDirective := by
  unfold comparison
  split
  · exact map_ne_error (operand_ne_unknown _)
  · exact bind_ne_error (operand_ne_unknown _) fun left =>
      bind_ne_error (operand_ne_unknown _) fun right => by simp [pure, Except.pure]
  · exact bind_ne_error (operand_ne_unknown _) fun left =>
      bind_ne_error (operand_ne_unknown _) fun right => by simp [pure, Except.pure]
  · simp

lemma ofLexemes_ne_unknown (lexemes : List Lexeme) : ofLexemes lexemes ≠ .error .unknownDirective := by
  fun_induction ofLexemes lexemes with
  | case1 rest ih => exact map_ne_error ih
  | case2 word rest _ => exact comparison_ne_unknown _
  | case3 lexemes _ => exact comparison_ne_unknown _

lemma read_ne_unknown (t : Text) : read t ≠ .error .unknownDirective := by
  rw [read]
  split
  · simp
  · exact ofLexemes_ne_unknown _

end Condition

namespace Outline

lemma locate_ne_unknown {α : Type} {x : Except Defect α} (h : x ≠ .error .unknownDirective) (line line' : Nat) :
    locate line x ≠ .error (.defect line' .unknownDirective) := by
  cases x with
  | error e => exact fun heq => h (congrArg Except.error (Refusal.defect.inj (Except.error.inj heq)).2)
  | ok a => simp [locate, Except.mapError]

lemma openBlock_ne_unknown (limits : Limits) (line line' : Nat) (o : Outline) (opening : Opening) :
    openBlock limits line o opening ≠ .error (.defect line' .unknownDirective) := by
  rw [openBlock]
  split <;> simp

/-- A loop that cannot be read is no unknown directive. -/
lemma loopOf_ne_unknown (words : List Text) : loopOf words ≠ .error .unknownDirective := by
  unfold loopOf
  split
  · split
    · exact bind_ne_error (Path.identifier_ne_unknown _) fun name =>
        bind_ne_error (Path.read_ne_unknown _) fun collection => by simp [pure, Except.pure]
    · simp
  · simp

lemma turn_ne_unknown (o : Outline) : turn o ≠ .error .unknownDirective := by
  unfold turn
  split <;> simp

lemma closeBlock_ne_unknown (o : Outline) (keyword : Text) : closeBlock o keyword ≠ .error .unknownDirective := by
  unfold closeBlock
  split
  · simp
  · split <;> simp

lemma substitution_ne_unknown (inner raw : Text) : substitution inner raw ≠ .error .unknownDirective := by
  rw [substitution]
  split
  · simp
  · exact map_ne_error (Path.read_ne_unknown inner)

/-- A directive with one of the keywords is never called unknown. -/
lemma directive_ne_unknown {keyword : Text} (hkeyword : keyword ∈ Token.keywords) (limits : Limits) (line line' : Nat)
    (o : Outline) (rest : Text) :
    directive limits line o keyword rest ≠ .error (.defect line' .unknownDirective) := by
  unfold directive
  split
  · exact bind_ne_error (locate_ne_unknown (loopOf_ne_unknown _) _ _) fun opening => openBlock_ne_unknown _ _ _ _ _
  split
  · split
    · simp
    · exact bind_ne_error (locate_ne_unknown (Condition.read_ne_unknown _) _ _) fun condition =>
        openBlock_ne_unknown _ _ _ _ _
  split
  · split
    · simp
    · exact locate_ne_unknown (turn_ne_unknown o) _ _
  split
  · exact bind_ne_error (locate_ne_unknown (Path.identifier_ne_unknown _) _ _)
      fun name => openBlock_ne_unknown _ _ _ _ _
  split
  · dsimp only
    split <;> simp
  split
  · exact locate_ne_unknown (closeBlock_ne_unknown o rest) _ _
  · simp_all [Token.keywords]

/-- A token whose keyword is known never ends in an unknown directive. -/
theorem step_ne_unknown {token : Token}
    (h : ∀ body line, token = .directive body line → (Text.cutAtBlank body).1 ∈ Token.keywords) (limits : Limits)
    (line' : Nat) (o : Outline) : step limits o token ≠ .error (.defect line' .unknownDirective) := by
  cases token with
  | text content => simp [step]
  | expression inner raw line =>
    rw [step]
    split
    · simp
    · exact map_ne_error (locate_ne_unknown (substitution_ne_unknown inner raw) _ _)
  | directive body line =>
    rw [step]
    split
    · simp
    · exact directive_ne_unknown (h body line rfl) _ _ _ _ _

lemma finish_ne_unknown (o : Outline) (line : Nat) : finish o ≠ .error (.defect line .unknownDirective) := by
  unfold finish
  split <;> simp

end Outline

/-! ## Templates -/

lemma Token.isWord_of_mem_keywords {keyword : Text} (h : keyword ∈ keywords) : Text.IsWord keyword := by
  have hall : ∀ keyword ∈ keywords, keyword ≠ [] ∧ keyword.all (!Text.isBlank ·) = true := by decide
  obtain ⟨hne, hletters⟩ := hall keyword h
  exact ⟨hne, fun c hc => by simpa using List.all_eq_true.1 hletters c hc⟩

/-- A comment is a directive if behind blanks there is a keyword, and a blank or nothing behind that. -/
lemma Token.isDirective_iff {body : Text} :
    isDirective body = true ↔
      ∃ blank keyword more, body = blank ++ keyword ++ more ∧ Text.Blanks blank ∧ keyword ∈ keywords ∧
        Text.Parted more := by
  have hhead : isDirective body = true ↔ ∃ keyword ∈ keywords, (Text.words body).head? = some keyword := by
    rw [isDirective]
    cases Text.words body <;> simp
  rw [hhead]
  constructor
  · rintro ⟨keyword, hkeyword, hfirst⟩
    obtain ⟨blank, more, heq, hblank, -, hparted⟩ := Text.head?_words_eq_some_iff.1 hfirst
    exact ⟨blank, keyword, more, heq, hblank, hkeyword, hparted⟩
  · rintro ⟨blank, keyword, more, heq, hblank, hkeyword, hparted⟩
    have hword := isWord_of_mem_keywords hkeyword
    exact ⟨keyword, hkeyword, Text.head?_words_eq_some_iff.2 ⟨blank, more, heq, hblank, hword, hparted⟩⟩

lemma Token.isDirective_trim (body : Text) : isDirective (Text.trim body) = isDirective body := by
  rw [isDirective, isDirective, Text.words_trim]

/-- The first word of a directive is a keyword, and nothing stands in front of it. -/
theorem Token.cutAtBlank_mem_keywords {t body : Text} {tokens : List Token} {line : Nat} (h : ofSource t = .ok tokens)
    (hbody : .directive body line ∈ tokens) : (Text.cutAtBlank body).1 ∈ keywords := by
  obtain ⟨scanned, last, -, -, hjoined⟩ := ofSource_eq_ok_iff.1 h
  obtain ⟨front, piece, rest, -, hpiece⟩ := mem_separate.1 ((hjoined.mem_iff rfl).1 hbody)
  obtain ⟨comment, hdirective, rfl⟩ : ∃ comment, isDirective (Text.trim comment) = true ∧ body = Text.trim comment := by
    rcases piece with content | ⟨kind, comment⟩
    · simp [ofPiece?] at hpiece
    · cases kind with
      | expression => simp [ofPiece?] at hpiece
      | note => simp [ofPiece?] at hpiece
      | comment =>
        rw [ofPiece?] at hpiece
        split at hpiece
        · rename_i hdirective
          exact ⟨comment, hdirective, (Token.directive.inj (Option.some.inj hpiece)).1.symm⟩
        · simp at hpiece
  obtain ⟨blank, keyword, more, heq, hblank, hkeyword, hparted⟩ := isDirective_iff.1 hdirective
  -- nothing is in front of the keyword, for the text is trimmed
  obtain rfl : blank = [] := by
    cases blank with
    | nil => rfl
    | cons c blank =>
      have hhead := Text.head?_trim (t := comment) (c := c) (by rw [heq]; rfl)
      rw [hblank c List.mem_cons_self] at hhead
      simp at hhead
  rw [heq, List.nil_append, Text.cutAtBlank_append (isWord_of_mem_keywords hkeyword).2 hparted]
  exact hkeyword

/-- Tokens whose keywords are all known never end in an unknown directive. -/
lemma Outline.foldlM_ne_unknown {tokens : List Token}
    (h : ∀ body line, .directive body line ∈ tokens → (Text.cutAtBlank body).1 ∈ Token.keywords) (limits : Limits)
    (line : Nat) (o : Outline) : tokens.foldlM (step limits) o ≠ .error (.defect line .unknownDirective) := by
  induction tokens generalizing o with
  | nil => simp [pure, Except.pure]
  | cons token tokens ih =>
    rw [List.foldlM_cons]
    refine bind_ne_error (step_ne_unknown ?_ limits line o) (ih fun body line' hbody => ?_)
    · rintro body line' rfl
      exact h body line' List.mem_cons_self
    · exact h body line' (List.mem_cons_of_mem _ hbody)

/-- No template is refused because a directive were unknown. -/
theorem Program.ofSource_ne_unknown (limits : Limits) (t : Text) (line : Nat) :
    ofSource limits t ≠ .error (.defect line .unknownDirective) := by
  rw [ofSource]
  cases htokens : Token.ofSource t with
  | error refusal =>
    obtain ⟨scanned, last, front, kind, behind, -, -, -, rfl⟩ :=
      Piece.ofSource_eq_error_iff.1 (Token.ofSource_eq_error_iff.1 htokens)
    simp [bind, Except.bind]
  | ok tokens =>
    have hknown : ∀ body line, .directive body line ∈ tokens → (Text.cutAtBlank body).1 ∈ Token.keywords :=
      fun _ _ => Token.cutAtBlank_mem_keywords htokens
    show ofTokens limits tokens ≠ _
    rw [ofTokens]
    exact bind_ne_error (Outline.foldlM_ne_unknown hknown limits line .empty) fun o => o.finish_ne_unknown line

end Stencil.Template
