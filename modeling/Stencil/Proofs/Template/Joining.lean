import Stencil.Fault
import Stencil.Proofs.Template.Scanning

/-!
# From pieces to tokens

The tokens of a template against its scan. Each piece that is kept becomes one token, whose line is read off the text
in front of the piece (`separate`); then every row of plain texts becomes a single one (`Joined`).

Main statement: the tokens of a template are the joined tokens of its scan, and a template is refused on the line of
the first opener without a closer (`ofSource_joins_scan`).
-/

namespace Stencil.Template.Token

/-! ## One token for each piece -/

/-- Whether a token is plain text. -/
def isText : Token → Bool
  | .text _ => true
  | .expression _ _ _ => false
  | .directive _ _ => false

/-- The token of a piece behind some text, unless the piece is dropped. Its line is one more than the newlines in front
of it. -/
def ofPiece? (before : Text) : Piece → Option Token
  | .text content => some (.text content)
  | .block .expression body =>
    some (.expression (Text.trim body) (Piece.block .expression body).source (1 + Piece.newlines before))
  | .block .note _ => none
  | .block .comment body =>
    if isDirective (Text.trim body) then some (.directive (Text.trim body) (1 + Piece.newlines before)) else none

/-- The tokens of pieces behind some text, with plain texts left apart. -/
def separate (before : Text) : List Piece → List Token
  | [] => []
  | piece :: rest => (ofPiece? before piece).toList ++ separate (before ++ piece.source) rest

/-- To separate the blocks leaves the texts between them. -/
lemma text_mem_separate {before : Text} {pieces : List Piece} {content : Text} :
    .text content ∈ separate before pieces ↔ .text content ∈ pieces := by
  induction pieces generalizing before with
  | nil => simp [separate]
  | cons piece rest ih =>
    rw [separate, List.mem_append, ih, List.mem_cons, Option.mem_toList]
    refine or_congr ?_ Iff.rfl
    cases piece with
    | text content' => simp [ofPiece?, eq_comm]
    | block kind body =>
      cases kind with
      | expression => simp [ofPiece?]
      | note => simp [ofPiece?]
      | comment =>
        rw [ofPiece?]
        split <;> simp

/-- Each token is that of a piece, behind what stands in front of the piece. -/
lemma mem_separate {before : Text} {pieces : List Piece} {token : Token} :
    token ∈ separate before pieces ↔ ∃ front piece rest,
      pieces = front ++ piece :: rest ∧ ofPiece? (before ++ front.flatMap Piece.source) piece = some token := by
  induction pieces generalizing before with
  | nil => simp [separate]
  | cons first pieces ih =>
    rw [separate, List.mem_append, ih, Option.mem_toList]
    constructor
    · rintro (hfirst | ⟨front, piece, rest, rfl, hpiece⟩)
      · exact ⟨[], first, pieces, rfl, by simpa using hfirst⟩
      · exact ⟨first :: front, piece, rest, rfl, by simpa using hpiece⟩
    · rintro ⟨front, piece, rest, heq, hpiece⟩
      cases front with
      | nil =>
        obtain ⟨rfl, rfl⟩ := List.cons.inj heq
        exact .inl (by simpa using hpiece)
      | cons first' front =>
        obtain ⟨rfl, rfl⟩ := List.cons.inj heq
        exact .inr ⟨front, piece, rest, rfl, by simpa using hpiece⟩

/-! ## Joining -/

/-- Tokens do not go on with plain text. -/
def Stops (tokens : List Token) : Prop := ∀ token, tokens.head? = some token → token.isText = false

/-- The second tokens are the first with each row of plain texts made one. -/
inductive Joined : List Token → List Token → Prop
  | nil : Joined [] []
  | keep {token : Token} (htoken : token.isText = false) {tokens joined : List Token} (h : Joined tokens joined) :
    Joined (token :: tokens) (token :: joined)
  | join {contents : List Text} (hcontents : contents ≠ []) {tokens joined : List Token} (hstops : Stops tokens)
    (h : Joined tokens joined) : Joined (contents.map .text ++ tokens) (.text contents.flatten :: joined)

/-- What does not start with text does not start with text when it is joined. -/
lemma Joined.stops {tokens joined : List Token} (h : Joined tokens joined) (hstops : Stops tokens) :
    Stops joined := by
  intro token htoken
  cases h with
  | nil => simp at htoken
  | keep hother _ =>
    rw [List.head?_cons, Option.some.injEq] at htoken
    rwa [← htoken]
  | @join contents hcontents tokens joined _ _ =>
    -- a row of texts begins with one
    obtain ⟨content, more, rfl⟩ := List.exists_cons_of_ne_nil hcontents
    exact absurd (hstops (.text content) rfl) (by simp [isText])

/-- In front of something else than text, a text stays one of its own. -/
lemma consText_of_stops {content : Text} {tokens : List Token} (h : Stops tokens) :
    consText content tokens = .text content :: tokens := by
  cases tokens with
  | nil => rfl
  | cons token rest =>
    have htoken := h token rfl
    cases token <;> simp_all [consText, isText]

/-- Putting a text in front of joined tokens joins it as well. -/
lemma joined_consText {content : Text} {tokens joined : List Token} (h : Joined tokens joined) :
    Joined (.text content :: tokens) (consText content joined) := by
  have hsingle : ∀ {tokens joined : List Token}, Stops tokens → Joined tokens joined →
      Joined (.text content :: tokens) (consText content joined) := by
    intro tokens joined hstops h
    rw [consText_of_stops (h.stops hstops)]
    have := Joined.join (List.cons_ne_nil content []) hstops h
    rwa [List.flatten_singleton] at this
  cases h with
  | nil => exact hsingle (by simp [Stops]) .nil
  | keep htoken h => exact hsingle (by simpa [Stops] using htoken) (.keep htoken h)
  | @join contents hcontents tokens joined hstops h =>
    exact .join (List.cons_ne_nil content contents) hstops h

/-- The tokens of pieces are one for each piece, joined. -/
lemma joined_ofPieces (before : Text) (pieces : List Piece) :
    Joined (separate before pieces) (ofPieces (1 + Piece.newlines before) pieces) := by
  induction pieces generalizing before with
  | nil => exact .nil
  | cons piece rest ih =>
    have hlater := ih (before ++ piece.source)
    rw [Piece.newlines_append, ← Nat.add_assoc] at hlater
    cases piece with
    | text content => exact joined_consText hlater
    | block kind body =>
      cases kind with
      | expression => exact .keep rfl hlater
      | note => exact hlater
      | comment =>
        rw [separate, ofPiece?, ofPieces]
        split
        · exact .keep rfl hlater
        · exact hlater

/-- Joining by putting one token after the other in front. -/
def joinAll (tokens : List Token) : List Token :=
  tokens.foldr (fun token later => match token with
    | .text content => consText content later
    | token => token :: later) []

/-- What is no text stays a token of its own. -/
lemma joinAll_cons_of_isText {token : Token} (h : token.isText = false) (tokens : List Token) :
    joinAll (token :: tokens) = token :: joinAll tokens := by
  cases token with
  | text content => simp [isText] at h
  | expression inner raw line => rfl
  | directive body line => rfl

/-- There is one way to join tokens. -/
lemma Joined.eq_joinAll {tokens joined : List Token} (h : Joined tokens joined) : joined = joinAll tokens := by
  induction h with
  | nil => rfl
  | keep htoken _ ih => rw [joinAll_cons_of_isText htoken, ih]
  | @join contents hcontents tokens joined hstops h ih =>
    have hbehind := h.stops hstops
    clear h hstops
    induction contents with
    | nil => exact absurd rfl hcontents
    | cons content contents ihrow =>
      show _ = consText content (joinAll (contents.map .text ++ tokens))
      by_cases hne : contents = []
      · subst hne
        rw [List.map_nil, List.nil_append, ← ih, consText_of_stops hbehind, List.flatten_singleton]
      · rw [← ihrow hne]
        rfl

/-- Tokens can be joined in one way only. -/
lemma Joined.unique {tokens joined joined' : List Token} (h : Joined tokens joined) (h' : Joined tokens joined') :
    joined = joined' := by
  rw [h.eq_joinAll, h'.eq_joinAll]

/-! ## What joining leaves -/

/-- Joining keeps every token that is no plain text, and adds none. -/
lemma Joined.mem_iff {tokens joined : List Token} (h : Joined tokens joined) {token : Token}
    (htoken : token.isText = false) : token ∈ joined ↔ token ∈ tokens := by
  induction h with
  | nil => rfl
  | keep _ _ ih => rw [List.mem_cons, List.mem_cons, ih]
  | @join contents _ tokens joined _ _ ih =>
    have hcontents : ∀ content, token ≠ .text content := by
      rintro content rfl
      simp [isText] at htoken
    rw [List.mem_cons, List.mem_append, ih, List.mem_map]
    simp [hcontents, fun content => (hcontents content).symm]

/-- A joined text is a row of texts that stood side by side. -/
lemma Joined.exists_row {tokens joined : List Token} (h : Joined tokens joined) {content : Text}
    (hcontent : .text content ∈ joined) :
    ∃ contents, contents ≠ [] ∧ content = contents.flatten ∧ contents.map Token.text <:+: tokens := by
  induction h with
  | nil => exact absurd hcontent List.not_mem_nil
  | @keep token htoken tokens joined _ ih =>
    rcases List.mem_cons.1 hcontent with rfl | hcontent
    · simp [isText] at htoken
    · obtain ⟨contents, hne, heq, hrow⟩ := ih hcontent
      exact ⟨contents, hne, heq, hrow.trans (List.suffix_cons token tokens).isInfix⟩
  | @join contents hcontents tokens joined _ _ ih =>
    rcases List.mem_cons.1 hcontent with heq | hcontent
    · exact ⟨contents, hcontents, Token.text.inj heq, (List.prefix_append _ _).isInfix⟩
    · obtain ⟨contents', hne, heq, hrow⟩ := ih hcontent
      exact ⟨contents', hne, heq, hrow.trans (List.suffix_append _ tokens).isInfix⟩

/-- No two plain texts are side by side after joining. -/
lemma Joined.isChain {tokens joined : List Token} (h : Joined tokens joined) :
    joined.IsChain fun a b => ¬ (a.isText = true ∧ b.isText = true) := by
  induction h with
  | nil => exact .nil
  | keep htoken _ ih => exact ih.cons fun next _ hboth => by simp [htoken] at hboth
  | join _ hstops h ih =>
    refine ih.cons fun next hnext hboth => ?_
    rw [h.stops hstops next hnext] at hboth
    exact absurd hboth.2 (by decide)

/-- A joined text is empty only if one that it is made of is. -/
lemma Joined.ne_nil {tokens joined : List Token} (h : Joined tokens joined)
    (hne : ∀ content, .text content ∈ tokens → content ≠ []) : ∀ content, .text content ∈ joined → content ≠ [] := by
  induction h with
  | nil => exact fun content hcontent => absurd hcontent List.not_mem_nil
  | @keep token htoken tokens joined _ ih =>
    intro content hcontent
    rcases List.mem_cons.1 hcontent with rfl | hcontent
    · simp [isText] at htoken
    · exact ih (fun content' h' => hne content' (List.mem_cons_of_mem _ h')) content hcontent
  | @join contents hcontents tokens joined _ _ ih =>
    intro content hcontent
    rcases List.mem_cons.1 hcontent with heq | hcontent
    · obtain rfl := Token.text.inj heq
      obtain ⟨first, more, rfl⟩ := List.exists_cons_of_ne_nil hcontents
      have hfirst : first ≠ [] := hne first List.mem_cons_self
      simp [hfirst]
    · exact ih (fun content' h' => hne content' (List.mem_append_right _ h')) content hcontent

lemma ne_nil_of_text_mem_ofText {content t : Text} (h : .text content ∈ Piece.ofText t) : content ≠ [] := by
  unfold Piece.ofText at h
  split at h <;> simp_all

/-- No piece of a scan is an empty text. -/
lemma ne_nil_of_text_mem_scan {t last content : Text} {pieces : List Piece} (h : Scan t pieces last)
    (hcontent : .text content ∈ pieces) : content ≠ [] := by
  induction h with
  | here t => exact absurd hcontent List.not_mem_nil
  | block _ _ _ ih =>
    rcases List.mem_append.1 hcontent with hcontent | hcontent
    · exact ne_nil_of_text_mem_ofText hcontent
    · exact ih (by simpa using hcontent)

/-! ## The tokens of a template -/

lemma ofSource_eq_map (t : Text) : ofSource t = (Piece.ofSource 1 t).map (ofPieces 1) := rfl

lemma ofSource_of_pieces {t : Text} {pieces : List Piece} (h : Piece.ofSource 1 t = .ok pieces) :
    ofSource t = .ok (ofPieces 1 pieces) := by
  rw [ofSource_eq_map, h]
  rfl

/-- The tokens of a template are one for each piece of its scan that is kept, with adjacent texts joined. -/
lemma ofSource_eq_ok_iff {t : Text} {tokens : List Token} :
    ofSource t = .ok tokens ↔
      ∃ scanned last,
        Scan t scanned last ∧ Plain last ∧ Joined (separate [] (scanned ++ Piece.ofText last)) tokens := by
  have hmap : ofSource t = .ok tokens ↔ ∃ pieces, Piece.ofSource 1 t = .ok pieces ∧ ofPieces 1 pieces = tokens := by
    rw [ofSource_eq_map]
    cases Piece.ofSource 1 t <;> simp [Except.map]
  rw [hmap]
  constructor
  · rintro ⟨pieces, hpieces, rfl⟩
    obtain ⟨scanned, last, hscan, hplain, rfl⟩ := Piece.ofSource_eq_ok_iff.1 hpieces
    exact ⟨scanned, last, hscan, hplain, joined_ofPieces [] _⟩
  · rintro ⟨scanned, last, hscan, hplain, hjoined⟩
    exact ⟨_, Piece.ofSource_eq_ok_iff.2 ⟨scanned, last, hscan, hplain, rfl⟩, (joined_ofPieces [] _).unique hjoined⟩

lemma ofSource_eq_error_iff {t : Text} {refusal : Refusal} :
    ofSource t = .error refusal ↔ Piece.ofSource 1 t = .error refusal := by
  rw [ofSource_eq_map]
  cases Piece.ofSource 1 t <;> simp [Except.map]

/-- No text among the tokens is empty. -/
lemma ne_nil_of_text_mem_ofSource {t content : Text} {tokens : List Token} (h : ofSource t = .ok tokens)
    (hcontent : .text content ∈ tokens) : content ≠ [] := by
  obtain ⟨scanned, last, hscan, -, hjoined⟩ := ofSource_eq_ok_iff.1 h
  refine hjoined.ne_nil (fun content hcontent => ?_) content hcontent
  rcases List.mem_append.1 (text_mem_separate.1 hcontent) with hcontent | hcontent
  · exact ne_nil_of_text_mem_scan hscan hcontent
  · exact ne_nil_of_text_mem_ofText hcontent

lemma isChain_ofSource {t : Text} {tokens : List Token} (h : ofSource t = .ok tokens) :
    tokens.IsChain fun a b => ¬ (a.isText = true ∧ b.isText = true) := by
  obtain ⟨_, _, -, -, hjoined⟩ := ofSource_eq_ok_iff.1 h
  exact hjoined.isChain

/-- A template is scanned to its end, and its tokens are those of the scan, joined; or it is refused, in words that name
the line of the first opener without a closer. No token is an empty text, and no two texts are side by side. -/
theorem ofSource_joins_scan (t : Text) :
    (∀ tokens, ofSource t = .ok tokens ↔
      ∃ scanned last, Scan t scanned last ∧ Plain last ∧ (scanned ++ Piece.ofText last).flatMap Piece.source = t ∧
        Joined (separate [] (scanned ++ Piece.ofText last)) tokens) ∧
    (∀ refusal, ofSource t = .error refusal ↔
      ∃ scanned last front kind behind, Scan t scanned last ∧ Opens last front kind behind ∧
        ¬ kind.closer <:+: behind ∧
        refusal = .defect (1 + Piece.newlines (scanned.flatMap Piece.source ++ front)) (.unterminated kind) ∧
        (Fault.ofRefusal refusal).message =
          "template syntax error: " ++
            ("line " ++ Text.ofNat (1 + Piece.newlines (scanned.flatMap Piece.source ++ front)) ++ ": " ++
              ("unterminated " ++ kind.label))) ∧
    ∀ tokens, ofSource t = .ok tokens →
      (∀ content, .text content ∈ tokens → content ≠ []) ∧
        tokens.IsChain fun a b => ¬ (a.isText = true ∧ b.isText = true) := by
  -- both directions are those of the scan; what is left to say are the source and the message
  refine ⟨fun tokens => ?_, fun refusal => ?_, fun tokens htokens =>
    ⟨fun content hcontent => ne_nil_of_text_mem_ofSource htokens hcontent, isChain_ofSource htokens⟩⟩
  · rw [ofSource_eq_ok_iff]
    constructor
    · rintro ⟨scanned, last, hscan, hplain, hjoined⟩
      refine ⟨scanned, last, hscan, hplain, ?_, hjoined⟩
      rw [List.flatMap_append, Piece.flatten_ofText, ← hscan.eq_append]
    · rintro ⟨scanned, last, hscan, hplain, -, hjoined⟩
      exact ⟨scanned, last, hscan, hplain, hjoined⟩
  · rw [ofSource_eq_error_iff, Piece.ofSource_eq_error_iff]
    constructor
    · rintro ⟨scanned, last, front, kind, behind, hscan, hopens, hclose, rfl⟩
      exact ⟨scanned, last, front, kind, behind, hscan, hopens, hclose, rfl, rfl⟩
    · rintro ⟨scanned, last, front, kind, behind, hscan, hopens, hclose, hrefusal, -⟩
      exact ⟨scanned, last, front, kind, behind, hscan, hopens, hclose, hrefusal⟩

/-! ## Templates without dropped blocks -/

/-- Whether a piece becomes a token. -/
def isKept (piece : Piece) : Bool := (ofPiece? [] piece).isSome

/-- A piece that is kept becomes a token, and text stays text. -/
lemma exists_ofPiece? {piece : Piece} (h : isKept piece = true) (before : Text) :
    ∃ token, ofPiece? before piece = some token ∧ token.isText = piece.isText := by
  cases piece with
  | text content => exact ⟨_, rfl, rfl⟩
  | block kind body =>
    cases kind with
    | expression => exact ⟨_, rfl, rfl⟩
    | note => simp [isKept, ofPiece?] at h
    | comment =>
      have hdirective : isDirective (Text.trim body) = true := by
        by_contra hnot
        simp [isKept, ofPiece?, hnot] at h
      exact ⟨.directive (Text.trim body) (1 + Piece.newlines before), by rw [ofPiece?, if_pos hdirective], rfl⟩

/-- If all pieces are kept and no two texts are side by side, it is the same with their tokens. -/
lemma isChain_separate {pieces : List Piece}
    (hchain : pieces.IsChain fun a b => ¬ (a.isText = true ∧ b.isText = true))
    (hkept : ∀ piece ∈ pieces, isKept piece = true) (before : Text) :
    (separate before pieces).IsChain fun a b => ¬ (a.isText = true ∧ b.isText = true) := by
  induction pieces generalizing before with
  | nil => exact .nil
  | cons piece rest ih =>
    obtain ⟨token, htoken, htext⟩ := exists_ofPiece? (hkept piece List.mem_cons_self) before
    have hlater := ih hchain.tail (fun next hnext => hkept next (List.mem_cons_of_mem _ hnext)) (before ++ piece.source)
    rw [separate, htoken]
    refine hlater.cons fun next hnext => ?_
    cases rest with
    | nil => simp [separate] at hnext
    | cons piece' rest =>
      obtain ⟨token', htoken', htext'⟩ :=
        exists_ofPiece? (hkept piece' (List.mem_cons_of_mem _ List.mem_cons_self)) (before ++ piece.source)
      obtain rfl : token' = next := by simpa [separate, htoken'] using hnext
      rw [htext, htext']
      exact (List.isChain_cons_cons.1 hchain).1

/-- Tokens without texts side by side are joined already. -/
lemma joined_self {tokens : List Token} (h : tokens.IsChain fun a b => ¬ (a.isText = true ∧ b.isText = true)) :
    Joined tokens tokens := by
  induction tokens with
  | nil => exact .nil
  | cons token rest ih =>
    have hrest := ih h.tail
    cases htoken : token.isText with
    | false => exact .keep htoken hrest
    | true =>
      obtain ⟨content, rfl⟩ : ∃ content, token = .text content := by
        cases token <;> simp_all [isText]
      have hstops : Stops rest := by
        intro next hnext
        cases rest with
        | nil => simp at hnext
        | cons token' rest =>
          obtain rfl : token' = next := by simpa using hnext
          simpa [isText] using (List.isChain_cons_cons.1 h).1
      have := Joined.join (List.cons_ne_nil content []) hstops hrest
      rwa [List.flatten_singleton] at this

/-- The tokens of a template all of whose blocks are kept are one for each piece. -/
lemma eq_separate_of_kept {t : Text} {scanned : List Piece} {last : Text} {tokens : List Token}
    (hscan : Scan t scanned last) (hkept : ∀ piece ∈ scanned ++ Piece.ofText last, isKept piece = true)
    (hjoined : Joined (separate [] (scanned ++ Piece.ofText last)) tokens) :
    tokens = separate [] (scanned ++ Piece.ofText last) :=
  hjoined.unique (joined_self (isChain_separate hscan.isChain hkept []))

end Stencil.Template.Token
