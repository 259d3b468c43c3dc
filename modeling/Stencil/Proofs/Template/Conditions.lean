import Mathlib.Logic.Function.Iterate
import Stencil.Fault
import Stencil.Proofs.Json.Reading
import Stencil.Proofs.Template.Lexemes
import Stencil.Proofs.Template.Shape
import Stencil.Proofs.Text.Letters

/-!
# The grammar of conditions

A condition is any number of words `not` and behind them one operand, or two with a sign of comparison between them
(`Says`). An operand is a quoted text, a truth value, an integer of sixty-four bits, or a path (`Spells`).

Main statement: just what this grammar says is read as a condition; every other text is refused as a defect on its line,
and a condition that is written out, with whatever blanks, is read back (`read_iff_said`).
-/

namespace Stencil.Template

/-! ## Paths -/

namespace Path

/-- An identifier is read as itself. -/
lemma identifier_eq_ok {s : Text} (h : IsIdentifier s) : identifier s = .ok s := by
  obtain ⟨c, rest, rfl, hfirst⟩ := h.first
  have hrest : rest.all Text.isNameChar = true := by
    refine List.all_eq_true.2 fun d hd => ?_
    simpa [Text.isNameChar] using h.chars d (List.mem_cons_of_mem _ hd)
  have hname : Text.isName (c :: rest) = true := by simpa [Text.isName, hrest] using hfirst
  have hreserved : ((c :: rest).take 2 == ['_', '_']) = false := by
    rw [Bool.eq_false_iff]
    exact fun heq => h.unreserved (eq_of_beq heq ▸ List.take_prefix 2 _)
  rw [identifier, hname, hreserved]
  rfl

/-- An identifier or an index is read as a segment. -/
lemma segment_eq_ok {s : Text} (h : IsIdentifier s ∨ IsIndex s) : segment s = .ok s := by
  rw [segment]
  split
  · rfl
  · rename_i hdigits
    rcases h with hname | hindex
    · exact identifier_eq_ok hname
    · exact absurd (by simpa [IsIndex] using hindex) hdigits

/-- Segments that are fine one by one are fine as a row. -/
lemma segments_eq_ok {parts : List Text} (h : ∀ s ∈ parts, IsIdentifier s ∨ IsIndex s) :
    segments parts = .ok parts := by
  induction parts with
  | nil => rfl
  | cons s parts ih =>
    obtain ⟨hfirst, hrest⟩ := List.forall_mem_cons.1 h
    rw [segments, segment_eq_ok hfirst, ih hrest]
    rfl

lemma point_not_mem {s : Text} (h : IsIdentifier s ∨ IsIndex s) : '.' ∉ s := by
  intro hpoint
  rcases h with hname | hindex
  · rcases hname.chars '.' hpoint with h | h
    · exact absurd h (by decide)
    · exact absurd h (by decide)
  · exact absurd (hindex.2 '.' hpoint) (by decide)

/-- A text is read as the path that it writes, if that is well formed, and as no other. -/
lemma read_eq_ok_iff {s : Text} {path : Path} : read s = .ok path ↔ path.WellFormed ∧ path.text = s := by
  refine ⟨fun h => ⟨wellFormed_of_read h, (text_of_read h).2⟩, ?_⟩
  rintro ⟨⟨name, rest, rfl, hname, hrest⟩, rfl⟩
  have hparts : ∀ s ∈ name :: rest, '.' ∉ s :=
    List.forall_mem_cons.2 ⟨point_not_mem (.inl hname), fun s hs => point_not_mem (hrest s hs)⟩
  rw [read, text, Text.split_join (List.cons_ne_nil _ _) hparts]
  simp only [identifier_eq_ok hname, segments_eq_ok hrest]
  rfl

/-- A path begins as its name does. -/
lemma exists_head_of_wellFormed {path : Path} (h : path.WellFormed) :
    ∃ c rest, path.text = c :: rest ∧ (c.isAlpha = true ∨ c = '_') := by
  obtain ⟨name, rest, rfl, hname, -⟩ := h
  obtain ⟨c, behind, rfl, hc⟩ := hname.first
  cases rest with
  | nil => exact ⟨c, behind, rfl, hc⟩
  | cons next rest =>
    refine ⟨c, behind ++ ['.'] ++ Text.join ['.'] (next :: rest), ?_, hc⟩
    rw [text, Text.join_cons]
    rfl

end Path

/-! ## Operands that can be written -/

/-- Whether an operand can be written: a path that is well formed and no truth value, an integer of sixty-four bits, a
text that has no quotes of one kind, or a truth value. -/
def Operand.Sayable : Operand → Prop
  | .path p => p.WellFormed ∧ p.text ≠ "true".toList ∧ p.text ≠ "false".toList
  | .text content => '"' ∉ content ∨ '\'' ∉ content
  | .int i => -(Word.negatives : Int) ≤ i ∧ i < Word.negatives
  | .bool _ => True

namespace Condition

/-! ## Integers -/

/-- An integer in writing: decimal digits, with a sign or without one. -/
inductive WritesInt : Text → Int → Prop
  | plain {digits : Text} (hdigits : IsIndex digits) : WritesInt digits (Text.digitsValue digits)
  | plus {digits : Text} (hdigits : IsIndex digits) : WritesInt ('+' :: digits) (Text.digitsValue digits)
  | minus {digits : Text} (hdigits : IsIndex digits) : WritesInt ('-' :: digits) (-(Text.digitsValue digits : Int))

/-- Digits are read as the number they write, and nothing else is read as a number. -/
lemma toNat?_eq_some_iff {t : Text} {n : Nat} : Text.toNat? t = some n ↔ IsIndex t ∧ Text.digitsValue t = n := by
  rw [Text.toNat?]
  split
  · rename_i h
    have hindex : IsIndex t := by simpa [IsIndex] using h
    simp [hindex]
  · rename_i h
    have hindex : ¬ IsIndex t := by simpa [IsIndex] using h
    simp [hindex]

lemma exists_head_of_isIndex {t : Text} (h : IsIndex t) : ∃ c rest, t = c :: rest ∧ c.isDigit = true := by
  obtain ⟨c, rest, rfl⟩ := List.exists_cons_of_ne_nil h.1
  exact ⟨c, rest, rfl, h.2 c List.mem_cons_self⟩

lemma toInt?_minus (digits : Text) :
    Text.toInt? ('-' :: digits) = Option.map (fun n : Nat => -(n : Int)) (Text.toNat? digits) := by
  rw [Text.toInt?]
  cases Text.toNat? digits <;> rfl

/-- Without a minus sign in front an integer is a natural number. -/
lemma toInt?_of_head {t : Text} (h : t.head? ≠ some '-') :
    Text.toInt? t = Option.map (fun n : Nat => (n : Int)) (Text.toNatSigned? t) := by
  rw [Text.toInt?]
  · cases Text.toNatSigned? t <;> rfl
  · rintro digits rfl
    exact h rfl

lemma toNatSigned?_of_head {t : Text} (h : t.head? ≠ some '+') : Text.toNatSigned? t = Text.toNat? t := by
  rw [Text.toNatSigned?]
  rintro digits rfl
  exact h rfl

/-- A text is read as the integer it writes, and nothing else is read as an integer. -/
lemma toInt?_eq_some_iff {t : Text} {i : Int} : Text.toInt? t = some i ↔ WritesInt t i := by
  constructor
  · intro h
    by_cases hminus : t.head? = some '-'
    · obtain ⟨digits, rfl⟩ := List.head?_eq_some_iff.1 hminus
      rw [toInt?_minus] at h
      obtain ⟨n, hn, rfl⟩ := Option.map_eq_some_iff.1 h
      obtain ⟨hdigits, rfl⟩ := toNat?_eq_some_iff.1 hn
      exact .minus hdigits
    rw [toInt?_of_head hminus] at h
    obtain ⟨n, hn, rfl⟩ := Option.map_eq_some_iff.1 h
    by_cases hplus : t.head? = some '+'
    · obtain ⟨digits, rfl⟩ := List.head?_eq_some_iff.1 hplus
      obtain ⟨hdigits, rfl⟩ := toNat?_eq_some_iff.1 hn
      exact .plus hdigits
    · rw [toNatSigned?_of_head hplus] at hn
      obtain ⟨hdigits, rfl⟩ := toNat?_eq_some_iff.1 hn
      exact .plain hdigits
  · intro h
    cases h with
    | plain hdigits =>
      -- digits alone start with no sign, so neither sign is looked behind
      have hhead : ∀ {c : Char}, c.isDigit = false → t.head? ≠ some c := by
        rintro c hc hhead
        rw [hdigits.2 c (List.mem_of_mem_head? hhead)] at hc
        exact absurd hc (by decide)
      rw [toInt?_of_head (hhead (by decide)), toNatSigned?_of_head (hhead (by decide)),
        toNat?_eq_some_iff.2 ⟨hdigits, rfl⟩]
      rfl
    | plus hdigits =>
      rw [toInt?_of_head (by simp), Text.toNatSigned?, toNat?_eq_some_iff.2 ⟨hdigits, rfl⟩]
      rfl
    | minus hdigits =>
      rw [toInt?_minus, toNat?_eq_some_iff.2 ⟨hdigits, rfl⟩]
      rfl

/-- An integer does not begin as a name does. -/
lemma WritesInt.exists_head {t : Text} {i : Int} (h : WritesInt t i) :
    ∃ c rest, t = c :: rest ∧ c.isAlpha = false ∧ c ≠ '_' := by
  have hdigit : ∀ {digits : Text}, IsIndex digits → ∃ c rest, digits = c :: rest ∧ c.isAlpha = false ∧ c ≠ '_' := by
    intro digits hdigits
    obtain ⟨c, rest, rfl, hc⟩ := exists_head_of_isIndex hdigits
    have hrange := Text.toNat_of_isDigit hc
    refine ⟨c, rest, rfl, Bool.eq_false_iff.2 fun halpha => ?_, fun hunderscore => ?_⟩
    · have := Text.toNat_of_isAlpha halpha
      omega
    · rw [hunderscore] at hc
      exact absurd hc (by decide)
  cases h with
  | plain hdigits => exact hdigit hdigits
  | plus => exact ⟨_, _, rfl, by decide, by decide⟩
  | minus => exact ⟨_, _, rfl, by decide, by decide⟩

/-! ## Operands -/

/-- The operand that a lexeme writes: a quoted text, a truth value, an integer of sixty-four bits, or a path. The two
truth values are not paths. -/
inductive Spells : Lexeme → Operand → Prop
  | text (content : Text) : Spells (.quoted content) (.text content)
  | yes : Spells (.word "true") (.bool true)
  | no : Spells (.word "false") (.bool false)
  | int {content : Text} {i : Int} (hint : WritesInt content i) (hleast : -(Word.negatives : Int) ≤ i)
      (hmost : i < Word.negatives) : Spells (.word content) (.int i)
  | path {p : Path} (hpath : p.WellFormed) (hyes : p.text ≠ "true".toList) (hno : p.text ≠ "false".toList) :
      Spells (.word p.text) (.path p)

lemma fits_iff {i : Int} : fits i = true ↔ -(Word.negatives : Int) ≤ i ∧ i < Word.negatives := by
  rw [fits, Bool.and_eq_true, decide_eq_true_eq, decide_eq_true_eq]

/-- A word that writes an integer in range is this integer as an operand. -/
lemma operandOfWord_of_writesInt {content : Text} {i : Int} (hint : WritesInt content i) (hfits : fits i = true) :
    operandOfWord content = .ok (.int i) := by
  obtain ⟨c, rest, rfl, halpha, -⟩ := hint.exists_head
  have hword : ∀ word : Text, word.head?.any Char.isAlpha = true → c :: rest ≠ word := by
    rintro _ hletter rfl
    rw [List.head?_cons, Option.any_some, halpha] at hletter
    exact absurd hletter (by decide)
  rw [operandOfWord, if_neg (hword _ (by decide)), if_neg (hword _ (by decide)), toInt?_eq_some_iff.2 hint,
    Option.filter_some, if_pos hfits]

/-- The text of a well-formed path is this path as an operand, unless it is `true` or `false`. -/
lemma operandOfWord_of_path {p : Path} (hpath : p.WellFormed) (hyes : p.text ≠ "true".toList)
    (hno : p.text ≠ "false".toList) : operandOfWord p.text = .ok (.path p) := by
  -- an integer and a path do not begin alike
  have hnone : Text.toInt? p.text = none := by
    refine Option.eq_none_iff_forall_ne_some.2 fun i hi => ?_
    obtain ⟨c, rest, htext, hc⟩ := Path.exists_head_of_wellFormed hpath
    obtain ⟨d, rest', htext', halpha, hunderscore⟩ := (toInt?_eq_some_iff.1 hi).exists_head
    obtain ⟨rfl, -⟩ := List.cons.inj (htext.symm.trans htext')
    rcases hc with hc | hc
    · exact absurd hc (by rw [halpha]; decide)
    · exact hunderscore hc
  rw [operandOfWord, if_neg hyes, if_neg hno, hnone, Option.filter_none, Path.read_eq_ok_iff.2 ⟨hpath, rfl⟩]
  rfl

/-- A lexeme is read as the operand that it writes. -/
lemma operand_eq_ok_iff {lexeme : Lexeme} {a : Operand} : operand lexeme = .ok a ↔ Spells lexeme a := by
  constructor
  · intro h
    cases lexeme with
    | word content =>
      -- a word is tried as a truth value, as an integer in range, and as a path, in this order
      rw [operand, operandOfWord] at h
      split at h
      · rename_i hyes
        rw [← Except.ok.inj h, hyes]
        exact .yes
      rename_i hyes
      split at h
      · rename_i hno
        rw [← Except.ok.inj h, hno]
        exact .no
      rename_i hno
      split at h
      · rename_i i hi
        obtain ⟨hint, hfits⟩ := Option.filter_eq_some_iff.1 hi
        rw [← Except.ok.inj h]
        exact .int (toInt?_eq_some_iff.1 hint) (fits_iff.1 hfits).1 (fits_iff.1 hfits).2
      · obtain ⟨p, hp, rfl⟩ := map_eq_ok_iff.1 h
        obtain ⟨hpath, rfl⟩ := Path.read_eq_ok_iff.1 hp
        exact .path hpath hyes hno
    | quoted content =>
      rw [← Except.ok.inj h]
      exact .text content
    | equals => simp [operand] at h
    | differs => simp [operand] at h
  · intro h
    cases h with
    | text | yes | no => rfl
    | int hint hleast hmost => exact operandOfWord_of_writesInt hint (fits_iff.2 ⟨hleast, hmost⟩)
    | path hpath hyes hno => exact operandOfWord_of_path hpath hyes hno

/-! ## Conditions -/

/-- A condition in lexemes that is not negated in front: one operand, or two with a sign between them. -/
inductive Compares : List Lexeme → Condition → Prop
  | truthy {left : Lexeme} {a : Operand} : Spells left a → Compares [left] (.truthy a)
  | equal {left right : Lexeme} {a b : Operand} :
      Spells left a → Spells right b → Compares [left, .equals, right] (.equal a b)
  | differ {left right : Lexeme} {a b : Operand} :
      Spells left a → Spells right b → Compares [left, .differs, right] (.not (.equal a b))

/-- A condition in lexemes: a number of words `not`, all that there are in front, and a comparison that is negated as
many times. -/
def Says (lexemes : List Lexeme) (condition : Condition) : Prop :=
  ∃ negations core inner, lexemes = List.replicate negations (.word "not") ++ core ∧
    core.head? ≠ some (.word "not") ∧ Compares core inner ∧ condition = Condition.not^[negations] inner

/-- A comparison is read from lexemes if and only if they compare so by the grammar. -/
lemma comparison_eq_ok_iff {lexemes : List Lexeme} {condition : Condition} :
    comparison lexemes = .ok condition ↔ Compares lexemes condition := by
  constructor
  · intro h
    unfold comparison at h
    split at h
    · obtain ⟨a, ha, rfl⟩ := map_eq_ok_iff.1 h
      exact .truthy (operand_eq_ok_iff.1 ha)
    · obtain ⟨a, ha, hrest⟩ := bind_eq_ok_iff.1 h
      obtain ⟨b, hb, hcondition⟩ := bind_eq_ok_iff.1 hrest
      rw [← Except.ok.inj hcondition]
      exact .equal (operand_eq_ok_iff.1 ha) (operand_eq_ok_iff.1 hb)
    · obtain ⟨a, ha, hrest⟩ := bind_eq_ok_iff.1 h
      obtain ⟨b, hb, hcondition⟩ := bind_eq_ok_iff.1 hrest
      rw [← Except.ok.inj hcondition]
      exact .differ (operand_eq_ok_iff.1 ha) (operand_eq_ok_iff.1 hb)
    · simp at h
  · intro h
    cases h with
    | truthy ha => rw [comparison, operand_eq_ok_iff.2 ha]; rfl
    | equal ha hb => rw [comparison, operand_eq_ok_iff.2 ha, operand_eq_ok_iff.2 hb]; rfl
    | differ ha hb => rw [comparison, operand_eq_ok_iff.2 ha, operand_eq_ok_iff.2 hb]; rfl

/-- One more `not` in front negates once more. -/
theorem Says.not {lexemes : List Lexeme} {condition : Condition} (h : Says lexemes condition) :
    Says (.word "not" :: lexemes) (.not condition) := by
  obtain ⟨negations, core, inner, rfl, hhead, hcore, rfl⟩ := h
  exact ⟨negations + 1, core, inner, rfl, hhead, hcore, (Function.iterate_succ_apply' _ _ _).symm⟩

/-- Without `not` in front a condition is a comparison. -/
lemma ofLexemes_of_head? {lexemes : List Lexeme} (h : lexemes.head? ≠ some (.word "not")) :
    ofLexemes lexemes = comparison lexemes := by
  unfold ofLexemes
  split
  · rename_i content rest
    exact if_neg fun hnot => h (by rw [hnot]; rfl)
  · rfl

/-- A condition is read from lexemes if and only if they say it by the grammar. -/
lemma ofLexemes_eq_ok_iff {lexemes : List Lexeme} {condition : Condition} :
    ofLexemes lexemes = .ok condition ↔ Says lexemes condition := by
  constructor
  · intro h
    -- by the recursion of the reader: a negation in front, another word in front, or anything else
    induction lexemes using ofLexemes.induct generalizing condition with
    | case1 rest ih =>
      rw [ofLexemes, if_pos rfl] at h
      obtain ⟨inside, hinside, rfl⟩ := map_eq_ok_iff.1 h
      exact (ih hinside).not
    | case2 content rest hnot =>
      have hhead : (Lexeme.word content :: rest).head? ≠ some (.word "not") := by simpa using hnot
      rw [ofLexemes_of_head? hhead] at h
      exact ⟨0, _, condition, rfl, hhead, comparison_eq_ok_iff.1 h, rfl⟩
    | case3 lexemes hother =>
      have hhead : lexemes.head? ≠ some (.word "not") := by
        intro hhead
        obtain ⟨rest, rfl⟩ := List.head?_eq_some_iff.1 hhead
        exact hother _ _ rfl
      rw [ofLexemes_of_head? hhead] at h
      exact ⟨0, _, condition, rfl, hhead, comparison_eq_ok_iff.1 h, rfl⟩
  · rintro ⟨negations, core, inner, rfl, hhead, hcore, rfl⟩
    induction negations with
    | zero =>
      rw [List.replicate_zero, List.nil_append, ofLexemes_of_head? hhead]
      exact comparison_eq_ok_iff.2 hcore
    | succ negations ih =>
      rw [List.replicate_succ, List.cons_append, ofLexemes, if_pos rfl, ih, Function.iterate_succ_apply']
      rfl

/-- A condition is read from a text if and only if the text consists of lexemes that say it. -/
lemma read_eq_ok_iff {t : Text} {condition : Condition} :
    read t = .ok condition ↔ ∃ lexemes, Lexed t lexemes ∧ Says lexemes condition := by
  unfold read
  split
  · rename_i hnone
    refine ⟨fun h => absurd h (by simp), ?_⟩
    rintro ⟨lexemes, hlexed, -⟩
    rw [hlexed.lexemes?_eq] at hnone
    exact absurd hnone (by simp)
  · rename_i lexemes hlexemes
    rw [ofLexemes_eq_ok_iff]
    constructor
    · exact fun h => ⟨lexemes, lexed_of_lexemes? hlexemes, h⟩
    · rintro ⟨other, hlexed, hsaid⟩
      rw [hlexed.lexemes?_eq, Option.some.injEq] at hlexemes
      exact hlexemes ▸ hsaid

/-! ## Conditions that are written out -/

lemma plain_of_between {c : Char} (hleast : 40 ≤ c.toNat) (hmost : c.toNat ≤ 126) (hequals : c ≠ '=') :
    IsPlain c := by
  refine ⟨Text.isBlank_of_between (by omega) hmost, ?_, hequals, ?_⟩
  · rintro (rfl | rfl)
    · exact absurd hleast (by decide)
    · exact absurd hleast (by decide)
  · rintro rfl
    exact absurd hleast (by decide)

/-- A character of a path is one of a plain word. -/
lemma plain_of_isPathChar {c : Char} (h : Path.isPathChar c = true) :
    IsPlain c := by
  simp only [Path.isPathChar, Text.isNameChar, Char.isAlphanum, Bool.or_eq_true, beq_iff_eq] at h
  have hequals : c ≠ '=' := by
    rintro rfl
    exact absurd h (by decide)
  rcases h with ((halpha | hdigit) | rfl) | rfl
  · have := Text.toNat_of_isAlpha halpha
    exact plain_of_between (by omega) (by omega) hequals
  · have := Text.toNat_of_isDigit hdigit
    exact plain_of_between (by omega) (by omega) hequals
  · exact plain_of_between (by decide) (by decide) hequals
  · exact plain_of_between (by decide) (by decide) hequals

lemma plain_of_all {content : Text} (hne : content ≠ []) (h : content.all Path.isPathChar = true) :
    (Lexeme.word content).Plain :=
  ⟨hne, fun c hc => plain_of_isPathChar (List.all_eq_true.1 h c hc)⟩

/-- A word that writes an integer is plain. -/
lemma WritesInt.plain_word {t : Text} {i : Int} (h : WritesInt t i) : (Lexeme.word t).Plain := by
  have hdigits : ∀ {digits : Text}, IsIndex digits →
      ∀ c ∈ digits, IsPlain c := by
    intro digits hdigits c hc
    have hdigit := hdigits.2 c hc
    refine plain_of_isPathChar ?_
    rw [Path.isPathChar, Text.isNameChar, Char.isAlphanum, hdigit, Bool.or_true]
    rfl
  cases h with
  | plain hindex => exact ⟨hindex.1, hdigits hindex⟩
  | plus hindex =>
    refine ⟨List.cons_ne_nil _ _, List.forall_mem_cons.2 ⟨?_, hdigits hindex⟩⟩
    exact plain_of_between (by decide) (by decide) (by decide)
  | minus hindex =>
    refine ⟨List.cons_ne_nil _ _, List.forall_mem_cons.2 ⟨?_, hdigits hindex⟩⟩
    exact plain_of_between (by decide) (by decide) (by decide)

/-- A lexeme that spells an operand is plain. -/
lemma Spells.plain {lexeme : Lexeme} {a : Operand} (h : Spells lexeme a) : lexeme.Plain := by
  cases h with
  | text => trivial
  | yes => exact plain_of_all (by decide) (by decide)
  | no => exact plain_of_all (by decide) (by decide)
  | int hint => exact hint.plain_word
  | @path p hpath =>
    refine ⟨?_, fun c hc => plain_of_isPathChar (Path.isPathChar_of_read (Path.read_eq_ok_iff.2 ⟨hpath, rfl⟩) c hc)⟩
    obtain ⟨c, rest, htext, -⟩ := Path.exists_head_of_wellFormed hpath
    rw [htext]
    exact List.cons_ne_nil _ _

/-- All lexemes of a condition are plain. -/
lemma Says.plain {lexemes : List Lexeme} {condition : Condition} (h : Says lexemes condition) :
    ∀ lexeme ∈ lexemes, lexeme.Plain := by
  obtain ⟨negations, core, inner, rfl, -, hcore, -⟩ := h
  intro lexeme hlexeme
  rcases List.mem_append.1 hlexeme with hnot | hcompared
  · rw [List.eq_of_mem_replicate hnot]
    exact plain_of_all (by decide) (by decide)
  · cases hcore with
    | truthy ha =>
      rw [List.mem_singleton.1 hcompared]
      exact ha.plain
    | equal ha hb | differ ha hb =>
      simp only [List.mem_cons, List.not_mem_nil, or_false] at hcompared
      rcases hcompared with rfl | rfl | rfl
      · exact ha.plain
      · trivial
      · exact hb.plain

/-- What is written out is read back. -/
lemma read_of_laidOut {lexemes : List Lexeme} {condition : Condition} {t : Text} (hsaid : Says lexemes condition)
    (hlaid : LaidOut lexemes t) : read t = .ok condition :=
  read_eq_ok_iff.2 ⟨lexemes, lexed_of_laidOut hlaid hsaid.plain, hsaid⟩

/-! ## Conditions that can be written out -/

lemma eq_of_spells_not {a : Operand} (h : Spells (.word "not") a) : a = .path ["not".toList] :=
  Except.ok.inj ((operand_eq_ok_iff.2 h).symm.trans rfl)

/-- Every integer is written by its digits with its sign. -/
lemma writesInt_ofInt (i : Int) : WritesInt (Text.ofInt i) i := by
  have hdigits : IsIndex (Text.ofNat i.natAbs) := ⟨Nat.toDigits_ne_nil, fun c hc => Json.isDigit_of_mem_ofNat hc⟩
  rw [Text.ofInt]
  split
  · have hwritten := WritesInt.minus hdigits
    have hvalue : -((i.natAbs : Nat) : Int) = i := by omega
    rwa [Json.digitsValue_ofNat, hvalue] at hwritten
  · have hwritten := WritesInt.plain hdigits
    have hvalue : ((i.natAbs : Nat) : Int) = i := by omega
    rwa [Json.digitsValue_ofNat, hvalue] at hwritten

/-- Every operand that can be said is spelled by some lexeme, and this lexeme can be written. -/
lemma exists_spells {a : Operand} (h : a.Sayable) :
    ∃ lexeme, Spells lexeme a ∧ ∃ written, lexeme.Written written := by
  cases a with
  | path p => exact ⟨_, .path h.1 h.2.1 h.2.2, _, .word _⟩
  | text content =>
    rcases h with hdouble | hsingle
    · exact ⟨_, .text content, _, .quoted (.inl rfl) hdouble⟩
    · exact ⟨_, .text content, _, .quoted (.inr rfl) hsingle⟩
  | int i => exact ⟨_, .int (writesInt_ofInt i) h.1 h.2, _, .word _⟩
  | bool b =>
    cases b with
    | true => exact ⟨_, .yes, _, .word _⟩
    | false => exact ⟨_, .no, _, .word _⟩

/-- A condition whose operands can be written has lexemes, unless a path `not` comes first. -/
lemma exists_said {condition : Condition} (h : ∀ a ∈ condition.operands, a.Sayable)
    (hfirst : condition.operands.head? ≠ some (.path ["not".toList])) :
    ∃ lexemes, Says lexemes condition ∧ ∀ lexeme ∈ lexemes, ∃ written, lexeme.Written written := by
  have hhead : ∀ {lexeme : Lexeme} {a : Operand}, Spells lexeme a → a ≠ .path ["not".toList] →
      lexeme ≠ .word "not" := by
    rintro lexeme a hspells hpath rfl
    exact hpath (eq_of_spells_not hspells)
  induction condition with
  | truthy a =>
    obtain ⟨lexeme, hspells, hwritten⟩ := exists_spells (h a List.mem_cons_self)
    refine ⟨[lexeme], ⟨0, _, _, rfl, ?_, .truthy hspells, rfl⟩, List.forall_mem_singleton.2 hwritten⟩
    simpa using hhead hspells (by simpa [operands] using hfirst)
  | equal a b =>
    obtain ⟨left, hleft, hwritten⟩ := exists_spells (h a List.mem_cons_self)
    obtain ⟨right, hright, hwritten'⟩ := exists_spells (h b (List.mem_cons_of_mem _ List.mem_cons_self))
    refine ⟨[left, .equals, right], ⟨0, _, _, rfl, ?_, .equal hleft hright, rfl⟩, ?_⟩
    · simpa using hhead hleft (by simpa [operands] using hfirst)
    · refine List.forall_mem_cons.2 ⟨hwritten, List.forall_mem_cons.2 ⟨⟨_, .equals⟩, ?_⟩⟩
      exact List.forall_mem_singleton.2 hwritten'
  | not condition ih =>
    obtain ⟨lexemes, hsaid, hwritten⟩ := ih h hfirst
    exact ⟨_, hsaid.not, List.forall_mem_cons.2 ⟨⟨_, .word _⟩, hwritten⟩⟩

/-- Lexemes that can be written can be written one after the other. -/
lemma exists_laidOut {lexemes : List Lexeme} (h : ∀ lexeme ∈ lexemes, ∃ written, lexeme.Written written) :
    ∃ t, LaidOut lexemes t ∧ Text.Parted t := by
  induction lexemes with
  | nil => exact ⟨[], .nil (by simp [Text.Blanks]), by simp [Text.Parted]⟩
  | cons lexeme lexemes ih =>
    obtain ⟨⟨written, hwritten⟩, hrest⟩ := List.forall_mem_cons.1 h
    obtain ⟨rest, hlaid, hparted⟩ := ih hrest
    refine ⟨[' '] ++ written ++ rest, .cons ?_ hwritten hlaid fun _ _ => hparted, ?_⟩
    · exact List.forall_mem_singleton.2 (by decide)
    · rintro c hc
      obtain rfl := Option.some.inj hc
      decide

/-- Just what the grammar says is read as a condition, and every other text is refused as a defect on its line. A
condition that is written out, with any blanks between its lexemes, is read back; and every condition can be written out
whose operands can be written and among whose operands no path `not` comes first. -/
theorem read_iff_said :
    (∀ t condition, read t = .ok condition ↔ ∃ lexemes, Lexed t lexemes ∧ Says lexemes condition) ∧
    (∀ t line, (¬ ∃ lexemes condition, Lexed t lexemes ∧ Says lexemes condition) →
      ∃ defect, (Outline.locate line (read t)).mapError Fault.ofRefusal = .error (.template (.defect line defect))) ∧
    (∀ t lexemes condition, Says lexemes condition → LaidOut lexemes t → read t = .ok condition) ∧
    (∀ condition : Condition, (∀ a ∈ condition.operands, a.Sayable) →
      condition.operands.head? ≠ some (.path ["not".toList]) →
      ∃ lexemes t, Says lexemes condition ∧ LaidOut lexemes t) := by
  refine ⟨fun _ _ => read_eq_ok_iff, fun t line hnone => ?_, fun _ _ _ => read_of_laidOut,
    fun condition hsayable hfirst => ?_⟩
  · cases hread : read t with
    | ok condition =>
      obtain ⟨lexemes, hlexed, hsaid⟩ := read_eq_ok_iff.1 hread
      exact absurd ⟨lexemes, condition, hlexed, hsaid⟩ hnone
    | error defect => exact ⟨defect, rfl⟩
  · obtain ⟨lexemes, hsaid, hwritten⟩ := exists_said hsayable hfirst
    obtain ⟨t, hlaid, -⟩ := exists_laidOut hwritten
    exact ⟨lexemes, t, hsaid, hlaid⟩

/-- A comparison is read with the blanks that it is laid out with, and a single sign between two operands is refused. -/
theorem read_admin :
    (Says [.word "not", .word "role", .differs, .quoted "admin"]
        (.not (.not (.equal (.path ["role"]) (.text "admin")))) ∧
      read "not  role!='admin' " = .ok (.not (.not (.equal (.path ["role"]) (.text "admin"))))) ∧
    ∃ defect, (Outline.locate 3 (read "a = b")).mapError Fault.ofRefusal = .error (.template (.defect 3 defect)) := by
  have hrole : Spells (.word "role") (.path ["role"]) := operand_eq_ok_iff.1 (by decide +kernel)
  have hsaid : Says [.word "not", .word "role", .differs, .quoted "admin"]
      (.not (.not (.equal (.path ["role"]) (.text "admin")))) :=
    Says.not ⟨0, _, _, rfl, by decide, .differ hrole (.text _), rfl⟩
  have hnone : Text.Blanks [] := by simp [Text.Blanks]
  have hblanks : ∀ n, Text.Blanks (List.replicate n ' ') := by
    intro n c hc
    rw [List.eq_of_mem_replicate hc]
    decide
  have hlaid : LaidOut [.word "not", .word "role", .differs, .quoted "admin"] "not  role!='admin' " := by
    have hname : LaidOut [.quoted "admin"] "'admin' " :=
      .cons hnone (.quoted (.inr rfl) (by decide)) (.nil (hblanks 1)) fun h => h.elim
    have hcompared : LaidOut [.word "role", .differs, .quoted "admin"] "  role!='admin' " :=
      .cons (hblanks 2) (.word _) (.cons hnone .differs hname fun h => h.elim) fun _ h => by simp [Lexeme.IsWord] at h
    exact .cons hnone (.word _) hcompared fun _ _ c hc => by
      obtain rfl := Option.some.inj hc
      decide
  refine ⟨⟨hsaid, read_iff_said.2.2.1 _ _ _ hsaid hlaid⟩, read_iff_said.2.1 _ _ ?_⟩
  rintro ⟨lexemes, condition, hlexed⟩
  have hread := (read_iff_said.1 _ _).2 ⟨lexemes, hlexed⟩
  have hrefused : (read "a = b").toOption = none := by decide +kernel
  rw [hread] at hrefused
  exact absurd hrefused (by simp [Except.toOption])

end Condition

end Stencil.Template
