import Mathlib.Data.List.Basic
import Stencil.Proofs.Text.Cutting
import Stencil.Template.Condition

/-!
# How a condition is cut into lexemes

A condition is cut from left to right into words, quoted texts and the two signs of comparison, with blanks between
them (`Lexed`). A word goes on up to the first place where a blank, a quote or a sign begins, or the text ends
(`WordEnds`); a quoted text goes on up to the next quote of its own kind, whatever stands between.

Main statements: a condition is cut in this way, and in no other (`lexemes?_eq_some_iff`), and lexemes that are written
out with blanks between them are found again (`lexed_of_laidOut`).
-/

namespace Stencil.Template.Condition

open Text

/-- The two kinds of quotes. -/
def IsQuote (c : Char) : Prop := c = '"' ∨ c = '\''

/-- Whether no word goes on with a text: it is empty, or a blank, a quote or a sign of comparison begins it. -/
inductive WordEnds : Text → Prop
  | nil : WordEnds []
  | blank {c : Char} (hblank : isBlank c = true) (rest : Text) : WordEnds (c :: rest)
  | quote {c : Char} (hquote : IsQuote c) (rest : Text) : WordEnds (c :: rest)
  | equals (rest : Text) : WordEnds ('=' :: '=' :: rest)
  | differs (rest : Text) : WordEnds ('!' :: '=' :: rest)

/-- Whether a word goes on up to its last character, if some text stands behind it. -/
def Unended (word rest : Text) : Prop := ∀ a b, word = a ++ b → b ≠ [] → ¬ WordEnds (b ++ rest)

/-- How a text is cut into lexemes. -/
inductive Lexed : Text → List Lexeme → Prop
  | nil : Lexed [] []
  | blank {c : Char} {rest : Text} {lexemes : List Lexeme} (hblank : isBlank c = true) :
      Lexed rest lexemes → Lexed (c :: rest) lexemes
  | quoted {mark : Char} {content rest : Text} {lexemes : List Lexeme} (hquote : IsQuote mark)
      (hcontent : mark ∉ content) :
      Lexed rest lexemes → Lexed (mark :: (content ++ mark :: rest)) (.quoted content :: lexemes)
  | equals {rest : Text} {lexemes : List Lexeme} : Lexed rest lexemes → Lexed ('=' :: '=' :: rest) (.equals :: lexemes)
  | differs {rest : Text} {lexemes : List Lexeme} :
      Lexed rest lexemes → Lexed ('!' :: '=' :: rest) (.differs :: lexemes)
  | word {word rest : Text} {lexemes : List Lexeme} (hne : word ≠ []) (hword : Unended word rest)
      (hends : WordEnds rest) : Lexed rest lexemes → Lexed (word ++ rest) (.word word :: lexemes)

/-! ## Words -/

lemma unended_nil (rest : Text) : Unended [] rest := by
  intro a b heq hb
  exact absurd (List.append_eq_nil_iff.1 heq.symm).2 hb

/-- A word goes on if it goes on at its first character and behind it. -/
lemma unended_cons_iff {c : Char} {word rest : Text} :
    Unended (c :: word) rest ↔ ¬ WordEnds (c :: (word ++ rest)) ∧ Unended word rest := by
  constructor
  · intro h
    exact ⟨h [] (c :: word) rfl (List.cons_ne_nil _ _), fun a b heq => h (c :: a) b (by rw [heq]; rfl)⟩
  · rintro ⟨hfirst, hrest⟩ a b heq hb
    cases a with
    | nil =>
      obtain rfl : b = c :: word := heq.symm
      exact hfirst
    | cons d a => exact hrest a b (List.cons.inj heq).2 hb

/-- Every text goes on up to the first place where a word ends. -/
lemma exists_wordEnds (t : Text) : ∃ word rest, t = word ++ rest ∧ Unended word rest ∧ WordEnds rest := by
  induction t with
  | nil => exact ⟨[], [], rfl, unended_nil [], .nil⟩
  | cons c t ih =>
    by_cases h : WordEnds (c :: t)
    · exact ⟨[], c :: t, rfl, unended_nil _, h⟩
    · obtain ⟨word, rest, rfl, hword, hends⟩ := ih
      exact ⟨c :: word, rest, rfl, unended_cons_iff.2 ⟨h, hword⟩, hends⟩

@[simp] lemma ofWord_nil : Lexeme.ofWord [] = [] := rfl

lemma ofWord_reverse {word : Text} (h : word ≠ []) : Lexeme.ofWord word.reverse = [.word word] := by
  rw [Lexeme.ofWord, if_neg (by simpa using h), List.reverse_reverse]

/-! ## What each character does -/

section

variable {c : Char} (collected rest : Text)

/-- A character at which no word ends is collected. -/
lemma lexemes?_continued (h : ¬ WordEnds (c :: rest)) :
    lexemes? (.word collected) (c :: rest) = lexemes? (.word (c :: collected)) rest := by
  rw [lexemes?]
  · rw [if_neg fun hblank => h (.blank hblank rest),
      if_neg fun hquote => h (.quote (by simpa [IsQuote] using hquote) rest)]
  -- the two cases in front of this one, for the signs of comparison, do not apply
  · rintro rest' rfl rfl
    exact h (.equals rest')
  · rintro rest' rfl rfl
    exact h (.differs rest')

/-- A blank ends the word that was collected. -/
lemma lexemes?_blank (h : isBlank c = true) :
    lexemes? (.word collected) (c :: rest) = (lexemes? (.word []) rest).map (Lexeme.ofWord collected ++ ·) := by
  rw [lexemes?]
  · rw [if_pos h]
  · rintro _ rfl
    exact absurd h (by decide)
  · rintro _ rfl
    exact absurd h (by decide)

lemma lexemes?_quote (h : IsQuote c) :
    lexemes? (.word collected) (c :: rest) = (lexemes? (.quote c []) rest).map (Lexeme.ofWord collected ++ ·) := by
  rcases h with rfl | rfl <;> rfl

lemma lexemes?_equals :
    lexemes? (.word collected) ('=' :: '=' :: rest) =
      (lexemes? (.word []) rest).map fun later => Lexeme.ofWord collected ++ .equals :: later := by
  rw [lexemes?]

lemma lexemes?_differs :
    lexemes? (.word collected) ('!' :: '=' :: rest) =
      (lexemes? (.word []) rest).map fun later => Lexeme.ofWord collected ++ .differs :: later := by
  rw [lexemes?]

/-- A word that goes on is collected as a whole. -/
lemma lexemes?_unended {word : Text} (h : Unended word rest) :
    lexemes? (.word collected) (word ++ rest) = lexemes? (.word (word.reverse ++ collected)) rest := by
  induction word generalizing collected with
  | nil => rfl
  | cons c word ih =>
    obtain ⟨hfirst, hword⟩ := unended_cons_iff.1 h
    rw [List.cons_append, lexemes?_continued _ _ hfirst, ih _ hword, List.reverse_cons, List.append_assoc]
    rfl

/-- Where a word ends, it is a lexeme, and the rest is cut as it would be without it. -/
lemma lexemes?_of_wordEnds (h : WordEnds rest) :
    lexemes? (.word collected) rest = (lexemes? (.word []) rest).map (Lexeme.ofWord collected ++ ·) := by
  cases h with
  | nil => simp [lexemes?]
  | blank hblank rest => simp [lexemes?_blank _ rest hblank]
  | quote hquote rest => simp [lexemes?_quote _ rest hquote]
  | equals rest => simp [lexemes?_equals, Function.comp_def]
  | differs rest => simp [lexemes?_differs, Function.comp_def]

/-- A quotation ends at the first mark of its kind. -/
lemma lexemes?_closed {mark : Char} {content : Text} (h : mark ∉ content) :
    lexemes? (.quote mark collected) (content ++ mark :: rest) =
      (lexemes? (.word []) rest).map (.quoted (collected.reverse ++ content) :: ·) := by
  induction content generalizing collected with
  | nil => rw [List.nil_append, lexemes?, if_pos rfl, List.append_nil]
  | cons c content ih =>
    rw [List.mem_cons, not_or] at h
    rw [List.cons_append, lexemes?, if_neg (Ne.symm h.1), ih _ h.2, List.reverse_cons, List.append_assoc]
    rfl

lemma lexemes?_open {mark : Char} (h : mark ∉ rest) : lexemes? (.quote mark collected) rest = none := by
  induction rest generalizing collected with
  | nil => rw [lexemes?]
  | cons c rest ih =>
    rw [List.mem_cons, not_or] at h
    rw [lexemes?, if_neg (Ne.symm h.1), ih _ h.2]

end

/-! ## The whole text -/

/-- A word that ends before the rest is a lexeme in front of those of the rest. -/
lemma lexed_ofWord {word rest : Text} {later : List Lexeme} (hword : Unended word rest) (hends : WordEnds rest)
    (hlater : Lexed rest later) : Lexed (word ++ rest) (Lexeme.ofWord word.reverse ++ later) := by
  by_cases h : word = []
  · rw [h]
    exact hlater
  · rw [ofWord_reverse h]
    exact .word h hword hends hlater

/-- What is read consists of the lexemes that were read. -/
lemma lexed_of_lexemes? {t : Text} {lexemes : List Lexeme} (h : lexemes? (.word []) t = some lexemes) :
    Lexed t lexemes := by
  -- the induction is on the length, as a quoted text is passed as a whole
  induction hn : t.length using Nat.strong_induction_on generalizing t lexemes with
  | _ n ih =>
    obtain ⟨word, rest, rfl, hword, hends⟩ := exists_wordEnds t
    rw [lexemes?_unended _ _ hword, lexemes?_of_wordEnds _ _ hends, List.append_nil] at h
    obtain ⟨later, hlater, rfl⟩ := Option.map_eq_some_iff.1 h
    refine lexed_ofWord hword hends ?_
    rw [List.length_append] at hn
    cases hends with
    | nil =>
      rw [lexemes?, Option.some.injEq] at hlater
      exact hlater ▸ .nil
    | blank hblank rest =>
      rw [lexemes?_blank _ _ hblank] at hlater
      exact .blank hblank (ih rest.length (by rw [List.length_cons] at hn; omega) (by simpa using hlater) rfl)
    | @quote mark hquote rest =>
      rw [lexemes?_quote _ _ hquote] at hlater
      by_cases hclosed : mark ∈ rest
      · obtain ⟨content, behind, rfl, hcontent⟩ := List.eq_append_cons_of_mem hclosed
        rw [lexemes?_closed _ _ hcontent, ofWord_nil] at hlater
        obtain ⟨_, hquoted, rfl⟩ := Option.map_eq_some_iff.1 hlater
        obtain ⟨lexemes, hbehind, rfl⟩ := Option.map_eq_some_iff.1 hquoted
        refine .quoted hquote hcontent (ih behind.length ?_ hbehind rfl)
        rw [List.length_cons, List.length_append, List.length_cons] at hn
        omega
      · rw [lexemes?_open _ _ hclosed] at hlater
        exact absurd hlater (by simp)
    | equals rest =>
      rw [lexemes?_equals] at hlater
      obtain ⟨lexemes, hrest, rfl⟩ := Option.map_eq_some_iff.1 hlater
      exact .equals (ih rest.length (by rw [List.length_cons, List.length_cons] at hn; omega) hrest rfl)
    | differs rest =>
      rw [lexemes?_differs] at hlater
      obtain ⟨lexemes, hrest, rfl⟩ := Option.map_eq_some_iff.1 hlater
      exact .differs (ih rest.length (by rw [List.length_cons, List.length_cons] at hn; omega) hrest rfl)

/-- A text that consists of lexemes is read as these. -/
lemma Lexed.lexemes?_eq {t : Text} {lexemes : List Lexeme} (h : Lexed t lexemes) :
    lexemes? (.word []) t = some lexemes := by
  induction h with
  | nil => rw [lexemes?, ofWord_nil]
  | blank hblank _ ih => rw [lexemes?_blank _ _ hblank, ih, ofWord_nil]; rfl
  | quoted hquote hcontent _ ih => rw [lexemes?_quote _ _ hquote, lexemes?_closed _ _ hcontent, ih, ofWord_nil]; rfl
  | equals _ ih => rw [lexemes?_equals, ih, ofWord_nil]; rfl
  | differs _ ih => rw [lexemes?_differs, ih, ofWord_nil]; rfl
  | word hne hword hends _ ih =>
    rw [lexemes?_unended _ _ hword, lexemes?_of_wordEnds _ _ hends, ih, List.append_nil, ofWord_reverse hne]
    rfl

/-- The lexemes of a text are those that it is cut into. -/
theorem lexemes?_eq_some_iff {t : Text} {lexemes : List Lexeme} :
    lexemes? (.word []) t = some lexemes ↔ Lexed t lexemes := ⟨lexed_of_lexemes?, Lexed.lexemes?_eq⟩

/-! ## Writing lexemes out -/

/-- Whether a lexeme is a word. -/
def Lexeme.IsWord : Lexeme → Prop
  | .word _ => True
  | .quoted _ => False
  | .equals => False
  | .differs => False

/-- Whether no word ends with a character, whatever stands behind it: neither a blank, nor a quote, nor the beginning of
a sign of comparison. -/
def IsPlain (c : Char) : Prop := isBlank c = false ∧ ¬ IsQuote c ∧ c ≠ '=' ∧ c ≠ '!'

/-- A word of plain characters; any other lexeme. -/
def Lexeme.Plain : Lexeme → Prop
  | .word content => content ≠ [] ∧ ∀ c ∈ content, IsPlain c
  | .quoted _ => True
  | .equals => True
  | .differs => True

/-- A lexeme in writing. A text may stand between quotes of either kind if it holds none of that kind. -/
inductive Lexeme.Written : Lexeme → Text → Prop
  | word (content : Text) : Written (.word content) content
  | quoted {mark : Char} {content : Text} (hquote : IsQuote mark) (hcontent : mark ∉ content) :
      Written (.quoted content) (mark :: (content ++ [mark]))
  | equals : Written .equals "=="
  | differs : Written .differs "!="

/-- Lexemes in writing, one after the other, with any blanks around them, and at least one between two words. -/
inductive LaidOut : List Lexeme → Text → Prop
  | nil {blanks : Text} (hblanks : Blanks blanks) : LaidOut [] blanks
  | cons {lexeme : Lexeme} {lexemes : List Lexeme} {blanks written rest : Text} (hblanks : Blanks blanks)
      (hwritten : lexeme.Written written) (hrest : LaidOut lexemes rest)
      (hparted : lexeme.IsWord → (∃ next, lexemes.head? = some next ∧ next.IsWord) → Parted rest) :
      LaidOut (lexeme :: lexemes) (blanks ++ written ++ rest)

lemma WordEnds.of_blanks {blanks t : Text} (hblanks : Blanks blanks) (h : WordEnds t) : WordEnds (blanks ++ t) := by
  cases blanks with
  | nil => exact h
  | cons c blanks => exact .blank (hblanks c List.mem_cons_self) _

/-- Blanks in front do not change the lexemes. -/
lemma Lexed.of_blanks {blanks t : Text} {lexemes : List Lexeme} (hblanks : Blanks blanks) (h : Lexed t lexemes) :
    Lexed (blanks ++ t) lexemes := by
  induction blanks with
  | nil => exact h
  | cons c blanks ih =>
    exact .blank (hblanks c List.mem_cons_self) (ih fun d hd => hblanks d (List.mem_cons_of_mem _ hd))

/-- A plain word goes on to its end, whatever follows. -/
lemma Lexeme.Plain.unended {word : Text} (h : (Lexeme.word word).Plain) (rest : Text) : Unended word rest := by
  intro a b heq hb hends
  cases b with
  | nil => exact hb rfl
  | cons c b =>
    obtain ⟨hblank, hquote, hequals, hdiffers⟩ := h.2 c (by rw [heq]; exact List.mem_append_right _ List.mem_cons_self)
    rw [List.cons_append] at hends
    generalize b ++ rest = behind at hends
    cases hends with
    | blank hblank' => exact absurd hblank' (by rw [hblank]; exact Bool.false_ne_true)
    | quote hquote' => exact hquote hquote'
    | equals => exact hequals rfl
    | differs => exact hdiffers rfl

/-- What is written behind a word ends it. -/
lemma LaidOut.wordEnds {lexemes : List Lexeme} {t : Text} (h : LaidOut lexemes t)
    (hplain : ∀ lexeme ∈ lexemes, lexeme.Plain)
    (hparted : (∃ next, lexemes.head? = some next ∧ next.IsWord) → Parted t) :
    WordEnds t := by
  cases h with
  | nil hblanks =>
    rw [← List.append_nil t]
    exact WordEnds.nil.of_blanks hblanks
  | @cons lexeme lexemes blanks written rest hblanks hwritten hrest _ =>
    cases hwritten with
    | word word =>
      -- a word does not end the one in front of it by itself, so a blank stands between them
      have hne := (hplain _ List.mem_cons_self).1
      have hhead := hparted ⟨_, rfl, trivial⟩
      obtain ⟨c, word', rfl⟩ := List.exists_cons_of_ne_nil hne
      cases blanks with
      | nil => exact .blank (hhead c rfl) _
      | cons d blanks => exact .blank (hhead d rfl) _
    | quoted hquote =>
      rw [List.append_assoc]
      exact (WordEnds.quote hquote _).of_blanks hblanks
    | equals =>
      rw [List.append_assoc]
      exact (WordEnds.equals _).of_blanks hblanks
    | differs =>
      rw [List.append_assoc]
      exact (WordEnds.differs _).of_blanks hblanks

/-- Lexemes that are written out are those that the text is cut into. -/
theorem lexed_of_laidOut {lexemes : List Lexeme} {t : Text} (h : LaidOut lexemes t)
    (hplain : ∀ lexeme ∈ lexemes, lexeme.Plain) : Lexed t lexemes := by
  induction h with
  | nil hblanks =>
    rename_i blanks
    rw [← List.append_nil blanks]
    exact Lexed.nil.of_blanks hblanks
  | @cons lexeme lexemes blanks written rest hblanks hwritten hrest hparted ih =>
    obtain ⟨hfirst, hlater⟩ := List.forall_mem_cons.1 hplain
    have hlexed := ih hlater
    rw [List.append_assoc]
    refine Lexed.of_blanks hblanks ?_
    cases hwritten with
    | word word => exact .word hfirst.1 (hfirst.unended rest) (hrest.wordEnds hlater (hparted trivial)) hlexed
    | quoted hquote hcontent =>
      rw [List.cons_append, List.append_assoc]
      exact .quoted hquote hcontent hlexed
    | equals => exact .equals hlexed
    | differs => exact .differs hlexed

end Stencil.Template.Condition
