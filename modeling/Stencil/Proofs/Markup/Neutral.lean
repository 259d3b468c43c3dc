import Stencil.Proofs.Markup.Recoding
import Stencil.Proofs.Pattern.Occurrence
import Stencil.Proofs.Text.Cutting
import Stencil.Proofs.Text.Letters

/-!
# Neutral text

The two patterns that neutralising breaks have one shape: a word, blanks, and a sign (`Begins`). Writing the sign as an
entity leaves no match behind (`Free`), neither at the places that were matched nor at new ones: the characters of an
entity continue no word, are no blanks and are no signs. For the same reason breaking the one pattern makes no new
match of the other.

Main statement: neither pattern occurs in a neutralised text (`neutral_neutralize`).
-/

namespace Stencil.Markup

open Pattern

/-! ## Letters and blanks -/

/-- The letters are those of ASCII, and two that case turns into one of these. -/
lemma eq_of_isLetter {c : Char} (h : isLetter c = true) : c.isAlpha = true ∨ c = '\u017f' ∨ c = '\u212a' := by
  rw [isLetter, fold] at h
  split at h
  · exact .inr (.inl (by simp_all))
  · split at h
    · exact .inr (.inr (by simp_all))
    · left
      unfold Char.toLower at h
      split at h
      · rename_i hupper
        exact Text.isAlpha_iff.2 (.inl (Text.isUpper_iff.2 hupper))
      · exact Text.isAlpha_iff.2 (.inr h)

/-- A letter is a character of words. -/
lemma isWordChar_of_isLetter {c : Char} (h : isLetter c = true) : Text.isWordChar c = true := by
  rcases eq_of_isLetter h with halpha | rfl | rfl
  · have := Text.toNat_of_isAlpha halpha
    rw [Text.isWordChar, if_pos (by omega), Char.isAlphanum, halpha]
    rfl
  · decide +kernel
  · decide +kernel

/-- A letter is no blank. -/
lemma isBlank_of_isLetter {c : Char} (h : isLetter c = true) : Text.isBlank c = false := by
  rcases eq_of_isLetter h with halpha | rfl | rfl
  · exact Text.isBlank_of_isAlpha halpha
  · decide
  · decide

/-! ## A word in front of a sign -/

/-- A word, blanks and a sign begin a text, and the word is no end of a longer one. -/
def Begins (IsWord : Text → Prop) (sign : Char) (previous : Option Char) (t : Text) : Prop :=
  previous.any Text.isWordChar = false ∧
    ∃ w b rest, t = w ++ b ++ sign :: rest ∧ IsWord w ∧ Text.Blanks b

/-- A word, blanks and a sign begin nowhere in a text. -/
def Free (IsWord : Text → Prop) (sign : Char) : Option Char → Text → Prop
  | _, [] => True
  | previous, c :: rest => ¬ Begins IsWord sign previous (c :: rest) ∧ Free IsWord sign (some c) rest

/-- A sign is no character of a word and no blank. -/
structure IsSign (sign : Char) : Prop where
  letter : isLetter sign = false
  blank : Text.isBlank sign = false
  word : Text.isWordChar sign = false

/-- An entity is made up of characters that are no letters, no blanks and not the sign, and continues no word. -/
structure Inert (sign : Char) (entity : Text) : Prop where
  ne_nil : entity ≠ []
  foreign : ∀ c ∈ entity, isLetter c = false ∧ Text.isBlank c = false ∧ c ≠ sign
  last : entity.getLast?.any Text.isWordChar = false

/-- A pattern ends behind the words of a shape, which are made up of letters. -/
structure Spells (inner : Pattern) (IsWord : Text → Prop) : Prop where
  mem_ends_iff : ∀ {p p' t t'}, (p', t') ∈ inner.ends p t ↔ ∃ w, IsWord w ∧ t = w ++ t' ∧ p' = p.after w
  letters : ∀ {w}, IsWord w → w ≠ [] ∧ ∀ c ∈ w, isLetter c = true

/-- The pattern of a word in front of a sign. -/
def signed (inner : Pattern) (sign : Char) : Pattern :=
  .wordBoundary ++ .group 1 inner ++ .group 2 blanks ++ exactly sign

/-- A text with the signs behind words written as an entity. -/
def broken (inner : Pattern) (sign : Char) (entity : Text) (position : Nat) (previous : Option Char) (t : Text) :
    Text :=
  (signed inner sign).replaceFrom (fun m => m.group 1 ++ m.group 2 ++ entity) position previous t

section

variable {inner : Pattern} {IsWord : Text → Prop} {sign : Char}

/-- In front of a word stands a word boundary if and only if no word character comes before. -/
lemma Spells.atWordBoundary_iff (h : Spells inner IsWord) {p : Place} {w t : Text} (hw : IsWord w) :
    atWordBoundary p (w ++ t) = true ↔ p.previous.any Text.isWordChar = false := by
  obtain ⟨hne, hletters⟩ := h.letters hw
  obtain ⟨c, w, rfl⟩ := List.exists_cons_of_ne_nil hne
  have hc : Text.isWordChar c = true := isWordChar_of_isLetter (hletters c List.mem_cons_self)
  have hhead : ((c :: w) ++ t).head?.any Text.isWordChar = true := hc
  rw [atWordBoundary, hhead]
  cases p.previous.any Text.isWordChar <;> decide

/-- The pattern matches somewhere if and only if a word of its kind begins there, with its sign behind. -/
lemma Spells.ends_signed_ne_nil_iff (h : Spells inner IsWord) {p : Place} {t : Text} :
    (signed inner sign).ends p t ≠ [] ↔ Begins IsWord sign p.previous t := by
  constructor
  · intro hends
    obtain ⟨⟨p', t'⟩, hmem⟩ := List.exists_mem_of_ne_nil _ hends
    obtain ⟨p3, t3, hmem, hsign⟩ := mem_ends_sequence.1 hmem
    obtain ⟨p2, t2, hmem, hblanks⟩ := mem_ends_sequence.1 hmem
    obtain ⟨p1, t1, hboundary, hword⟩ := mem_ends_sequence.1 hmem
    obtain ⟨hedge, rfl, rfl⟩ := mem_ends_wordBoundary.1 hboundary
    obtain ⟨q, hinner, rfl⟩ := mem_ends_group.1 hword
    obtain ⟨w, hw, rfl, rfl⟩ := h.mem_ends_iff.1 hinner
    obtain ⟨q', hq', rfl⟩ := mem_ends_group.1 hblanks
    obtain ⟨b, hb, rfl, rfl⟩ := mem_ends_many.1 hq'
    obtain ⟨rfl, rfl⟩ := mem_ends_exactly.1 hsign
    exact ⟨(h.atWordBoundary_iff hw).1 hedge, w, b, t', (List.append_assoc _ _ _).symm, hw, hb⟩
  · rintro ⟨hprevious, w, b, rest, rfl, hw, hb⟩ hnil
    rw [List.append_assoc] at hnil
    -- conversely, the ends are put together: the word in its group, the blanks in theirs, and the sign
    let word := (p.after w).remember 1 (w ++ (b ++ sign :: rest)) ((p.after w).position - p.position)
    have hword : (word, b ++ sign :: rest) ∈ (Pattern.group 1 inner).ends p (w ++ (b ++ sign :: rest)) :=
      mem_ends_group.2 ⟨p.after w, h.mem_ends_iff.2 ⟨w, hw, rfl, rfl⟩, rfl⟩
    let blank := (word.after b).remember 2 (b ++ sign :: rest) ((word.after b).position - word.position)
    have hblank : (blank, sign :: rest) ∈ (Pattern.group 2 blanks).ends word (b ++ sign :: rest) :=
      mem_ends_group.2 ⟨word.after b, mem_ends_many.2 ⟨b, hb, rfl, rfl⟩, rfl⟩
    have hedge := mem_ends_wordBoundary.2 ⟨(h.atWordBoundary_iff hw (t := b ++ sign :: rest)).2 hprevious, rfl, rfl⟩
    have hfront := mem_ends_sequence.2 ⟨word, _, mem_ends_sequence.2 ⟨p, _, hedge, hword⟩, hblank⟩
    have hmem : (blank.next sign, rest) ∈ (signed inner sign).ends p (w ++ (b ++ sign :: rest)) :=
      mem_ends_sequence.2 ⟨blank, _, hfront, mem_ends_exactly.2 ⟨rfl, rfl⟩⟩
    rw [hnil] at hmem
    exact List.not_mem_nil hmem

lemma least_signed_pos (inner : Pattern) (sign : Char) : 0 < (signed inner sign).least := Nat.succ_pos _

lemma Spells.matchAt?_eq_none_iff (h : Spells inner IsWord) {position : Nat} {previous : Option Char} {t : Text} :
    (signed inner sign).matchAt? position previous t = none ↔ ¬ Begins IsWord sign previous t := by
  rw [Pattern.matchAt?_eq_none_iff (least_signed_pos inner sign), ← h.ends_signed_ne_nil_iff
    (p := ⟨position, previous, []⟩), ne_eq, not_not]

/-- A match is a word, blanks and a sign, and its groups are the word and the blanks. -/
lemma Spells.exists_of_matchAt? (h : Spells inner IsWord) {position : Nat} {previous : Option Char} {t : Text}
    {m : Match} (hm : (signed inner sign).matchAt? position previous t = some m) :
    ∃ rest, t = m.text ++ rest ∧ m.text = m.group 1 ++ m.group 2 ++ [sign] ∧ IsWord (m.group 1) ∧
      Text.Blanks (m.group 2) ∧ previous.any Text.isWordChar = false := by
  obtain ⟨w, b, rest, q, rfl, hinner, hedge, hb, htext, rfl, rfl⟩ := exists_of_matchAt?_signed hm
  obtain ⟨w', hw', heq, -⟩ := h.mem_ends_iff.1 hinner
  rw [List.append_assoc] at heq
  obtain rfl := List.append_cancel_right heq
  rw [List.append_assoc] at hedge
  exact ⟨rest, by rw [htext]; simp, htext, hw', hb, (h.atWordBoundary_iff hw').1 hedge⟩

/-- A text is free of a kind of words if none begins in it. -/
lemma free_iff {previous : Option Char} {t : Text} :
    Free IsWord sign previous t ↔
      ∀ front rest, t = front ++ rest → ¬ Begins IsWord sign (front.getLast?.or previous) rest := by
  -- by induction on the text; what was passed becomes the front
  induction t generalizing previous with
  | nil =>
    refine ⟨?_, fun _ => trivial⟩
    rintro - front rest heq ⟨-, w, b, rest', hrest, -⟩
    rw [(List.append_eq_nil_iff.1 heq.symm).2] at hrest
    simp at hrest
  | cons c t ih =>
    rw [Free, ih]
    constructor
    · rintro ⟨hhere, hlater⟩ front rest heq
      cases front with
      | nil =>
        obtain rfl : c :: t = rest := heq
        exact hhere
      | cons d front =>
        obtain ⟨rfl, rfl⟩ := List.cons.inj heq
        rw [getLast?_cons_or]
        exact hlater front rest rfl
    · intro h
      refine ⟨h [] (c :: t) rfl, fun front rest heq => ?_⟩
      have := h (c :: front) rest (by rw [heq]; rfl)
      rwa [getLast?_cons_or] at this

/-- A pattern of this shape occurs in no text that is free of it. -/
lemma Spells.occursIn_eq_false_iff (h : Spells inner IsWord) {t : Text} :
    (signed inner sign).occursIn t = false ↔ Free IsWord sign none t := by
  rw [← Bool.not_eq_true, occursIn_eq_true_iff (least_signed_pos inner sign), free_iff]
  constructor
  · intro hnone front rest heq hbegins
    refine hnone ⟨front, rest, heq, h.ends_signed_ne_nil_iff.2 ?_⟩
    rwa [Place.previous_after]
  · rintro hfree ⟨front, rest, heq, hends⟩
    refine hfree front rest heq ?_
    have := h.ends_signed_ne_nil_iff.1 hends
    rwa [Place.previous_after] at this

/-! ## Where nothing begins -/

/-- Whether a text is free hangs on what comes before only by whether it is a word character. -/
lemma Free.of_alike {previous previous' : Option Char}
    (halike : previous.any Text.isWordChar = previous'.any Text.isWordChar) {t : Text}
    (h : Free IsWord sign previous t) : Free IsWord sign previous' t := by
  cases t with
  | nil => trivial
  | cons c rest =>
    refine ⟨fun hbegins => h.1 ⟨?_, hbegins.2⟩, h.2⟩
    rw [halike]
    exact hbegins.1

/-- Nothing begins in the middle of a word or at a character that is no letter. -/
lemma Spells.free_append (h : Spells inner IsWord) {previous : Option Char} {v t : Text}
    (hv : (∀ c ∈ v, isLetter c = false) ∨ previous.any Text.isWordChar = true ∧ ∀ c ∈ v, isLetter c = true)
    (ht : Free IsWord sign (v.getLast?.or previous) t) : Free IsWord sign previous (v ++ t) := by
  induction v generalizing previous with
  | nil => exact ht
  | cons c v ih =>
    rw [getLast?_cons_or] at ht
    refine ⟨?_, ih ?_ ht⟩
    · rintro ⟨hprevious, w, b, rest, heq, hw, -⟩
      rcases hv with hother | ⟨hmiddle, -⟩
      · -- a word would begin with a letter here
        obtain ⟨hne, hletters⟩ := h.letters hw
        obtain ⟨d, w, rfl⟩ := List.exists_cons_of_ne_nil hne
        obtain ⟨rfl, -⟩ := List.cons.inj heq
        have := hletters c List.mem_cons_self
        rw [hother c List.mem_cons_self] at this
        exact Bool.noConfusion this
      · rw [hmiddle] at hprevious
        exact Bool.noConfusion hprevious
    · rcases hv with hother | ⟨-, hletters⟩
      · exact .inl fun d hd => hother d (List.mem_cons_of_mem _ hd)
      · exact .inr ⟨isWordChar_of_isLetter (hletters c List.mem_cons_self),
          fun d hd => hletters d (List.mem_cons_of_mem _ hd)⟩

/-- In front of an entity nothing begins that is not there without it. -/
lemma Spells.free_entity_append (h : Spells inner IsWord) {other : Char} (hother : IsSign other) {entity : Text}
    (hentity : Inert sign entity) {previous : Option Char} {t : Text}
    (ht : Free IsWord sign (some other) t) : Free IsWord sign previous (entity ++ t) := by
  refine h.free_append (.inl fun c hc => (hentity.foreign c hc).1) (ht.of_alike ?_)
  have hlast := hentity.last
  rw [List.getLast?_eq_some_getLast hentity.ne_nil] at hlast ⊢
  exact hother.word.trans hlast.symm

/-! ## Recoding makes nothing begin -/

/-- What holds no character of the entity was there before. -/
lemma Recoded.exists_of_append {other : Char} {entity : Text} (hne : entity ≠ []) {v s t : Text}
    (hv : ∀ c ∈ v, c ∉ entity) (h : Recoded other entity s (v ++ t)) :
    ∃ s', s = v ++ s' ∧ Recoded other entity s' t := by
  induction v generalizing s with
  | nil => exact ⟨s, rfl, h⟩
  | cons c v ih =>
    generalize heq : (c :: v) ++ t = t' at h
    cases h with
    | nil => simp at heq
    | @keep d s t' h =>
      obtain ⟨rfl, rfl⟩ := List.cons.inj heq
      obtain ⟨s', rfl, h'⟩ := ih (fun e he => hv e (List.mem_cons_of_mem _ he)) h
      exact ⟨s', rfl, h'⟩
    | @write s t' h =>
      obtain ⟨d, more, rfl⟩ := List.exists_cons_of_ne_nil hne
      obtain ⟨rfl, -⟩ := List.cons.inj heq
      exact absurd List.mem_cons_self (hv c List.mem_cons_self)

/-- What begins in a recoded text began in the text. -/
lemma Spells.begins_of_recoded (h : Spells inner IsWord) {other : Char} {entity : Text} (hentity : Inert sign entity)
    {previous : Option Char} {s t : Text} (hrecoded : Recoded other entity s t)
    (hbegins : Begins IsWord sign previous t) : Begins IsWord sign previous s := by
  obtain ⟨hprevious, w, b, rest, rfl, hw, hb⟩ := hbegins
  have hforeign : ∀ c ∈ w ++ b ++ [sign], c ∉ entity := by
    intro c hc hmem
    obtain ⟨hletter, hblank, hne⟩ := hentity.foreign c hmem
    rcases List.mem_append.1 hc with hc | hc
    · rcases List.mem_append.1 hc with hc | hc
      · rw [(h.letters hw).2 c hc] at hletter
        exact Bool.noConfusion hletter
      · rw [hb c hc] at hblank
        exact Bool.noConfusion hblank
    · exact hne (List.mem_singleton.1 hc)
  rw [List.append_cons] at hrecoded
  obtain ⟨s', rfl, -⟩ := hrecoded.exists_of_append hentity.ne_nil hforeign
  exact ⟨hprevious, w, b, s', by simp, hw, hb⟩

/-- A recoded text is free of what the text was free of. -/
lemma Spells.free_of_recoded (h : Spells inner IsWord) {other : Char} (hother : IsSign other)
    {entity : Text} (hentity : Inert sign entity) {previous : Option Char} {s t : Text}
    (hrecoded : Recoded other entity s t) (hs : Free IsWord sign previous s) : Free IsWord sign previous t := by
  induction hrecoded generalizing previous with
  | nil => trivial
  | keep c hrecoded ih =>
    exact ⟨fun hbegins => hs.1 (h.begins_of_recoded hentity (.keep c hrecoded) hbegins), ih hs.2⟩
  | write _ ih => exact h.free_entity_append hother hentity (ih hs.2)

/-! ## Writing the signs as entities -/

/-- A word and blanks in front of an entity begin nothing. -/
lemma Spells.not_begins_entity (h : Spells inner IsWord) (hsign : IsSign sign) {entity : Text}
    (hentity : Inert sign entity) {previous : Option Char} {w b t : Text} (hw : IsWord w) (hb : Text.Blanks b) :
    ¬ Begins IsWord sign previous (w ++ b ++ (entity ++ t)) := by
  rintro ⟨-, w', b', rest, heq, hw', hb'⟩
  obtain ⟨e, entity', rfl⟩ := List.exists_cons_of_ne_nil hentity.ne_nil
  obtain ⟨hletter, hblank, hne⟩ := hentity.foreign e List.mem_cons_self
  -- on either side the first character that is no letter and no blank has to be the same
  have hfirst : ∀ {w b : Text} {c : Char} {t : Text}, IsWord w → Text.Blanks b → isLetter c = false →
      Text.isBlank c = false →
      ((w ++ b ++ c :: t).dropWhile fun d => isLetter d || Text.isBlank d) = c :: t := by
    intro w b c t hw hb hletter hblank
    rw [List.dropWhile_append_of_pos, List.dropWhile_cons_of_neg]
    · simp [hletter, hblank]
    · intro d hd
      rcases List.mem_append.1 hd with hd | hd
      · simp [(h.letters hw).2 d hd]
      · simp [hb d hd]
  have hdrop := congrArg (List.dropWhile fun d => isLetter d || Text.isBlank d) heq
  rw [List.cons_append, hfirst hw hb hletter hblank, hfirst hw' hb' hsign.letter hsign.blank] at hdrop
  exact hne (List.cons.inj hdrop).1

/-- Behind a word and blanks in front of an entity a text is as free as it was behind the sign. -/
lemma Spells.free_entity (h : Spells inner IsWord) (hsign : IsSign sign) {entity : Text} (hentity : Inert sign entity)
    {previous : Option Char} {w b t : Text} (hw : IsWord w) (hb : Text.Blanks b) (ht : Free IsWord sign (some sign) t) :
    Free IsWord sign previous (w ++ b ++ (entity ++ t)) := by
  have hbegins : ¬ Begins IsWord sign previous (w ++ b ++ (entity ++ t)) := h.not_begins_entity hsign hentity hw hb
  obtain ⟨hne, hletters⟩ := h.letters hw
  obtain ⟨c, w, rfl⟩ := List.exists_cons_of_ne_nil hne
  rw [List.append_assoc] at hbegins ⊢
  refine ⟨hbegins, h.free_append (.inr ⟨?_, ?_⟩) (h.free_append (.inl ?_) (h.free_entity_append hsign hentity ht))⟩
  · exact isWordChar_of_isLetter (hletters c List.mem_cons_self)
  · exact fun d hd => hletters d (List.mem_cons_of_mem _ hd)
  · intro d hd
    by_contra hletter
    have := isBlank_of_isLetter (Bool.not_eq_false _ ▸ hletter)
    rw [hb d hd] at this
    exact Bool.noConfusion this

/-- With the signs written as entities a text is free of their words in front of signs. -/
lemma Spells.free_broken (h : Spells inner IsWord) (hsign : IsSign sign) {entity : Text} (hentity : Inert sign entity)
    (position : Nat) (previous : Option Char) (t : Text) :
    Recoded sign entity t (broken inner sign entity position previous t) ∧
      Free IsWord sign previous (broken inner sign entity position previous t) := by
  generalize hn : t.length = n
  -- by strong induction on the length, since a match is passed as a whole
  induction n using Nat.strong_induction_on generalizing position previous t with
  | _ n ih =>
    cases t with
    | nil => exact ⟨.nil, trivial⟩
    | cons c rest =>
      cases hm : (signed inner sign).matchAt? position previous (c :: rest) with
      | none =>
        obtain ⟨hrecoded, hfree⟩ := ih rest.length (by rw [← hn]; simp) (position + 1) (some c) rest rfl
        rw [broken, replaceFrom_cons hm]
        -- a word that began here in the recoded text would have begun here before
        refine ⟨.keep c hrecoded, fun hbegins => ?_, hfree⟩
        exact h.matchAt?_eq_none_iff.1 hm (h.begins_of_recoded hentity (.keep c hrecoded) hbegins)
      | some m =>
        obtain ⟨later, heq, htext, hw, hb, hprevious⟩ := h.exists_of_matchAt? hm
        have hne : m.text ≠ [] := by simp [htext]
        have hshorter : later.length < n := by
          have := congrArg List.length heq
          have := List.length_pos_iff.2 hne
          simp only [List.length_append] at *
          omega
        obtain ⟨hrecoded, hfree⟩ := ih later.length hshorter (position + m.text.length) m.text.getLast? later rfl
        have hlast : m.text.getLast? = some sign := by rw [htext]; simp
        rw [hlast] at hrecoded hfree
        rw [heq] at hm ⊢
        rw [broken, replaceFrom_append hm rfl hne, hlast, List.append_assoc]
        refine ⟨?_, h.free_entity hsign hentity hw hb hfree⟩
        rw [show m.text ++ later = m.group 1 ++ m.group 2 ++ sign :: later by rw [htext]; simp]
        exact (Recoded.refl _).append (.write hrecoded)

end

/-! ## Schemes and events -/

/-- The word of a scheme that runs a script, in letters of either case. -/
def IsScheme (w : Text) : Prop := w.map fold ∈ (["javascript", "vbscript", "livescript"].map String.toList : List Text)

/-- The name of an event: letters of either case behind an `on`. -/
def IsEvent (w : Text) : Prop := ∃ o v, w = o ++ v ∧ o.map fold = "on".toList ∧ v ≠ [] ∧ ∀ c ∈ v, isLetter c = true

/-- A word in letters of either case is spelt by texts that fold to it. -/
lemma forall₂_word_iff {letters w : Text} :
    List.Forall₂ (fun allowed c => allowed c = true) (letters.map fun c d => fold d == c) w ↔ w.map fold = letters := by
  rw [List.forall₂_map_left_iff]
  induction letters generalizing w with
  | nil => simp
  | cons c letters ih =>
    cases w with
    | nil => simp
    | cons d w => rw [List.forall₂_cons, ih, List.map_cons, List.cons.injEq, beq_iff_eq]

/-- The three names are the script schemes. -/
lemma spells_scheme : Spells (oneOfWords ["javascript", "vbscript", "livescript"]) IsScheme := by
  refine ⟨?_, ?_⟩
  · intro p p' t t'
    rw [oneOfWords, mem_ends_oneOfThese]
    constructor
    · rintro ⟨pattern, hpattern, hmem⟩
      obtain ⟨letters, hletters, rfl⟩ := List.mem_map.1 hpattern
      obtain ⟨w, hw, rfl, rfl⟩ := mem_ends_chars.1 hmem
      refine ⟨w, ?_, rfl, rfl⟩
      rw [IsScheme, forall₂_word_iff.1 hw]
      exact hletters
    · rintro ⟨w, hw, rfl, rfl⟩
      exact ⟨word (w.map fold), List.mem_map.2 ⟨w.map fold, hw, rfl⟩,
        mem_ends_chars.2 ⟨w, forall₂_word_iff.2 rfl, rfl, rfl⟩⟩
  · intro w hw
    have hall : ∀ letters ∈ (["javascript", "vbscript", "livescript"].map String.toList : List Text),
        letters ≠ [] ∧ letters.all Char.isLower = true := by decide
    obtain ⟨hne, hlower⟩ := hall _ hw
    exact ⟨fun hnil => hne (by rw [hnil]; rfl), fun c hc => List.all_eq_true.1 hlower _ (List.mem_map_of_mem hc)⟩

/-- The letters behind `on` are the event handlers. -/
lemma spells_event : Spells (word "on" ++ some1 isLetter) IsEvent := by
  refine ⟨?_, ?_⟩
  · intro p p' t t'
    rw [mem_ends_sequence]
    constructor
    · rintro ⟨q, s, hfirst, hmore⟩
      obtain ⟨o, ho, rfl, rfl⟩ := mem_ends_chars.1 hfirst
      obtain ⟨v, hv, hlength, -, rfl, rfl⟩ := mem_ends_repetition.1 hmore
      exact ⟨o ++ v, ⟨o, v, rfl, forall₂_word_iff.1 ho, List.length_pos_iff.1 hlength, hv⟩,
        (List.append_assoc _ _ _).symm, (Place.after_append _ _ _).symm⟩
    · rintro ⟨w, ⟨o, v, rfl, ho, hne, hv⟩, rfl, rfl⟩
      refine ⟨p.after o, v ++ t', mem_ends_chars.2 ⟨o, forall₂_word_iff.2 ho, List.append_assoc _ _ _, rfl⟩, ?_⟩
      exact mem_ends_repetition.2 ⟨v, hv, List.length_pos_iff.2 hne, by simp, rfl, Place.after_append _ _ _⟩
  · rintro w ⟨o, v, rfl, ho, hne, hv⟩
    refine ⟨by simp [hne], fun c hc => ?_⟩
    rcases List.mem_append.1 hc with hc | hc
    · have hlower : "on".toList.all Char.isLower = true := by decide
      exact List.all_eq_true.1 hlower _ (ho ▸ List.mem_map_of_mem hc)
    · exact hv c hc

lemma isSign_colon : IsSign ':' := ⟨by decide, by decide, by decide⟩

lemma isSign_equals : IsSign '=' := ⟨by decide, by decide, by decide⟩

/-- An entity without letters, blanks and signs is inert, unless a word character ends it. -/
lemma inert_of_all {sign : Char} {entity : Text} (hne : entity ≠ [])
    (hforeign : entity.all (fun c => !isLetter c && !Text.isBlank c && c != sign) = true)
    (hlast : entity.getLast?.any Text.isWordChar = false) : Inert sign entity := by
  refine ⟨hne, fun c hc => ?_, hlast⟩
  simpa [and_assoc] using List.all_eq_true.1 hforeign c hc

lemma inert_colon {sign : Char} (h : sign = ':' ∨ sign = '=') : Inert sign "&#58;".toList := by
  rcases h with rfl | rfl <;> exact inert_of_all (by decide) (by decide) (by decide)

lemma inert_equals {sign : Char} (h : sign = ':' ∨ sign = '=') : Inert sign "&#61;".toList := by
  rcases h with rfl | rfl <;> exact inert_of_all (by decide) (by decide) (by decide)

/-- A text in which neither the scheme of a script nor the name of an event stands in front of its sign. -/
def Neutral (t : Text) : Prop := scriptScheme.occursIn t = false ∧ eventAttribute.occursIn t = false

/-- A neutralised text is neutral. -/
theorem neutral_neutralize (t : Text) : Neutral (neutralize t) := by
  generalize ht : (t.flatMap fun c => if c == '<' then "&lt;".toList else [c]) = s
  have hschemes : Free IsScheme ':' none (breakSchemes s) := by
    rw [breakSchemes, replaceAll_eq]
    exact (spells_scheme.free_broken isSign_colon (inert_colon (.inl rfl)) 0 none s).2
  have hevents : Free IsEvent '=' none (breakEvents (breakSchemes s)) := by
    rw [breakEvents, replaceAll_eq]
    exact (spells_event.free_broken isSign_equals (inert_equals (.inr rfl)) 0 none _).2
  have hboth : Free IsScheme ':' none (breakEvents (breakSchemes s)) :=
    spells_scheme.free_of_recoded isSign_equals (inert_equals (.inl rfl)) (recoded_breakEvents _) hschemes
  rw [neutralize, ht]
  exact ⟨spells_scheme.occursIn_eq_false_iff.2 hboth, spells_event.occursIn_eq_false_iff.2 hevents⟩

end Stencil.Markup
