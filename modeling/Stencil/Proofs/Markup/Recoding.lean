import Stencil.Markup.Tag
import Stencil.Proofs.Pattern.Replacement

/-!
# Signs written as entities

Neutralising a text and escaping a value both end by writing some signs, a colon behind the scheme of a script or an
equals sign behind the name of an event, as entities, and touch nothing else. `Recoded` says so for any sign; which
occurrences are rewritten is left open, and no statement about the characters of a document needs it.
-/

namespace Stencil.Markup

open Pattern

/-! ## Texts with some signs written as entities -/

/-- The second text is the first with some occurrences of a sign written as an entity. -/
inductive Recoded (sign : Char) (entity : Text) : Text → Text → Prop
  | nil : Recoded sign entity [] []
  | keep (c : Char) {s t : Text} (h : Recoded sign entity s t) : Recoded sign entity (c :: s) (c :: t)
  | write {s t : Text} (h : Recoded sign entity s t) : Recoded sign entity (sign :: s) (entity ++ t)

namespace Recoded

variable {sign : Char} {entity : Text}

lemma refl (t : Text) : Recoded sign entity t t := by
  induction t with
  | nil => exact .nil
  | cons c t ih => exact .keep c ih

lemma append {s s' t t' : Text} (h : Recoded sign entity s s') (h' : Recoded sign entity t t') :
    Recoded sign entity (s ++ t) (s' ++ t') := by
  induction h with
  | nil => exact h'
  | keep c _ ih => exact .keep c ih
  | write _ ih =>
    rw [List.append_assoc]
    exact .write ih

/-- No character comes in but those of the entity. -/
lemma mem {s t : Text} (h : Recoded sign entity s t) {c : Char} (hc : c ∈ t) : c ∈ s ∨ c ∈ entity := by
  induction h with
  | nil => exact .inl hc
  | keep d _ ih =>
    rcases List.mem_cons.1 hc with rfl | hc
    · exact .inl List.mem_cons_self
    · exact (ih hc).imp_left (List.mem_cons_of_mem _)
  | write _ ih =>
    rcases List.mem_append.1 hc with hc | hc
    · exact .inr hc
    · exact (ih hc).imp_left (List.mem_cons_of_mem _)

/-- A text without the sign at its beginning is kept as it is. -/
lemma eq_append {w s t : Text} (hw : sign ∉ w) (h : Recoded sign entity (w ++ s) t) :
    ∃ t', t = w ++ t' ∧ Recoded sign entity s t' := by
  induction w generalizing t with
  | nil => exact ⟨t, rfl, h⟩
  | cons c w ih =>
    rw [List.cons_append] at h
    cases h with
    | keep _ h =>
      obtain ⟨t', rfl, h'⟩ := ih (fun hmem => hw (List.mem_cons_of_mem _ hmem)) h
      exact ⟨t', rfl, h'⟩
    | write h => exact absurd List.mem_cons_self hw

end Recoded

/-! ## Signs behind a word -/

/-- A match of a word, blanks and a sign: the word is an end of its pattern at the beginning of a word, and the two
groups hold the word and the blanks. -/
lemma exists_of_matchAt?_signed {inner : Pattern} {sign : Char} {position : Nat} {previous : Option Char} {t : Text}
    {m : Match}
    (h : (Pattern.wordBoundary ++ Pattern.group 1 inner ++ Pattern.group 2 blanks ++ exactly sign).matchAt? position
      previous t = some m) :
    ∃ (w b rest : Text) (q : Place), t = w ++ b ++ sign :: rest ∧
      (q, b ++ sign :: rest) ∈ inner.ends ⟨position, previous, []⟩ t ∧
      atWordBoundary ⟨position, previous, []⟩ t = true ∧ (∀ c ∈ b, Text.isBlank c = true) ∧
      m.text = w ++ b ++ [sign] ∧ m.group 1 = w ∧ m.group 2 = b := by
  obtain ⟨p', t', hmem, htext, hcaptured⟩ := exists_end_of_matchAt? h
  obtain ⟨p3, t3, hmem, hsign⟩ := mem_ends_sequence.1 hmem
  obtain ⟨p2, t2, hmem, hblanks⟩ := mem_ends_sequence.1 hmem
  obtain ⟨p1, t1, hboundary, hword⟩ := mem_ends_sequence.1 hmem
  obtain ⟨hedge, rfl, rfl⟩ := mem_ends_wordBoundary.1 hboundary
  obtain ⟨q, hinner, rfl⟩ := mem_ends_group.1 hword
  obtain ⟨word, rfl, hq⟩ := reaches_of_mem_ends hinner
  obtain ⟨q', hq', rfl⟩ := mem_ends_group.1 hblanks
  obtain ⟨blank, hblank, rfl, rfl⟩ := mem_ends_many.1 hq'
  obtain ⟨rfl, rfl⟩ := mem_ends_exactly.1 hsign
  -- the word and the blanks behind it are the two groups
  have hgroups : m.captured = (2, blank) :: (1, word) :: q.captured.map fun c => (c.number, c.text) := by
    rw [hcaptured]
    simp only [Place.captured_next, Place.captured_remember, Place.captured_after, List.map_cons]
    rw [Capture.text_eq (by simp), Capture.text_eq (by simp [hq])]
  have hfirst : m.group 1 = word := by
    rw [Match.group, Match.group?, hgroups]
    rfl
  have hsecond : m.group 2 = blank := by
    rw [Match.group, Match.group?, hgroups]
    rfl
  refine ⟨word, blank, t', q, (List.append_assoc _ _ _).symm, hinner, hedge, hblank, ?_, hfirst, hsecond⟩
  rw [htext, show word ++ (blank ++ sign :: t') = (word ++ blank ++ [sign]) ++ t' by simp]
  refine List.take_left' ?_
  simp only [Place.position_next, Place.position_remember, Place.position_after, hq, List.length_append,
    List.length_cons, List.length_nil]
  omega

/-- A match of a word, blanks and a sign is made up of its two groups and the sign. -/
lemma text_of_signed {inner : Pattern} {sign : Char} {position : Nat} {previous : Option Char} {t : Text} {m : Match}
    (h : (Pattern.wordBoundary ++ Pattern.group 1 inner ++ Pattern.group 2 blanks ++ exactly sign).matchAt? position
      previous t = some m) :
    m.text = m.group 1 ++ m.group 2 ++ [sign] := by
  obtain ⟨w, b, rest, q, -, -, -, -, htext, rfl, rfl⟩ := exists_of_matchAt?_signed h
  exact htext

/-- Writing the sign behind each such word as an entity changes nothing else. -/
lemma recoded_replaceAll_signed (inner : Pattern) (sign : Char) (entity t : Text) :
    Recoded sign entity t
      ((Pattern.wordBoundary ++ Pattern.group 1 inner ++ Pattern.group 2 blanks ++ exactly sign).replaceAll
        (fun m => m.group 1 ++ m.group 2 ++ entity) t) := by
  refine replaceAll_induction Recoded.refl Recoded.append ?_ t
  intro position previous s m hm
  rw [text_of_signed hm]
  have hsign : Recoded sign entity [sign] (entity ++ []) := .write .nil
  rw [List.append_nil] at hsign
  exact (Recoded.refl _).append hsign

lemma recoded_breakSchemes (t : Text) : Recoded ':' "&#58;".toList t (breakSchemes t) :=
  recoded_replaceAll_signed _ ':' "&#58;".toList t

lemma recoded_breakEvents (t : Text) : Recoded '=' "&#61;".toList t (breakEvents t) :=
  recoded_replaceAll_signed _ '=' "&#61;".toList t

/-! ## Characters that are gone -/

/-- No tag begins in a neutralised text. -/
lemma lt_not_mem_neutralize (t : Text) : '<' ∉ neutralize t := by
  intro h
  rcases (recoded_breakEvents _).mem h with h | h
  · rcases (recoded_breakSchemes _).mem h with h | h
    · obtain ⟨c, -, hc⟩ := List.mem_flatMap.1 h
      split at hc
      · exact absurd hc (by decide)
      · rename_i hne
        rw [List.mem_singleton] at hc
        exact hne (by rw [← hc]; rfl)
    · exact absurd h (by decide)
  · exact absurd h (by decide)

end Stencil.Markup
