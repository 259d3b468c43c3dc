import Stencil.Proofs.Markup.Recoding
import Stencil.Proofs.Pattern.Search

/-!
# Decoding what was escaped

A reader of a document decodes the entities in it once. The value of an attribute is escaped so that this gives the
value back, whatever is in it: entities of its own, quotes, or the scheme of a script.

Main statement: `decodeEntities_escapeValue`. Its proof follows the two steps of escaping. A value with every special
character escaped is a row of characters, each as itself or as one of eight entities (`Written`), and so it is with some
of its signs written as entities (`Written.recoded`). Decoding reads such a row from the left, one piece at a time.
-/

namespace Stencil.Markup

open Pattern

/-! ## The entities that escaping writes -/

/-- The entities that values are escaped with, and the characters that they stand for. -/
def writtenEntities : List (Text × Char) :=
  [("&amp;", '&'), ("&lt;", '<'), ("&gt;", '>'), ("&quot;", '"'), ("&#x27;", '\''), ("&#61;", '='),
    ("&#96;", '\x60'), ("&#58;", ':')].map fun (entity, c) => (entity.toList, c)

lemma ne_nil_of_mem_writtenEntities {e : Text} {c : Char} (h : (e, c) ∈ writtenEntities) : e ≠ [] := by
  rintro rfl
  have hall : ∀ pair ∈ writtenEntities, pair.1 ≠ [] := by decide
  exact hall _ h rfl

/-- Looking for an entity where one of these begins finds its end, and behind it the groups tell the character. -/
lemma search_writtenEntity {e : Text} {c : Char} (h : (e, c) ∈ writtenEntities) (position : Nat)
    (previous : Option Char) (t : Text) :
    ∃ p', entity.search (fun p _ => some p) ⟨position, previous, []⟩ (e ++ t) = some p' ∧
      p'.position = position + e.length ∧
      decodeEntity ⟨position, e, p'.captured.map fun c => (c.number, c.text)⟩ = [c] := by
  simp only [writtenEntities, List.map_cons, List.map_nil, List.mem_cons, List.not_mem_nil, or_false,
    Prod.mk.injEq] at h
  unfold entity oneOfWords
  rcases h with ⟨rfl, rfl⟩ | ⟨rfl, rfl⟩ | ⟨rfl, rfl⟩ | ⟨rfl, rfl⟩ | ⟨rfl, rfl⟩ | ⟨rfl, rfl⟩ | ⟨rfl, rfl⟩ | ⟨rfl, rfl⟩
  all_goals
    simp [oneOfThese, search, search_append, word, literal, exactly, Pattern.char, pass?, fold, atMostOne,
      searchRepetition, searchRepetition_zero, attempt, isHexDigit, Place.next, Capture.text]
    rfl

/-- Each of the entities is found where it begins, whatever stands behind it, and decoded to its character. -/
lemma matchAt?_writtenEntity {e : Text} {c : Char} (h : (e, c) ∈ writtenEntities) (position : Nat)
    (previous : Option Char) (t : Text) :
    ∃ m, entity.matchAt? position previous (e ++ t) = some m ∧ m.text = e ∧ decodeEntity m = [c] := by
  obtain ⟨p', hsearch, hposition, hdecoded⟩ := search_writtenEntity h position previous t
  exact ⟨_, matchAt?_eq_some hsearch hposition (ne_nil_of_mem_writtenEntities h), rfl, hdecoded⟩

/-- No entity begins at any other character than the ampersand. -/
lemma matchAt?_entity_eq_none {c : Char} (hc : c ≠ '&') (position : Nat) (previous : Option Char) (t : Text) :
    entity.matchAt? position previous (c :: t) = none := by
  refine matchAt?_eq_none fun p' t' hmem => hc ?_
  unfold entity at hmem
  obtain ⟨pattern, hpattern, hmem⟩ := mem_ends_oneOfThese.1 hmem
  simp only [List.mem_cons, List.not_mem_nil, or_false] at hpattern
  rcases hpattern with rfl | rfl | rfl
  all_goals
    obtain ⟨_, _, hmem, -⟩ := mem_ends_sequence.1 hmem
    obtain ⟨_, _, hmem, -⟩ := mem_ends_sequence.1 hmem
  · obtain ⟨w, hw, heq, -⟩ := mem_ends_chars.1 hmem
    cases hw with
    | @cons _ d _ _ hd _ =>
      rw [List.cons_append, List.cons.injEq] at heq
      rw [heq.1]
      exact eq_of_fold_eq (by decide) (eq_of_beq hd)
  · obtain ⟨w, hw, heq, -⟩ := mem_ends_chars.1 hmem
    cases hw with
    | @cons _ d _ _ hd _ =>
      rw [List.cons_append, List.cons.injEq] at heq
      rw [heq.1]
      exact eq_of_beq hd
  · obtain ⟨heq, -⟩ := mem_ends_exactly.1 hmem
    exact (List.cons.inj heq).1

/-! ## Reading a row of pieces -/

/-- The second text writes the first: each character as itself, unless it is an ampersand, or as an entity. -/
inductive Written : Text → Text → Prop
  | nil : Written [] []
  | plain {c : Char} (hc : c ≠ '&') {s t : Text} (h : Written s t) : Written (c :: s) (c :: t)
  | entity {e : Text} {c : Char} (he : (e, c) ∈ writtenEntities) {s t : Text} (h : Written s t) :
    Written (c :: s) (e ++ t)

/-- Decoding from any place on gives back what was written. -/
lemma replaceFrom_of_written {s t : Text} (h : Written s t) (position : Nat) (previous : Option Char) :
    entity.replaceFrom decodeEntity position previous t = s := by
  induction h generalizing position previous with
  | nil => rfl
  | plain hc _ ih => rw [replaceFrom_cons (matchAt?_entity_eq_none hc ..), ih]
  | @entity e c he s t _ ih =>
    obtain ⟨m, hm, htext, hdecoded⟩ := matchAt?_writtenEntity he position previous t
    rw [replaceFrom_append hm htext (ne_nil_of_mem_writtenEntities he), hdecoded, ih]
    rfl

lemma decodeEntities_of_written {s t : Text} (h : Written s t) : decodeEntities t = s := by
  rw [decodeEntities, replaceAll_eq]
  exact replaceFrom_of_written h 0 none

/-- Characters that are written by themselves or as entities make up texts that are. -/
lemma written_flatMap {write : Char → Text} (hwrite : ∀ c, write c = [c] ∧ c ≠ '&' ∨ (write c, c) ∈ writtenEntities)
    (t : Text) : Written t (t.flatMap write) := by
  induction t with
  | nil => exact .nil
  | cons c t ih =>
    rw [List.flatMap_cons]
    rcases hwrite c with ⟨hsame, hc⟩ | hentity
    · rw [hsame]
      exact .plain hc ih
    · exact .entity hentity ih

/-- Signs that are in no entity may be written as entities afterwards. -/
theorem Written.recoded {sign : Char} {entity s t t' : Text} (h : Written s t)
    (hsign : ∀ pair ∈ writtenEntities, sign ∉ pair.1) (hentity : (entity, sign) ∈ writtenEntities)
    (hrecoded : Recoded sign entity t t') : Written s t' := by
  induction h generalizing t' with
  | nil =>
    cases hrecoded
    exact .nil
  | plain hc _ ih =>
    cases hrecoded with
    | keep _ hrecoded => exact .plain hc (ih hrecoded)
    | write hrecoded => exact .entity hentity (ih hrecoded)
  | @entity e c he s t _ ih =>
    have hfree : sign ∉ e := hsign (e, c) he
    obtain ⟨t'', rfl, hrest⟩ := hrecoded.eq_append hfree
    exact .entity he (ih hrest)

/-! ## Values of attributes -/

namespace Attribute

/-- An escaped character is itself, or one of the entities. -/
lemma escapeChar_cases (c : Char) : escapeChar c = [c] ∧ c ≠ '&' ∨ (escapeChar c, c) ∈ writtenEntities := by
  unfold escapeChar
  split <;> first | exact .inr (by decide) | exact .inl ⟨rfl, by assumption⟩

/-- A reader who decodes entities once finds the value of an attribute. -/
theorem decodeEntities_escapeValue (value : Text) : decodeEntities (escapeValue value) = value :=
  decodeEntities_of_written
    ((written_flatMap escapeChar_cases value).recoded (by decide) (by decide) (recoded_breakSchemes _))

end Attribute

end Stencil.Markup
