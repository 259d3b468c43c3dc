import Stencil.Markup.Escape
import Stencil.Proofs.Markup.Reading
import Stencil.Proofs.Markup.Removal

/-!
# What a reader sees of an escaped value

A value is escaped when it is put into a document, and the document is sanitised as a whole afterwards. An escaped value
holds no `<`, so nothing of it is removed and no tag is seen in it (`Sanitizer.sanitize_of_not_mem`); it is neutralised
like any text. That writes a few more of its signs as entities, and it is still one text that writes the value
(`Written.neutralize`).

Main statement: a reader who decodes entities once sees the value as it was (`decodeEntities_sanitize_escape`).
-/

namespace Stencil.Markup

open Pattern

/-! ## Texts without tags -/

/-- A text without brackets is neutralised, and nothing else happens to it. -/
theorem Sanitizer.sanitize_of_not_mem (s : Sanitizer) {t : Text} (h : '<' ∉ t) : s.sanitize t = neutralize t := by
  rw [sanitize, sweepRounds_of_settled (settled_of_not_mem h), s.rebuild_of_not_mem h]

/-! ## Text that writes a value -/

/-- The first step of neutralising writes brackets as entities. -/
lemma recoded_brackets (t : Text) :
    Recoded '<' "&lt;".toList t (t.flatMap fun c => if c == '<' then "&lt;" else [c]) := by
  induction t with
  | nil => exact .nil
  | cons c t ih =>
    rw [List.flatMap_cons]
    by_cases hc : c = '<'
    · subst hc
      exact .write ih
    · rw [if_neg (by simpa using hc)]
      exact .keep c ih

/-- To neutralise a text does not change what it writes. -/
theorem Written.neutralize {s t : Text} (h : Written s t) : Written s (neutralize t) := by
  have hbrackets := h.recoded (by decide) (by decide) (recoded_brackets t)
  have hschemes := hbrackets.recoded (by decide) (by decide) (recoded_breakSchemes _)
  exact hschemes.recoded (by decide) (by decide) (recoded_breakEvents _)

/-- An escaped character is itself, or one of the entities. -/
lemma escapeChar_cases (c : Char) : escapeChar c = [c] ∧ c ≠ '&' ∨ (escapeChar c, c) ∈ writtenEntities := by
  unfold escapeChar
  split <;> first | exact .inr (by decide) | exact .inl ⟨rfl, by assumption⟩

/-- A reader who decodes entities once finds a value that was escaped as it was: in the text of a document that was
sanitised, and as the value of an attribute. -/
theorem decodeEntities_sanitize_escape (s : Sanitizer) (t value : Text) :
    decodeEntities (s.sanitize (escape t)) = t ∧ decodeEntities (Attribute.escapeValue value) = value := by
  refine ⟨?_, Attribute.decodeEntities_escapeValue value⟩
  rw [s.sanitize_of_not_mem (not_mem_escape (by decide) t)]
  exact decodeEntities_of_written (written_flatMap escapeChar_cases t).neutralize

end Stencil.Markup
