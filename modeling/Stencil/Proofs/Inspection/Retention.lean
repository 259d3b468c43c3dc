import Stencil.Proofs.Inspection.Harmless
import Stencil.Proofs.Inspection.Shape
import Stencil.Proofs.Markup.Removal

/-!
# What is removed from an accepted value

A value that is put out without being escaped is refused if a script is found in it, and what the sanitiser removes with
its content is dropped from the document in silence. The two go by different lists. A rule on scripts finds every script
and every embedded document that would be removed (`exists_rule_of_occursIn_element`), but there are three elements that
no rule is about.

Main statement: of the elements that are removed, an accepted value holds none but these three, and all of it is left
exactly if it holds neither one of them nor a comment (`overlooked_of_validateValue`). Each of the three does occur in
accepted values (`exists_removed_of_validateValue`).
-/

namespace Stencil.Inspection

open Pattern Json Markup

/-! ## Elements and rules -/

/-- The elements that are removed with their content and that no rule on scripts is about. -/
def overlookedTags : List Text := ["style", "template", "noscript"]

/-- A pattern occurs wherever one does that ends in no other places. -/
lemma occursIn_of_ends {first second : Pattern} (hfirst : 0 < first.least) (hsecond : 0 < second.least)
    (h : ∀ p t e, e ∈ first.ends p t → ∃ e', e' ∈ second.ends p t) {t : Text} (hoccurs : first.occursIn t = true) :
    second.occursIn t = true := by
  obtain ⟨front, rest, rfl, hends⟩ := (occursIn_eq_true_iff hfirst).1 hoccurs
  obtain ⟨e, he⟩ := List.exists_mem_of_ne_nil _ hends
  obtain ⟨e', he'⟩ := h _ _ e he
  exact (occursIn_eq_true_iff hsecond).2 ⟨front, rest, rfl, List.ne_nil_of_mem he'⟩

/-- The beginning of an element is one of a tag with one of some names. -/
lemma mem_ends_of_elementHead {name : Text} {names : List Text} (hname : name ∈ names) {p : Place} {t : Text}
    {e : Place × Text} (h : e ∈ (elementHead name).ends p t) :
    e ∈ (exactly '<' ++ blanks ++ oneOfWords names ++ .wordBoundary).ends p t := by
  obtain ⟨p', t'⟩ := e
  obtain ⟨p2, t2, hword, hboundary⟩ := mem_ends_sequence.1 h
  obtain ⟨p1, t1, hblanks, hword⟩ := mem_ends_sequence.1 hword
  have hone : (p2, t2) ∈ (oneOfWords names).ends p1 t1 :=
    mem_ends_oneOfThese.2 ⟨word name, List.mem_map_of_mem hname, hword⟩
  exact mem_ends_sequence.2 ⟨p2, t2, mem_ends_sequence.2 ⟨p1, t1, hblanks, hone⟩, hboundary⟩

/-- An element that is removed is found by a rule on scripts, or it is one of those that are overlooked. -/
theorem exists_rule_of_occursIn_element {name t : Text} (hname : name ∈ contentTags)
    (h : (element name).occursIn t = true) :
    name ∈ overlookedTags ∨ ∃ rule ∈ ScriptInjection.rules, rule.occursIn t = true := by
  have hcases : ∀ name ∈ contentTags, name ∈ overlookedTags ∨ name = "script".toList ∨
      name ∈ (["iframe", "object", "embed"] : List Text) := by decide
  rcases hcases name hname with hoverlooked | rfl | hembedding
  · exact .inl hoverlooked
  · refine .inr ⟨ScriptInjection.scriptOpen, by simp [ScriptInjection.rules], ?_⟩
    exact occursIn_of_ends (least_element_pos _) (by decide) (fun _ _ _ he => exists_mem_ends_elementHead he) h
  · have hnames : (["iframe", "object", "embed"] : List Text) ⊆
        ["iframe", "frame", "frameset", "object", "embed", "applet", "base", "meta", "form", "link", "svg",
          "math"] := by
      decide
    refine .inr ⟨ScriptInjection.embeddingTag, by simp [ScriptInjection.rules], ?_⟩
    refine occursIn_of_ends (least_element_pos _) (by decide) (fun p t e he => ?_) h
    obtain ⟨e', he'⟩ := exists_mem_ends_elementHead he
    exact ⟨e', mem_ends_of_elementHead (hnames hembedding) he'⟩

/-! ## Accepted values -/

namespace Validator

variable {v : Validator} {name : Text} {value cleaned part : Value} {level : Nat} {t : Text}

/-- Of the elements that are removed, a harmless text without markup holds none but those that are overlooked. -/
lemma Harmless.overlooked (h : v.Harmless t) (hrejects : v.settings.rejectsMarkup = true) {tag : Text}
    (htag : tag ∈ contentTags) (hoccurs : (element tag).occursIn t = true) : tag ∈ overlookedTags := by
  rcases exists_rule_of_occursIn_element htag hoccurs with hoverlooked | ⟨rule, hrule, hfound⟩
  · exact hoverlooked
  · rw [h.scripts hrejects rule hrule] at hfound
    exact absurd hfound Bool.false_ne_true

/-- Nothing is removed from a harmless text without markup exactly if it holds none of what is overlooked. -/
lemma Harmless.settled_iff (h : v.Harmless t) (hrejects : v.settings.rejectsMarkup = true) :
    Settled t ↔ (∀ tag ∈ overlookedTags, (element tag).occursIn t = false) ∧ comment.occursIn t = false := by
  constructor
  · intro hsettled
    have hall : ∀ tag ∈ overlookedTags, tag ∈ contentTags := by decide
    refine ⟨fun tag htag => ?_, hsettled comment (List.mem_append_right _ (List.mem_singleton_self _))⟩
    exact hsettled (element tag) (List.mem_append_left _ (List.mem_map_of_mem (hall tag htag)))
  · rintro ⟨helements, hcomment⟩ pattern hpattern
    rcases List.mem_append.1 hpattern with hpattern | hpattern
    · obtain ⟨tag, htag, rfl⟩ := List.mem_map.1 hpattern
      rw [← Bool.not_eq_true]
      intro hoccurs
      rw [helements tag (h.overlooked hrejects htag hoccurs)] at hoccurs
      exact Bool.false_ne_true hoccurs
    · rw [List.mem_singleton.1 hpattern]
      exact hcomment

/-- In a value that was accepted where markup is rejected, no element that is removed occurs but for three. The removal
leaves a text of the value as it is exactly if none of the three occurs in it, and no comment does. -/
theorem overlooked_of_validateValue (h : v.validateValue name value = .ok cleaned)
    (hrejects : v.settings.rejectsMarkup = true) (hpart : cleaned.PartAt level part) (ht : part.HasText t) :
    (∀ tag ∈ contentTags, (element tag).occursIn t = true → tag ∈ overlookedTags) ∧
      (sweepRounds maxRounds t = t ↔
        (∀ tag ∈ overlookedTags, (element tag).occursIn t = false) ∧ comment.occursIn t = false) := by
  obtain ⟨-, -, hclean⟩ := validateValue_eq_ok_iff.1 h
  obtain ⟨-, origin, horigin⟩ := exists_clean_of_partAt hpart hclean
  have hharmless := harmless_of_hasText horigin ht
  refine ⟨fun tag => hharmless.overlooked hrejects, ?_⟩
  rw [← hharmless.settled_iff hrejects]
  constructor
  · intro hsame
    rcases settled_or_count_le maxRounds t with hsettled | hle
    · rwa [hsame] at hsettled
    · -- rounds that do not settle a text take a bracket each
      rw [hsame] at hle
      exact absurd (Nat.le_sub_of_add_le' hle) (by rw [Nat.sub_self]; decide)
  · exact fun hsettled => sweepRounds_of_settled hsettled maxRounds

/-- A validator that rejects markup in values. -/
def strict : Validator := ⟨⟨100, 100, .warning, true⟩, .none⟩

/-- A value without control characters is left as it is if it is accepted. -/
lemma validateValue_eq_ok_of_isOk (h : (v.validateValue name value).isOk = true)
    (hstripped : stripped value = value) : v.validateValue name value = .ok value := by
  obtain ⟨cleaned, hcleaned⟩ := exists_eq_ok_of_isOk h
  rw [hcleaned, clean_eq_stripped (validateValue_eq_ok_iff.1 hcleaned).2.2, hstripped]

/-- A text in bold is accepted, and nothing of it is removed. -/
theorem overlooked_of_validateValue_bold :
    strict.validateValue "note" (.array [.string "<b>a</b>"]) = .ok (.array [.string "<b>a</b>"]) ∧
      strict.settings.rejectsMarkup = true ∧
      (Value.array [.string "<b>a</b>"]).PartAt 1 (.string "<b>a</b>") ∧
      (Value.string "<b>a</b>").HasText "<b>a</b>" ∧ sweepRounds maxRounds "<b>a</b>" = "<b>a</b>" := by
  have haccepted : strict.validateValue "note" (.array [.string "<b>a</b>"]) = .ok (.array [.string "<b>a</b>"]) :=
    validateValue_eq_ok_of_isOk (by decide +kernel) rfl
  have hpart : (Value.array [.string "<b>a</b>"]).PartAt 1 (.string "<b>a</b>") :=
    .item (List.mem_singleton_self _) (.self _)
  have hnone : (∀ tag ∈ overlookedTags, (element tag).occursIn "<b>a</b>" = false) ∧
      comment.occursIn "<b>a</b>" = false := by decide +kernel
  exact ⟨haccepted, rfl, hpart, .string _, (overlooked_of_validateValue haccepted rfl hpart (.string _)).2.2 hnone⟩

/-- A value that holds one of the three elements is accepted by a validator that rejects markup, and nothing is left of
it in a document. -/
theorem exists_removed_of_validateValue :
    strict.settings.rejectsMarkup = true ∧ ∀ tag ∈ overlookedTags, ∃ t : Text,
      t = '<' :: tag ++ ">x</".toList ++ tag ++ ['>'] ∧ strict.validateValue "note" (.string t) = .ok (.string t) ∧
        (element tag).occursIn t = true ∧ (Sanitizer.ofExtraTags []).sanitize t = [] := by
  have hall : ∀ tag ∈ overlookedTags,
      (strict.validateValue "note" (.string ('<' :: tag ++ ">x</".toList ++ tag ++ ['>']))).isOk = true ∧
        stripControls ('<' :: tag ++ ">x</".toList ++ tag ++ ['>']) = '<' :: tag ++ ">x</".toList ++ tag ++ ['>'] ∧
        (element tag).occursIn ('<' :: tag ++ ">x</".toList ++ tag ++ ['>']) = true ∧
        (Sanitizer.ofExtraTags []).sanitize ('<' :: tag ++ ">x</".toList ++ tag ++ ['>']) = [] := by
    decide +kernel
  refine ⟨rfl, fun tag htag => ?_⟩
  obtain ⟨haccepted, hcontrols, hoccurs, hremoved⟩ := hall tag htag
  exact ⟨_, rfl, validateValue_eq_ok_of_isOk haccepted (congrArg Value.string hcontrols), hoccurs, hremoved⟩

end Validator

end Stencil.Inspection
