import Stencil.Proofs.Pattern.Occurrence

/-!
# Patterns that begin with one character

Everything that is looked for in a document begins with the same character. A text without this character is plain
from its first character to its last (`OpensWith.partsFrom_append`), and each match takes one of these characters with
it (`OpensWith.count_replaceAll_le`).
-/

namespace Stencil.Pattern

/-! ## Texts in which a pattern does not occur -/

lemma match?_of_occursIn_eq_false {pattern : Pattern} {t : Text} (h : pattern.occursIn t = false) {part : Part}
    (hpart : part ∈ pattern.parts t) : part.match? = none := by
  rw [occursIn, Option.isSome_eq_false_iff, Option.isNone_iff_eq_none, find?_eq_head?_findAll, List.head?_eq_none_iff,
    findAll, List.filterMap_eq_nil_iff] at h
  exact h part hpart

/-- A text in which a pattern does not occur has nothing to be replaced. -/
lemma replaceAll_of_occursIn_eq_false {pattern : Pattern} {t : Text} (h : pattern.occursIn t = false)
    (replacement : Match → Text) : pattern.replaceAll replacement t = t := by
  have hplain : ∀ part ∈ pattern.parts t, part.replaced replacement = part.source := by
    intro part hpart
    have hmatch := match?_of_occursIn_eq_false h hpart
    cases part with
    | plain s => rfl
    | found m => simp [Part.match?] at hmatch
  rw [replaceAll_eq_flatMap, List.flatMap_congr hplain, flatten_parts]

/-! ## The first character -/

/-- A pattern ends behind nothing but texts that begin with a certain character. -/
def OpensWith (pattern : Pattern) (d : Char) : Prop := ∀ p t, ∀ e ∈ pattern.ends p t, ∃ rest, t = d :: rest

lemma opensWith_exactly (d : Char) : (exactly d).OpensWith d := by
  rintro p t ⟨p', t'⟩ he
  exact ⟨t', (mem_ends_exactly.1 he).1⟩

lemma OpensWith.append {first : Pattern} {d : Char} (h : first.OpensWith d) (second : Pattern) :
    (first ++ second).OpensWith d := by
  rintro p t ⟨p', t'⟩ he
  obtain ⟨q, s, hfirst, -⟩ := mem_ends_sequence.1 he
  exact h p t (q, s) hfirst

lemma opensWith_literal (d : Char) (rest : Text) : (literal (d :: rest)).OpensWith d := by
  rintro p t ⟨p', t'⟩ he
  obtain ⟨w, hw, rfl, -⟩ := mem_ends_chars.1 he
  cases hw with
  | cons hd _ => exact ⟨_, by rw [eq_of_beq hd, List.cons_append]⟩

namespace OpensWith

variable {pattern : Pattern} {d : Char}

/-- A pattern does not match at a character that it does not open with. -/
lemma matchAt?_eq_none (h : pattern.OpensWith d) {c : Char} (hc : c ≠ d) (position : Nat) (previous : Option Char)
    (rest : Text) : pattern.matchAt? position previous (c :: rest) = none := by
  refine Pattern.matchAt?_eq_none fun p' t' hmem => hc ?_
  obtain ⟨rest', heq⟩ := h _ _ _ hmem
  exact (List.cons.inj heq).1

/-- A match begins with the character. -/
lemma mem_text (h : pattern.OpensWith d) {position : Nat} {previous : Option Char} {t : Text} {m : Match}
    (hm : pattern.matchAt? position previous t = some m) : d ∈ m.text := by
  obtain ⟨p', t', hmem, -⟩ := exists_end_of_matchAt? hm
  obtain ⟨rest, rfl⟩ := h _ _ _ hmem
  have hne := text_ne_nil_of_matchAt? (List.cons_ne_nil d rest) hm
  obtain ⟨htext, -⟩ := text_of_matchAt? hm
  obtain ⟨c, more, hcons⟩ := List.exists_cons_of_ne_nil hne
  rw [hcons, List.length_cons, List.take_succ_cons, List.cons.injEq] at htext
  rw [hcons, htext.1]
  exact List.mem_cons_self

/-- A pattern does not occur without the character that it opens with. -/
lemma occursIn_eq_false (h : pattern.OpensWith d) {t : Text} (ht : d ∉ t) : pattern.occursIn t = false := by
  rw [occursIn, Option.isSome_eq_false_iff, Option.isNone_iff_eq_none, find?_eq, findFrom?_eq_none_iff]
  rintro front rest rfl hrest
  obtain ⟨c, more, rfl⟩ := List.exists_cons_of_ne_nil hrest
  refine h.matchAt?_eq_none ?_ _ _ _
  rintro rfl
  exact ht (List.mem_append_right _ List.mem_cons_self)

/-- Plain text up to the next match is one part. -/
theorem partsFrom_append (h : pattern.OpensWith d) {w t : Text} (hw : d ∉ w) (hne : w ≠ []) {position : Nat}
    {previous : Option Char}
    (ht : ∀ s, (partsFrom pattern 0 (position + w.length) w.getLast? t).head? ≠ some (.plain s)) :
    partsFrom pattern 0 position previous (w ++ t) =
      .plain w :: partsFrom pattern 0 (position + w.length) w.getLast? t := by
  -- by induction on the front, of which each character is passed and put in front of the later ones
  induction w generalizing position previous with
  | nil => exact absurd rfl hne
  | cons c w ih =>
    have hc : c ≠ d := fun heq => hw (heq ▸ List.mem_cons_self)
    have hw : d ∉ w := fun hmem => hw (List.mem_cons_of_mem _ hmem)
    rw [List.cons_append, partsFrom, h.matchAt?_eq_none hc]
    rw [List.length_cons, Nat.add_comm w.length 1, ← Nat.add_assoc] at ht ⊢
    cases w with
    | nil =>
      have hlast : [c].getLast? = some c := rfl
      rw [hlast] at ht ⊢
      show consPlain c (partsFrom pattern 0 (position + 1) (some c) t) = _
      generalize partsFrom pattern 0 (position + 1) (some c) t = parts at ht
      unfold consPlain
      split
      · exact absurd rfl (ht _)
      · rfl
    | cons c' w =>
      rw [List.getLast?_cons_cons] at ht ⊢
      rw [ih hw (List.cons_ne_nil c' w) ht]
      rfl

/-- Plain text is kept. -/
lemma replaceFrom_append (h : pattern.OpensWith d) {w : Text} (hw : d ∉ w) (replacement : Match → Text)
    (position : Nat) (previous : Option Char) (t : Text) :
    pattern.replaceFrom replacement position previous (w ++ t) =
      w ++ pattern.replaceFrom replacement (position + w.length) (w.getLast?.or previous) t := by
  induction w generalizing position previous with
  | nil => rfl
  | cons c w ih =>
    have hc : c ≠ d := fun heq => hw (heq ▸ List.mem_cons_self)
    rw [List.cons_append, replaceFrom_cons (h.matchAt?_eq_none hc ..), ih fun hmem => hw (List.mem_cons_of_mem _ hmem),
      List.length_cons, Nat.add_comm w.length 1, ← Nat.add_assoc, getLast?_cons_or, List.cons_append]

/-- Nothing is replaced without the character that the pattern opens with. -/
lemma replaceFrom_of_not_mem (h : pattern.OpensWith d) {t : Text} (ht : d ∉ t) (replacement : Match → Text)
    (position : Nat) (previous : Option Char) : pattern.replaceFrom replacement position previous t = t := by
  have hkept := h.replaceFrom_append ht replacement position previous []
  rw [List.append_nil] at hkept
  rw [hkept]
  exact List.append_nil t

/-- Each match takes a character of its beginning away. -/
theorem count_replaceAll_le (h : pattern.OpensWith d) (replacement : Match → Text)
    (hreplacement : ∀ m, d ∉ replacement m) (t : Text) :
    (pattern.replaceAll replacement t).count d + (pattern.findAll t).length ≤ t.count d := by
  have hparts : ∀ parts : List Part, (∀ m, .found m ∈ parts → d ∈ m.text) →
      (parts.flatMap (Part.replaced replacement)).count d + (parts.filterMap Part.match?).length ≤
        (parts.flatMap Part.source).count d := by
    intro parts hfound
    -- by induction on the parts: every match loses its opening character, and no replacement adds one
    induction parts with
    | nil => exact Nat.le_refl 0
    | cons part rest ih =>
      have ih := ih fun m hm => hfound m (List.mem_cons_of_mem _ hm)
      rw [List.flatMap_cons, List.flatMap_cons, List.count_append, List.count_append]
      cases part with
      | plain s =>
        have hmatch : (Part.plain s).match? = none := rfl
        rw [List.filterMap_cons_none hmatch]
        show s.count d + _ + _ ≤ s.count d + _
        omega
      | found m =>
        have hpos : 0 < m.text.count d := List.count_pos_iff.2 (hfound m List.mem_cons_self)
        have hmatch : (Part.found m).match? = some m := rfl
        rw [List.filterMap_cons_some hmatch, List.length_cons]
        show (replacement m).count d + _ + _ ≤ m.text.count d + _
        rw [List.count_eq_zero_of_not_mem (hreplacement m)]
        omega
  have hle := hparts (pattern.parts t) fun m hm => by
    obtain ⟨position, previous, s, hm⟩ := exists_matchAt?_of_mem_parts hm
    exact h.mem_text hm
  rwa [flatten_parts] at hle

end OpensWith

end Stencil.Pattern
