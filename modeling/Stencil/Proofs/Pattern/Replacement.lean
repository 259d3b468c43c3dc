import Mathlib.Data.List.Chain
import Stencil.Proofs.Pattern.Ends

/-!
# Matches and replacement

A match is an end of its pattern, and a text with its matches replaced can be followed from the left: at a place
without a match one character is kept, at a place with a match its whole text is replaced at once. What holds of plain
text and of every single replacement holds of the whole (`replaceAll_induction`).
-/

namespace Stencil.Pattern

/-! ## Matches -/

/-- A match is one of the ends of its pattern. -/
lemma exists_end_of_matchAt? {pattern : Pattern} {position : Nat} {previous : Option Char} {t : Text} {m : Match}
    (h : pattern.matchAt? position previous t = some m) :
    ∃ p' t', (p', t') ∈ pattern.ends ⟨position, previous, []⟩ t ∧ m.text = t.take (p'.position - position) ∧
      m.captured = p'.captured.map fun c => (c.number, c.text) := by
  unfold matchAt? at h
  rw [search_eq_findSome?] at h
  split at h
  · simp at h
  · rename_i p' hp'
    obtain ⟨⟨q, t'⟩, hmem, hq⟩ := List.exists_of_findSome?_eq_some hp'
    obtain rfl : q = p' := Option.some.inj hq
    split at h
    · simp at h
    · rw [← Option.some.inj h]
      exact ⟨q, t', hmem, rfl, rfl⟩

/-- What a search finds behind some characters is a match of these characters. -/
lemma matchAt?_eq_some {pattern : Pattern} {position : Nat} {previous : Option Char} {w t : Text} {p' : Place}
    (h : pattern.search (fun p _ => some p) ⟨position, previous, []⟩ (w ++ t) = some p')
    (hposition : p'.position = position + w.length) (hne : w ≠ []) :
    pattern.matchAt? position previous (w ++ t) =
      some ⟨position, w, p'.captured.map fun c => (c.number, c.text)⟩ := by
  have hpos : 0 < w.length := List.length_pos_iff.2 hne
  unfold matchAt?
  rw [h]
  show (if p'.position ≤ position then none else _) = _
  rw [if_neg (by omega), hposition, Nat.add_sub_cancel_left, List.take_left' rfl]

/-- Where a pattern has no end it has no match. -/
lemma matchAt?_eq_none {pattern : Pattern} {position : Nat} {previous : Option Char} {t : Text}
    (h : ∀ p' t', (p', t') ∉ pattern.ends ⟨position, previous, []⟩ t) :
    pattern.matchAt? position previous t = none := by
  cases hm : pattern.matchAt? position previous t with
  | none => rfl
  | some m =>
    obtain ⟨p', t', hmem, -⟩ := exists_end_of_matchAt? hm
    exact absurd hmem (h p' t')

lemma mem_consPlain {c : Char} {parts : List Part} {m : Match} :
    .found m ∈ consPlain c parts ↔ .found m ∈ parts := by
  unfold consPlain
  split <;> simp

/-- Every match among the parts matches at some place. -/
lemma exists_matchAt?_of_mem_partsFrom {pattern : Pattern} {skip position : Nat} {previous : Option Char} {t : Text}
    {m : Match} (h : .found m ∈ partsFrom pattern skip position previous t) :
    ∃ position previous s, pattern.matchAt? position previous s = some m := by
  induction t generalizing skip position previous with
  | nil => simp [partsFrom] at h
  | cons c rest ih =>
    cases skip with
    | succ skip =>
      rw [partsFrom] at h
      exact ih h
    | zero =>
      rw [partsFrom] at h
      split at h
      · rename_i found hfound
        rcases List.mem_cons.1 h with heq | h
        · obtain rfl := Part.found.inj heq
          exact ⟨position, previous, c :: rest, hfound⟩
        · exact ih h
      · exact ih (mem_consPlain.1 h)

/-- Every match among the parts of a text is the preferred match of some place. -/
lemma exists_matchAt?_of_mem_parts {pattern : Pattern} {t : Text} {m : Match} (h : .found m ∈ pattern.parts t) :
    ∃ position previous s, pattern.matchAt? position previous s = some m := by
  rw [parts_eq] at h
  exact exists_matchAt?_of_mem_partsFrom h

lemma isChain_consPlain {c : Char} {parts : List Part}
    (h : parts.IsChain fun a b => a.match?.isSome = true ∨ b.match?.isSome = true) :
    (consPlain c parts).IsChain fun a b => a.match?.isSome = true ∨ b.match?.isSome = true := by
  unfold consPlain
  split
  · -- the character goes to the text in front, which stays in front of the same parts
    rename_i t rest
    refine h.tail.cons fun next hnext => ?_
    cases rest with
    | nil => simp at hnext
    | cons part rest =>
      obtain rfl : part = next := by simpa using hnext
      exact (List.isChain_cons_cons.1 h).1
  · rename_i hparts
    refine h.cons fun next hnext => .inr ?_
    cases next with
    | found m => rfl
    | plain t =>
      obtain ⟨rest, heq⟩ := List.head?_eq_some_iff.1 hnext
      exact absurd heq (hparts t rest)

/-- No two plain parts follow each other. -/
lemma isChain_partsFrom (pattern : Pattern) (skip position : Nat) (previous : Option Char) (t : Text) :
    (partsFrom pattern skip position previous t).IsChain fun a b =>
      a.match?.isSome = true ∨ b.match?.isSome = true := by
  induction t generalizing skip position previous with
  | nil =>
    rw [partsFrom]
    exact .nil
  | cons c t ih =>
    cases skip with
    | succ skip =>
      rw [partsFrom]
      exact ih skip _ _
    | zero =>
      rw [partsFrom]
      split
      · exact (ih _ _ _).cons fun next _ => .inl rfl
      · exact isChain_consPlain (ih _ _ _)

/-- Between two matches, and around them, stands at most one text. -/
lemma isChain_parts (pattern : Pattern) (t : Text) :
    (pattern.parts t).IsChain fun a b => a.match?.isSome = true ∨ b.match?.isSome = true := by
  rw [parts_eq]
  exact isChain_partsFrom pattern 0 0 none t

/-! ## Replacement -/

/-- What is written for a part. -/
def Part.replaced (replacement : Match → Text) : Part → Text
  | .plain t => t
  | .found m => replacement m

/-- A text from a place on, with its matches replaced. -/
def replaceFrom (pattern : Pattern) (replacement : Match → Text) (position : Nat) (previous : Option Char) (t : Text) :
    Text :=
  (partsFrom pattern 0 position previous t).flatMap (Part.replaced replacement)

lemma replaceAll_eq_flatMap (pattern : Pattern) (replacement : Match → Text) (t : Text) :
    pattern.replaceAll replacement t = (pattern.parts t).flatMap (Part.replaced replacement) := rfl

lemma replaceAll_eq (pattern : Pattern) (replacement : Match → Text) (t : Text) :
    pattern.replaceAll replacement t = pattern.replaceFrom replacement 0 none t := by
  rw [replaceAll_eq_flatMap, parts_eq, replaceFrom]

/-- What relates plain text to itself and each match to its replacement relates a text to the text with all matches
replaced. -/
theorem replaceAll_induction {R : Text → Text → Prop} {pattern : Pattern} {replacement : Match → Text}
    (refl : ∀ s, R s s) (append : ∀ {a a' b b'}, R a a' → R b b' → R (a ++ b) (a' ++ b'))
    (found : ∀ {position previous s m}, pattern.matchAt? position previous s = some m → R m.text (replacement m))
    (t : Text) : R t (pattern.replaceAll replacement t) := by
  have hparts : ∀ parts : List Part, (∀ part ∈ parts, R part.source (part.replaced replacement)) →
      R (parts.flatMap Part.source) (parts.flatMap (Part.replaced replacement)) := by
    intro parts
    induction parts with
    | nil => exact fun _ => refl []
    | cons part rest ih =>
      intro h
      rw [List.flatMap_cons, List.flatMap_cons]
      exact append (h part List.mem_cons_self) (ih fun part' h' => h part' (List.mem_cons_of_mem _ h'))
  have := hparts (pattern.parts t) fun part hpart => by
    cases part with
    | plain s => exact refl s
    | found m =>
      obtain ⟨position, previous, s, hm⟩ := exists_matchAt?_of_mem_parts hpart
      exact found hm
  rw [flatten_parts] at this
  rwa [replaceAll_eq_flatMap]

/-! ## One place after the other -/

lemma flatMap_consPlain (replacement : Match → Text) (c : Char) (parts : List Part) :
    (consPlain c parts).flatMap (Part.replaced replacement) = c :: parts.flatMap (Part.replaced replacement) := by
  unfold consPlain
  split <;> simp [Part.replaced]

/-- Where there is no match a character is kept. -/
lemma replaceFrom_cons {pattern : Pattern} {replacement : Match → Text} {position : Nat} {previous : Option Char}
    {c : Char} {rest : Text} (h : pattern.matchAt? position previous (c :: rest) = none) :
    pattern.replaceFrom replacement position previous (c :: rest) =
      c :: pattern.replaceFrom replacement (position + 1) (some c) rest := by
  unfold replaceFrom
  rw [partsFrom, h]
  exact flatMap_consPlain replacement c _

/-- The characters that belong to a match already are passed over. -/
lemma partsFrom_append (pattern : Pattern) (position : Nat) (previous : Option Char) (w t : Text) :
    partsFrom pattern w.length position previous (w ++ t) =
      partsFrom pattern 0 (position + w.length) (w.getLast?.or previous) t := by
  induction w generalizing position previous with
  | nil => rfl
  | cons c w ih =>
    rw [List.length_cons, List.cons_append, partsFrom, ih, List.getLast?_cons]
    congr 1
    · omega
    · cases w.getLast? <;> rfl

/-- A match is a part, and the parts go on behind it. -/
lemma partsFrom_of_matchAt? {pattern : Pattern} {position : Nat} {previous : Option Char} {w t : Text} {m : Match}
    (h : pattern.matchAt? position previous (w ++ t) = some m) (hw : m.text = w) (hne : w ≠ []) :
    partsFrom pattern 0 position previous (w ++ t) =
      .found m :: partsFrom pattern 0 (position + w.length) w.getLast? t := by
  obtain ⟨c, w', rfl⟩ := List.exists_cons_of_ne_nil hne
  rw [List.cons_append] at h
  rw [List.cons_append, partsFrom, h]
  simp only [hw, List.length_cons, Nat.add_sub_cancel]
  rw [partsFrom_append, List.getLast?_cons]
  congr 2
  · omega
  · cases w'.getLast? <;> rfl

/-- A match is replaced as a whole. -/
lemma replaceFrom_append {pattern : Pattern} {replacement : Match → Text} {position : Nat} {previous : Option Char}
    {w t : Text} {m : Match} (h : pattern.matchAt? position previous (w ++ t) = some m) (hw : m.text = w)
    (hne : w ≠ []) :
    pattern.replaceFrom replacement position previous (w ++ t) =
      replacement m ++ pattern.replaceFrom replacement (position + w.length) w.getLast? t := by
  unfold replaceFrom
  rw [partsFrom_of_matchAt? h hw hne]
  rfl

end Stencil.Pattern
