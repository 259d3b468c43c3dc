import Stencil.Proofs.Pattern.Replacement

/-!
# Where a pattern occurs

A pattern that takes at least one character occurs in a text if it has an end at some place of it
(`occursIn_eq_true_iff`): which end is preferred, and what the search passes over, makes no difference.

What a pattern sees of the text around it is the wordness of the characters next to it. So an occurrence in a text is
still there when more text is put around it, as long as no word goes on over the joints and the pattern does not ask
for the ends of lines (`occursIn_append`).
-/

namespace Stencil.Pattern

/-! ## The least number of characters -/

/-- The number of characters that a pattern takes at least. -/
def least : Pattern → Nat
  | .empty => 0
  | .chars classes => classes.length
  | .sequence first second => first.least + second.least
  | .choice first second => min first.least second.least
  | .repetition _ _ least _ => least
  | .group _ inner => inner.least
  | .wordBoundary => 0
  | .lineStart => 0
  | .lineEnd => 0

lemma Reaches.position_le {p p' : Place} {t t' : Text} (h : Reaches p t p' t') : p.position ≤ p'.position := by
  obtain ⟨passed, -, hposition⟩ := h
  omega

/-- An end lies behind the place by at least the least length. -/
lemma position_add_least_le {pattern : Pattern} {p p' : Place} {t t' : Text} (h : (p', t') ∈ pattern.ends p t) :
    p.position + pattern.least ≤ p'.position := by
  -- by induction on the pattern: the least lengths add up as the places do
  induction pattern generalizing p t p' t' with
  | empty =>
    obtain ⟨rfl, -⟩ := Prod.mk.inj (List.mem_singleton.1 h)
    exact Nat.le_refl _
  | chars classes =>
    obtain ⟨w, hw, -, rfl⟩ := mem_ends_chars.1 h
    exact Nat.le_of_eq (by rw [Place.position_after, least, hw.length_eq])
  | sequence first second ih1 ih2 =>
    obtain ⟨q, s, h1, h2⟩ := mem_ends_sequence.1 h
    have h1 := ih1 h1
    have h2 := ih2 h2
    rw [least]
    omega
  | choice first second ih1 ih2 =>
    rw [least]
    rcases mem_ends_choice.1 h with h | h
    · have := ih1 h
      omega
    · have := ih2 h
      omega
  | repetition lazy allowed least most =>
    obtain ⟨w, -, hleast, -, -, rfl⟩ := mem_ends_repetition.1 h
    rw [Place.position_after, Pattern.least]
    omega
  | group number inner ih =>
    obtain ⟨q, hq, rfl⟩ := mem_ends_group.1 h
    rw [Place.position_remember]
    exact ih hq
  | wordBoundary => exact Reaches.position_le (reaches_of_mem_ends h)
  | lineStart => exact Reaches.position_le (reaches_of_mem_ends h)
  | lineEnd => exact Reaches.position_le (reaches_of_mem_ends h)

/-! ## Occurrences -/

/-- The character in front of what stands behind a text. -/
lemma getLast?_cons_or (c : Char) (w : Text) (previous : Option Char) :
    (c :: w).getLast?.or previous = w.getLast?.or (some c) := by
  rw [List.getLast?_cons]
  cases w.getLast? <;> rfl

lemma Place.previous_after (p : Place) (w : Text) : (p.after w).previous = w.getLast?.or p.previous := by
  induction w generalizing p with
  | nil => rfl
  | cons c w ih =>
    rw [Place.after_cons, ih, getLast?_cons_or]
    rfl

lemma Place.after_eq (position : Nat) (previous : Option Char) (w : Text) :
    (⟨position, previous, []⟩ : Place).after w = ⟨position + w.length, w.getLast?.or previous, []⟩ := by
  have hposition := Place.position_after ⟨position, previous, []⟩ w
  have hprevious := Place.previous_after ⟨position, previous, []⟩ w
  have hcaptured := Place.captured_after ⟨position, previous, []⟩ w
  generalize Place.after _ w = q at hposition hprevious hcaptured
  obtain ⟨position', previous', captured'⟩ := q
  simp_all

/-- Where a pattern that takes a character has an end it has a match. -/
lemma matchAt?_eq_none_iff {pattern : Pattern} (hleast : 0 < pattern.least) {position : Nat} {previous : Option Char}
    {t : Text} : pattern.matchAt? position previous t = none ↔ pattern.ends ⟨position, previous, []⟩ t = [] := by
  constructor
  · intro h
    unfold matchAt? at h
    split at h
    · rename_i hsearch
      rw [search_eq_findSome?, List.findSome?_eq_none_iff] at hsearch
      exact List.eq_nil_iff_forall_not_mem.2 fun e he => absurd (hsearch e he) (by simp)
    · rename_i p' hsearch
      rw [search_eq_findSome?] at hsearch
      obtain ⟨⟨q, t'⟩, hmem, hq⟩ := List.exists_of_findSome?_eq_some hsearch
      obtain rfl : q = p' := Option.some.inj hq
      have := position_add_least_le hmem
      rw [if_neg (by dsimp only at this; omega)] at h
      simp at h
  · intro h
    refine matchAt?_eq_none fun p' t' hmem => ?_
    rw [h] at hmem
    exact List.not_mem_nil hmem

/-- Nothing is found if and only if nothing matches at any place before the end. -/
lemma findFrom?_eq_none_iff {pattern : Pattern} {position : Nat} {previous : Option Char} {t : Text} :
    pattern.findFrom? position previous t = none ↔
      ∀ front rest, t = front ++ rest → rest ≠ [] →
        pattern.matchAt? (position + front.length) (front.getLast?.or previous) rest = none := by
  -- by induction on the text; what was passed becomes the front
  induction t generalizing position previous with
  | nil =>
    refine ⟨fun _ front rest heq hrest => absurd (List.append_eq_nil_iff.1 heq.symm).2 hrest, fun _ => rfl⟩
  | cons c t ih =>
    have hstep : pattern.findFrom? position previous (c :: t) = none ↔
        pattern.matchAt? position previous (c :: t) = none ∧ pattern.findFrom? (position + 1) (some c) t = none := by
      rw [findFrom?]
      cases pattern.matchAt? position previous (c :: t) <;> simp
    rw [hstep, ih]
    constructor
    · rintro ⟨hhere, hlater⟩ front rest heq hrest
      cases front with
      | nil =>
        obtain rfl : c :: t = rest := heq
        exact hhere
      | cons d front =>
        obtain ⟨rfl, rfl⟩ := List.cons.inj heq
        rw [List.length_cons, getLast?_cons_or, ← Nat.add_assoc, Nat.add_right_comm]
        exact hlater front rest rfl hrest
    · intro h
      refine ⟨h [] (c :: t) rfl (List.cons_ne_nil c t), fun front rest heq hrest => ?_⟩
      have := h (c :: front) rest (by rw [heq]; rfl) hrest
      rwa [List.length_cons, getLast?_cons_or, ← Nat.add_assoc, Nat.add_right_comm] at this

/-- A pattern that takes a character occurs in a text if it ends somewhere behind some place. -/
theorem occursIn_eq_true_iff {pattern : Pattern} (hleast : 0 < pattern.least) {t : Text} :
    pattern.occursIn t = true ↔ ∃ front rest, t = front ++ rest ∧ pattern.ends (Place.start.after front) rest ≠ [] := by
  have hplace : ∀ front : Text, Place.start.after front = ⟨0 + front.length, front.getLast?.or none, []⟩ :=
    fun front => Place.after_eq 0 none front
  rw [← Bool.not_eq_false, occursIn, Option.isSome_eq_false_iff, Option.isNone_iff_eq_none, find?_eq,
    findFrom?_eq_none_iff]
  constructor
  · intro h
    by_contra hnone
    refine h fun front rest heq _ => (matchAt?_eq_none_iff hleast).2 ?_
    by_contra hends
    exact hnone ⟨front, rest, heq, by rwa [hplace]⟩
  · rintro ⟨front, rest, heq, hends⟩ h
    rw [hplace] at hends
    have hrest : rest ≠ [] := by
      rintro rfl
      obtain ⟨⟨p', t'⟩, hmem⟩ := List.exists_mem_of_ne_nil _ hends
      obtain ⟨passed, hpassed, hposition⟩ := reaches_of_mem_ends hmem
      have := position_add_least_le hmem
      rw [(List.append_eq_nil_iff.1 hpassed.symm).1, List.length_nil] at hposition
      omega
    exact hends ((matchAt?_eq_none_iff hleast).1 (h front rest heq hrest))

/-! ## More text around -/

/-- Whether a pattern does not ask for the ends of lines. -/
def isUnanchored : Pattern → Bool
  | .empty => true
  | .chars _ => true
  | .sequence first second => first.isUnanchored && second.isUnanchored
  | .choice first second => first.isUnanchored && second.isUnanchored
  | .repetition _ _ _ _ => true
  | .group _ inner => inner.isUnanchored
  | .wordBoundary => true
  | .lineStart => false
  | .lineEnd => false

/-- The characters in front of two places are both characters of words, or both none. -/
def Alike (p q : Place) : Prop := p.previous.any Text.isWordChar = q.previous.any Text.isWordChar

lemma Alike.after {p q : Place} (h : Alike p q) (w : Text) : Alike (p.after w) (q.after w) := by
  rw [Alike, Place.previous_after, Place.previous_after]
  cases w.getLast? with
  | none => exact h
  | some c => rfl

/-- An end is still one at a place that is alike, and with more text behind that does not continue a word. -/
lemma exists_mem_ends_append {pattern : Pattern} (hpattern : pattern.isUnanchored = true) {p q p' : Place}
    {t t' : Text}
    (halike : Alike p q) (h : (p', t') ∈ pattern.ends p t) {behind : Text}
    (hbehind : behind.head?.any Text.isWordChar = false) :
    ∃ q', Alike p' q' ∧ (q', t' ++ behind) ∈ pattern.ends q (t ++ behind) := by
  -- by induction on the pattern; only a word boundary looks beyond the text, and there it sees no word character
  induction pattern generalizing p q t p' t' with
  | empty =>
    obtain ⟨rfl, rfl⟩ := Prod.mk.inj (List.mem_singleton.1 h)
    exact ⟨q, halike, List.mem_singleton.2 rfl⟩
  | chars classes =>
    obtain ⟨w, hw, rfl, rfl⟩ := mem_ends_chars.1 h
    exact ⟨q.after w, halike.after w, mem_ends_chars.2 ⟨w, hw, List.append_assoc _ _ _, rfl⟩⟩
  | sequence first second ih1 ih2 =>
    obtain ⟨hfirst, hsecond⟩ := Bool.and_eq_true_iff.1 hpattern
    obtain ⟨m, s, h1, h2⟩ := mem_ends_sequence.1 h
    obtain ⟨m', hm', h1'⟩ := ih1 hfirst halike h1
    obtain ⟨q', hq', h2'⟩ := ih2 hsecond hm' h2
    exact ⟨q', hq', mem_ends_sequence.2 ⟨m', s ++ behind, h1', h2'⟩⟩
  | choice first second ih1 ih2 =>
    obtain ⟨hfirst, hsecond⟩ := Bool.and_eq_true_iff.1 hpattern
    rcases mem_ends_choice.1 h with h | h
    · obtain ⟨q', hq', h'⟩ := ih1 hfirst halike h
      exact ⟨q', hq', mem_ends_choice.2 (.inl h')⟩
    · obtain ⟨q', hq', h'⟩ := ih2 hsecond halike h
      exact ⟨q', hq', mem_ends_choice.2 (.inr h')⟩
  | repetition lazy allowed least most =>
    obtain ⟨w, hw, hleast, hmost, rfl, rfl⟩ := mem_ends_repetition.1 h
    exact ⟨q.after w, halike.after w,
      mem_ends_repetition.2 ⟨w, hw, hleast, hmost, List.append_assoc _ _ _, rfl⟩⟩
  | group number inner ih =>
    obtain ⟨m, hm, rfl⟩ := mem_ends_group.1 h
    obtain ⟨m', hm', h'⟩ := ih hpattern halike hm
    exact ⟨m'.remember number (t ++ behind) (m'.position - q.position), hm', mem_ends_group.2 ⟨m', h', rfl⟩⟩
  | wordBoundary =>
    obtain ⟨hboundary, rfl, rfl⟩ := mem_ends_wordBoundary.1 h
    refine ⟨q, halike, mem_ends_wordBoundary.2 ⟨?_, rfl, rfl⟩⟩
    have hhead : (t' ++ behind).head?.any Text.isWordChar = t'.head?.any Text.isWordChar := by
      cases t' with
      | nil => exact hbehind
      | cons c t' => rfl
    rw [atWordBoundary, hhead, ← show p'.previous.any Text.isWordChar = q.previous.any Text.isWordChar from halike]
    exact hboundary
  | lineStart => exact Bool.noConfusion hpattern
  | lineEnd => exact Bool.noConfusion hpattern

/-- What occurs in a text occurs in it with more text around, as long as no word goes on over the joints. -/
theorem occursIn_append {pattern : Pattern} (hleast : 0 < pattern.least) (hpattern : pattern.isUnanchored = true)
    {front t behind : Text} (hfront : front.getLast?.any Text.isWordChar = false)
    (hbehind : behind.head?.any Text.isWordChar = false) (h : pattern.occursIn t = true) :
    pattern.occursIn (front ++ t ++ behind) = true := by
  obtain ⟨s, rest, rfl, hends⟩ := (occursIn_eq_true_iff hleast).1 h
  obtain ⟨⟨p', t'⟩, hmem⟩ := List.exists_mem_of_ne_nil _ hends
  have halike : Alike (Place.start.after s) (Place.start.after (front ++ s)) := by
    rw [Place.after_append]
    refine Alike.after ?_ s
    rw [Alike, Place.previous_after]
    cases hlast : front.getLast? with
    | none => rfl
    | some c =>
      rw [hlast] at hfront
      exact hfront.symm
  obtain ⟨q', -, hmem'⟩ := exists_mem_ends_append hpattern halike hmem hbehind
  exact (occursIn_eq_true_iff hleast).2
    ⟨front ++ s, rest ++ behind, by simp, fun hnil => absurd (hnil ▸ hmem') List.not_mem_nil⟩

end Stencil.Pattern
