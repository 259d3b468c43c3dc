import Mathlib.Data.List.Infix
import Stencil.Text.Blank

/-!
# Where a text is cut

What the functions that cut a text find, said of the text alone.

* `Text.cutAt?` cuts at the occurrence of a needle that has the least text in front of it (`cutAt?_eq_some_iff`), and
  fails exactly if there is none (`cutAt?_eq_none_iff`).
* A byte position cuts a text between two characters (`splitAtByte?_eq_some_iff`) or not at all
  (`splitAtByte?_eq_none_iff`).
* The first word of a text has nothing but blanks in front of it, and a blank or nothing behind it
  (`head?_words_eq_some_iff`). Trimming takes away nothing but blanks (`exists_blanks_trim`).
* Where a sign stands for the first or the last time can be told from a text (`append_cons_inj_of_first`,
  `append_cons_inj_of_last`).
-/

namespace Stencil.Text

/-! ## Needles -/

lemma behind?_eq_some_iff {needle t rest : Text} : behind? needle t = some rest ↔ t = needle ++ rest := by
  refine ⟨eq_append_of_behind?_eq_some, ?_⟩
  rintro rfl
  induction needle with
  | nil => rfl
  | cons c needle ih => rw [List.cons_append, behind?, if_pos rfl, ih]

lemma behind?_eq_none_iff {needle t : Text} : behind? needle t = none ↔ ¬ needle <+: t := by
  rw [Option.eq_none_iff_forall_not_mem]
  constructor
  · rintro h ⟨rest, rfl⟩
    exact h rest (behind?_eq_some_iff.2 rfl)
  · intro h rest hrest
    exact h ⟨rest, (behind?_eq_some_iff.1 hrest).symm⟩

/-- A text is cut at the first occurrence of a needle: no occurrence has less text in front of it. -/
structure CutsFirst (needle t front rest : Text) : Prop where
  eq : t = front ++ needle ++ rest
  first : ∀ a b, t = a ++ needle ++ b → front.length ≤ a.length

/-- There is only one first occurrence. -/
lemma CutsFirst.unique {needle t front front' rest rest' : Text} (h : CutsFirst needle t front rest)
    (h' : CutsFirst needle t front' rest') : front = front' ∧ rest = rest' := by
  have hlength : front.length = front'.length :=
    Nat.le_antisymm (h.first _ _ h'.eq) (h'.first _ _ h.eq)
  have heq := h.eq.symm.trans h'.eq
  rw [List.append_assoc, List.append_assoc] at heq
  obtain ⟨hfront, hrest⟩ := List.append_inj heq hlength
  exact ⟨hfront, List.append_cancel_left hrest⟩

/-- Cutting fails exactly if the needle is nowhere in the text. -/
theorem cutAt?_eq_none_iff {needle t : Text} : cutAt? needle t = none ↔ ¬ needle <:+: t := by
  induction t with
  | nil =>
    rw [cutAt?, List.infix_nil]
    split <;> simp_all
  | cons c t ih =>
    rw [cutAt?, List.infix_cons_iff, not_or, ← behind?_eq_none_iff, ← ih]
    cases behind? needle (c :: t) <;> simp

/-- A text is cut at the first occurrence of the needle. -/
lemma cutsFirst_of_cutAt? {needle t front rest : Text} (h : cutAt? needle t = some (front, rest)) :
    CutsFirst needle t front rest := by
  refine ⟨eq_of_cutAt?_eq_some h, ?_⟩
  induction t generalizing front with
  | nil =>
    rw [cutAt?] at h
    split at h
    · simp only [Option.some.injEq, Prod.mk.injEq] at h
      simp [← h.1]
    · simp at h
  | cons c t ih =>
    intro a b heq
    rw [cutAt?] at h
    split at h
    · simp only [Option.some.injEq, Prod.mk.injEq] at h
      simp [← h.1]
    · rename_i hnone
      obtain ⟨⟨front', rest'⟩, hcut, hpair⟩ := Option.map_eq_some_iff.1 h
      obtain ⟨rfl, rfl⟩ := Prod.mk.inj hpair
      cases a with
      | nil =>
        -- an occurrence right here would have been found
        exact absurd ⟨b, by simpa using heq.symm⟩ (behind?_eq_none_iff.1 hnone)
      | cons d a =>
        rw [List.cons_append, List.cons_append, List.cons.injEq] at heq
        have := ih hcut a b heq.2
        simp only [List.length_cons]
        omega

/-- Cutting finds the first occurrence of the needle. -/
theorem cutAt?_eq_some_iff {needle t front rest : Text} :
    cutAt? needle t = some (front, rest) ↔ CutsFirst needle t front rest := by
  refine ⟨cutsFirst_of_cutAt?, fun h => ?_⟩
  cases hcut : cutAt? needle t with
  | none => exact absurd ⟨front, rest, h.eq.symm⟩ (cutAt?_eq_none_iff.1 hcut)
  | some pair =>
    obtain ⟨front', rest'⟩ := pair
    obtain ⟨rfl, rfl⟩ := h.unique (cutsFirst_of_cutAt? hcut)
    rfl

/-- Text in front in which no occurrence can begin moves the first one by its length. -/
lemma CutsFirst.prepend {d : Char} {needle t front rest v : Text} (hv : d ∉ v)
    (h : CutsFirst (d :: needle) t front rest) : CutsFirst (d :: needle) (v ++ t) (v ++ front) rest := by
  induction v with
  | nil => exact h
  | cons c v ih =>
    have ih := ih fun hmem => hv (List.mem_cons_of_mem _ hmem)
    refine ⟨by rw [List.cons_append, ih.eq]; rfl, fun a b heq => ?_⟩
    cases a with
    | nil =>
      obtain ⟨rfl, -⟩ := List.cons.inj heq
      exact absurd List.mem_cons_self hv
    | cons e a =>
      have := ih.first a b (List.cons.inj heq).2
      simp only [List.cons_append, List.length_cons]
      omega

/-! ## Byte positions -/

/-- A byte position between characters of a text: the text can be cut in two there. -/
def IsBoundary (t : Text) (position : Nat) : Prop := ∃ front back, t = front ++ back ∧ byteLength front = position

/-- A text is split behind a front at the bytes of this front. -/
lemma splitAtByte?_byteLength (front back : Text) :
    splitAtByte? (byteLength front) (front ++ back) = some (front, back) := by
  induction front with
  | nil => rw [byteLength_nil, splitAtByte?, List.nil_append]
  | cons c front ih =>
    obtain ⟨n, hn⟩ := Nat.exists_eq_succ_of_ne_zero (Nat.ne_of_gt (Nat.add_pos_left c.utf8Size_pos (byteLength front)))
    rw [byteLength_cons, hn, List.cons_append, splitAtByte?, if_pos (by omega), ← Nat.succ_eq_add_one, ← hn,
      Nat.add_sub_cancel_left, ih]
    rfl

/-- A byte position cuts a text just as its parts say. -/
theorem splitAtByte?_eq_some_iff {position : Nat} {t front back : Text} :
    splitAtByte? position t = some (front, back) ↔ t = front ++ back ∧ byteLength front = position := by
  refine ⟨eq_append_of_splitAtByte?_eq_some, ?_⟩
  rintro ⟨rfl, rfl⟩
  exact splitAtByte?_byteLength front back

/-- A text is cut in one way only in front of as many bytes. -/
lemma append_inj_of_byteLength {front front' back back' : Text} (h : front ++ back = front' ++ back')
    (hlength : byteLength front = byteLength front') : front = front' ∧ back = back' := by
  have hcut := splitAtByte?_byteLength front back
  rw [h, hlength, splitAtByte?_byteLength] at hcut
  obtain ⟨hfront, hback⟩ := Prod.mk.inj (Option.some.inj hcut)
  exact ⟨hfront.symm, hback.symm⟩

theorem splitAtByte?_eq_none_iff {position : Nat} {t : Text} :
    splitAtByte? position t = none ↔ ¬ t.IsBoundary position := by
  rw [Option.eq_none_iff_forall_ne_some, Prod.forall]
  simp only [ne_eq, splitAtByte?_eq_some_iff, IsBoundary, not_exists]

instance (t : Text) (position : Nat) : Decidable (t.IsBoundary position) :=
  decidable_of_iff ((splitAtByte? position t).isSome = true) (by
    rw [← not_iff_not, ← splitAtByte?_eq_none_iff, Option.not_isSome_iff_eq_none])

/-- Behind a text that stands in front, positions are further by its length. -/
lemma isBoundary_append (before t : Text) (n : Nat) :
    (before ++ t).IsBoundary (byteLength before + n) ↔ t.IsBoundary n := by
  constructor
  · rintro ⟨front, back, heq, hlength⟩
    rcases List.append_eq_append_iff.1 heq with ⟨middle, rfl, rfl⟩ | ⟨middle, rfl, rfl⟩
    · exact ⟨middle, back, rfl, by rw [byteLength_append] at hlength; omega⟩
    · -- the position lies no further than where the text begins
      exact ⟨[], t, rfl, by rw [byteLength_append] at hlength; rw [byteLength_nil]; omega⟩
  · rintro ⟨front, back, rfl, rfl⟩
    exact ⟨before ++ front, back, (List.append_assoc ..).symm, byteLength_append before front⟩

/-- A piece is cut out at the bytes before it and with it. -/
lemma slice?_append (before piece behind : Text) :
    slice? (byteLength before) (byteLength (before ++ piece)) (before ++ piece ++ behind) = some piece := by
  have hlength : byteLength (before ++ piece) - byteLength before = byteLength piece := by
    rw [byteLength_append, Nat.add_sub_cancel_left]
  rw [slice?, if_pos (by rw [byteLength_append]; exact Nat.le_add_right _ _), List.append_assoc,
    splitAtByte?_byteLength, hlength]
  simp only [bind, Option.bind, splitAtByte?_byteLength, pure]

/-! ## Words -/

/-- A text made up of blanks. -/
def Blanks (t : Text) : Prop := ∀ c ∈ t, isBlank c = true

/-- A text without blanks, and not empty. -/
def IsWord (t : Text) : Prop := t ≠ [] ∧ ∀ c ∈ t, isBlank c = false

/-- A text that does not go on with a character of a word: it begins with a blank, or is empty. -/
def Parted (t : Text) : Prop := ∀ c, t.head? = some c → isBlank c = true

/-- A separator ends a piece, whatever stands in front of it and behind it. -/
lemma split_append_separator {isSeparator : Char → Bool} {d : Char} (hd : isSeparator d = true) (s t : Text) :
    split isSeparator (s ++ d :: t) = split isSeparator s ++ split isSeparator t := by
  induction s with
  | nil => simp [split, hd]
  | cons c s ih =>
    rw [List.cons_append, split, split, ih]
    split
    · rfl
    · cases hs : split isSeparator s with
      | nil => exact absurd hs (split_ne_nil _ _)
      | cons piece pieces => rfl

/-- Pieces without a separator that are joined by it are split again. -/
lemma split_join {d : Char} {parts : List Text} (hne : parts ≠ []) (hparts : ∀ part ∈ parts, d ∉ part) :
    split (· == d) (join [d] parts) = parts := by
  have hplain : ∀ part ∈ parts, ∀ c ∈ part, (c == d) = false := fun part hpart c hc =>
    beq_false_of_ne fun heq => hparts part hpart (heq ▸ hc)
  induction parts using join.induct with
  | case1 => exact absurd rfl hne
  | case2 part => exact split_of_forall (hplain part List.mem_cons_self)
  | case3 part rest hrest ih =>
    rw [join, List.append_assoc, List.singleton_append,
      split_append_cons (hplain part List.mem_cons_self) (beq_self_eq_true d),
      ih hrest (fun s hs => hparts s (List.mem_cons_of_mem _ hs)) fun s hs => hplain s (List.mem_cons_of_mem _ hs)]
    exact hrest

/-- Words do not run over a blank. -/
lemma words_append_blank {d : Char} (hd : isBlank d = true) (s t : Text) :
    words (s ++ d :: t) = words s ++ words t := by
  rw [words, split_append_separator hd, List.filter_append]
  rfl

lemma words_cons_of_isBlank {d : Char} (hd : isBlank d = true) (t : Text) : words (d :: t) = words t :=
  words_append_blank hd [] t

lemma words_of_isWord {w : Text} (hw : IsWord w) : words w = [w] := by
  simp [words, split_of_forall hw.2, hw.1]

lemma words_blanks_append {b : Text} (hb : Blanks b) (t : Text) : words (b ++ t) = words t := by
  induction b with
  | nil => rfl
  | cons c b ih =>
    rw [List.cons_append, words_cons_of_isBlank (hb c List.mem_cons_self),
      ih fun d hd => hb d (List.mem_cons_of_mem _ hd)]

/-- A word that ends before the rest is the first of the words. -/
lemma words_append {w t : Text} (hw : IsWord w) (ht : Parted t) : words (w ++ t) = w :: words t := by
  cases t with
  | nil => rw [List.append_nil, words_of_isWord hw]; rfl
  | cons d t =>
    have hd := ht d rfl
    rw [words_append_blank hd, words_of_isWord hw, words_cons_of_isBlank hd]
    rfl

lemma parted_dropWhile (t : Text) : Parted (t.dropWhile (!isBlank ·)) := by
  intro c hc
  have := List.head?_dropWhile_not (!isBlank ·) t
  rw [hc] at this
  simpa using this

/-- Every text is blanks, what stands up to the next blank, and the rest. -/
lemma exists_first_word (t : Text) :
    ∃ b w rest, t = b ++ w ++ rest ∧ Blanks b ∧ (∀ c ∈ w, isBlank c = false) ∧ Parted rest ∧ (w = [] → rest = []) := by
  have hb : Blanks (t.takeWhile isBlank) := fun c hc => List.all_eq_true.1 List.all_takeWhile c hc
  have hhead := List.head?_dropWhile_not isBlank t
  generalize hdrop : t.dropWhile isBlank = s at hhead
  refine ⟨t.takeWhile isBlank, s.takeWhile (!isBlank ·), s.dropWhile (!isBlank ·), ?_, hb, ?_, parted_dropWhile s, ?_⟩
  · rw [List.append_assoc, List.takeWhile_append_dropWhile, ← hdrop, List.takeWhile_append_dropWhile]
  · intro c hc
    simpa using List.all_eq_true.1 List.all_takeWhile c hc
  · intro hnil
    cases s with
    | nil => rfl
    | cons c s => simp_all

/-- The first word of a text has only blanks in front of it, and is not continued behind it. -/
theorem head?_words_eq_some_iff {t w : Text} :
    (words t).head? = some w ↔ ∃ b rest, t = b ++ w ++ rest ∧ Blanks b ∧ IsWord w ∧ Parted rest := by
  constructor
  · intro h
    obtain ⟨b, w', rest, rfl, hb, hw', hrest, hnil⟩ := exists_first_word t
    rw [List.append_assoc, words_blanks_append hb] at h
    by_cases hne : w' = []
    · rw [hne, hnil hne] at h
      exact absurd h (by simp [words, split])
    · rw [words_append ⟨hne, hw'⟩ hrest, List.head?_cons, Option.some.injEq] at h
      subst h
      exact ⟨b, rest, rfl, hb, ⟨hne, hw'⟩, hrest⟩
  · rintro ⟨b, rest, rfl, hb, hw, hrest⟩
    rw [List.append_assoc, words_blanks_append hb, words_append hw hrest]
    rfl

/-! ## Trimming -/

/-- A text is its trimmed form with blanks around it. -/
theorem exists_blanks_trim (t : Text) : ∃ b b', t = b ++ trim t ++ b' ∧ Blanks b ∧ Blanks b' := by
  obtain ⟨b', heq, hb'⟩ := trimEnd_append_blanks (trimStart t)
  refine ⟨t.takeWhile isBlank, b', ?_, fun c hc => List.all_eq_true.1 List.all_takeWhile c hc, hb'⟩
  rw [List.append_assoc, trim, ← heq, trimStart, List.takeWhile_append_dropWhile]

/-- Blanks at the end are in no word. -/
lemma words_append_blanks {b : Text} (hb : Blanks b) (t : Text) : words (t ++ b) = words t := by
  cases b with
  | nil => rw [List.append_nil]
  | cons d b =>
    have hrest := words_blanks_append (fun c hc => hb c (List.mem_cons_of_mem d hc)) []
    rw [List.append_nil] at hrest
    rw [words_append_blank (hb d List.mem_cons_self), hrest]
    exact List.append_nil _

/-- Trimming takes away no word. -/
lemma words_trim (t : Text) : words (trim t) = words t := by
  obtain ⟨b, b', heq, hb, hb'⟩ := exists_blanks_trim t
  conv => rhs; rw [heq]
  rw [words_append_blanks hb', words_blanks_append hb]

/-! ## The places of a sign -/

lemma takeWhile_append_sign {c : Char} {u : Text} (hu : c ∉ u) (v : Text) : (u ++ c :: v).takeWhile (· != c) = u := by
  have hfront : ∀ d ∈ u, (d != c) = true := fun d hd => bne_iff_ne.2 fun heq => hu (heq ▸ hd)
  rw [List.takeWhile_append_of_pos hfront, List.takeWhile_cons_of_neg (by simp), List.append_nil]

/-- Where a sign stands for the first time in a text can be told from the text. -/
theorem append_cons_inj_of_first {c : Char} {u u' v v' : Text} (hu : c ∉ u) (hu' : c ∉ u')
    (h : u ++ c :: v = u' ++ c :: v') : u = u' ∧ v = v' := by
  have hfront := congrArg (List.takeWhile (· != c)) h
  rw [takeWhile_append_sign hu, takeWhile_append_sign hu'] at hfront
  subst hfront
  exact ⟨rfl, (List.cons.inj (List.append_cancel_left h)).2⟩

/-- Where a sign stands for the last time in a text can be told from the text. -/
theorem append_cons_inj_of_last {c : Char} {u u' v v' : Text} (hv : c ∉ v) (hv' : c ∉ v')
    (h : u ++ c :: v = u' ++ c :: v') : u = u' ∧ v = v' := by
  have hreverse := congrArg List.reverse h
  simp only [List.reverse_append, List.reverse_cons, List.append_assoc, List.singleton_append] at hreverse
  obtain ⟨hback, hfront⟩ := append_cons_inj_of_first (by simpa using hv) (by simpa using hv') hreverse
  exact ⟨List.reverse_inj.1 hfront, List.reverse_inj.1 hback⟩

/-! ## Cutting at a blank -/

/-- A text is cut at its first blank, which belongs to neither part. -/
lemma cutAtBlank_append {w rest : Text} (hw : ∀ c ∈ w, isBlank c = false) (hrest : Parted rest) :
    cutAtBlank (w ++ rest) = (w, rest.tail) := by
  induction w with
  | nil =>
    cases rest with
    | nil => rfl
    | cons d rest => rw [List.nil_append, cutAtBlank, if_pos (hrest d rfl), List.tail_cons]
  | cons c w ih =>
    rw [List.cons_append, cutAtBlank, hw c List.mem_cons_self, ih fun d hd => hw d (List.mem_cons_of_mem _ hd)]
    rfl

end Stencil.Text
