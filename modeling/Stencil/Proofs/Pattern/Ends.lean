import Mathlib.Data.List.Forall2
import Stencil.Pattern.Build
import Stencil.Pattern.Parts

/-!
# The ends of a pattern, without their order

`Pattern.ends` lists where a pattern may end in order of preference. Many properties of a match hold whichever end was
preferred, and for these it is enough to know which ends there are. One lemma for each way of building a pattern says
so: an end is reached by passing over a text of the right shape, and a group has then remembered exactly the text that
was passed inside of it (`mem_ends_group`).
-/

namespace Stencil.Pattern

/-! ## Passing over a text -/

/-- The place behind a text. -/
def Place.after (p : Place) (w : Text) : Place := w.foldl Place.next p

@[simp] lemma Place.after_nil (p : Place) : p.after [] = p := rfl

@[simp] lemma Place.after_cons (p : Place) (c : Char) (w : Text) : p.after (c :: w) = (p.next c).after w := rfl

@[simp] lemma Place.after_append (p : Place) (v w : Text) : p.after (v ++ w) = (p.after v).after w :=
  List.foldl_append

/-- Behind a text, the position has grown by its length. -/
@[simp] lemma Place.position_after (p : Place) (w : Text) : (p.after w).position = p.position + w.length := by
  induction w generalizing p with
  | nil => rfl
  | cons c w ih =>
    rw [Place.after_cons, ih, List.length_cons]
    show p.position + 1 + w.length = p.position + (w.length + 1)
    omega

@[simp] lemma Place.captured_after (p : Place) (w : Text) : (p.after w).captured = p.captured := by
  induction w generalizing p with
  | nil => rfl
  | cons c w ih =>
    rw [Place.after_cons, ih]
    rfl

@[simp] lemma Place.position_next (p : Place) (c : Char) : (p.next c).position = p.position + 1 := rfl

@[simp] lemma Place.captured_next (p : Place) (c : Char) : (p.next c).captured = p.captured := rfl

/-- A place that remembers one more group. -/
def Place.remember (p : Place) (number : Nat) (source : Text) (length : Nat) : Place :=
  { p with captured := ⟨number, source, length⟩ :: p.captured }

@[simp] lemma Place.position_remember (p : Place) (number : Nat) (source : Text) (length : Nat) :
    (p.remember number source length).position = p.position := rfl

@[simp] lemma Place.captured_remember (p : Place) (number : Nat) (source : Text) (length : Nat) :
    (p.remember number source length).captured = ⟨number, source, length⟩ :: p.captured := rfl

/-- A group has remembered the text that was passed inside of it. -/
lemma Capture.text_eq {number length : Nat} {w rest : Text} (h : length = w.length) :
    (⟨number, w ++ rest, length⟩ : Capture).text = w := by
  show (w ++ rest).take length = w
  exact List.take_left' h.symm

/-- What has been passed from a place on is the text of a capture as long as the way. -/
lemma Capture.text_passed (number : Nat) (p : Place) (w rest : Text) :
    (⟨number, w ++ rest, (p.after w).position - p.position⟩ : Capture).text = w :=
  Capture.text_eq (by rw [Place.position_after, Nat.add_sub_cancel_left])

/-! ## One lemma for each way of building a pattern -/

/-- A sequence ends where its second pattern ends, begun at an end of the first. -/
lemma mem_ends_sequence {first second : Pattern} {p p' : Place} {t t' : Text} :
    (p', t') ∈ (first ++ second).ends p t ↔ ∃ q s, (q, s) ∈ first.ends p t ∧ (p', t') ∈ second.ends q s := by
  show (p', t') ∈ (first.ends p t).flatMap (fun e => second.ends e.1 e.2) ↔ _
  rw [List.mem_flatMap]
  constructor
  · rintro ⟨⟨q, s⟩, h1, h2⟩
    exact ⟨q, s, h1, h2⟩
  · rintro ⟨q, s, h1, h2⟩
    exact ⟨(q, s), h1, h2⟩

lemma mem_ends_choice {first second : Pattern} {e : Place × Text} {p : Place} {t : Text} :
    e ∈ (Pattern.choice first second).ends p t ↔ e ∈ first.ends p t ∨ e ∈ second.ends p t :=
  List.mem_append

/-- An end of one of several patterns is an end of some of them. -/
lemma mem_ends_oneOfThese {patterns : List Pattern} {e : Place × Text} {p : Place} {t : Text} :
    e ∈ (oneOfThese patterns).ends p t ↔ ∃ pattern ∈ patterns, e ∈ pattern.ends p t := by
  induction patterns with
  | nil =>
    have hnone : (oneOfThese []).ends p t = [] := by cases t <;> rfl
    simp [hnone]
  | cons pattern rest ih =>
    cases rest with
    | nil => simp [oneOfThese]
    | cons next rest =>
      show e ∈ (Pattern.choice pattern (oneOfThese (next :: rest))).ends p t ↔ _
      rw [mem_ends_choice, ih]
      simp

/-- Classes are passed by a word that has one character of each. -/
lemma pass?_eq_some_iff {classes : List (Char → Bool)} {p p' : Place} {t t' : Text} :
    pass? classes p t = some (p', t') ↔
      ∃ w, List.Forall₂ (fun allowed c => allowed c = true) classes w ∧ t = w ++ t' ∧ p' = p.after w := by
  -- by induction on the classes: each takes one character
  induction classes generalizing p t with
  | nil =>
    simp only [pass?, Option.some.injEq, Prod.mk.injEq]
    constructor
    · rintro ⟨rfl, rfl⟩
      exact ⟨[], .nil, rfl, rfl⟩
    · rintro ⟨w, hw, rfl, rfl⟩
      cases hw
      exact ⟨rfl, rfl⟩
  | cons allowed classes ih =>
    cases t with
    | nil =>
      simp only [pass?, reduceCtorEq, false_iff]
      rintro ⟨w, hw, ht, -⟩
      cases hw
      simp at ht
    | cons c rest =>
      simp only [pass?]
      constructor
      · intro h
        split at h
        · rename_i hc
          obtain ⟨w, hw, rfl, rfl⟩ := ih.1 h
          exact ⟨c :: w, .cons hc hw, rfl, rfl⟩
        · simp at h
      · rintro ⟨w, hw, ht, rfl⟩
        cases hw with
        | @cons _ d _ w' hd hw' =>
          rw [List.cons_append, List.cons.injEq] at ht
          obtain ⟨rfl, rfl⟩ := ht
          rw [if_pos hd]
          exact ih.2 ⟨w', hw', rfl, rfl⟩

/-- A row of classes ends behind a word that has one character of each. -/
lemma mem_ends_chars {classes : List (Char → Bool)} {p p' : Place} {t t' : Text} :
    (p', t') ∈ (Pattern.chars classes).ends p t ↔
      ∃ w, List.Forall₂ (fun allowed c => allowed c = true) classes w ∧ t = w ++ t' ∧ p' = p.after w := by
  show (p', t') ∈ (pass? classes p t).toList ↔ _
  rw [Option.mem_toList, pass?_eq_some_iff]

/-- A class ends behind one character of it. -/
lemma mem_ends_char {allowed : Char → Bool} {p p' : Place} {t t' : Text} :
    (p', t') ∈ (Pattern.char allowed).ends p t ↔ ∃ c, allowed c = true ∧ t = c :: t' ∧ p' = p.next c := by
  rw [Pattern.char, mem_ends_chars]
  constructor
  · rintro ⟨w, hw, rfl, rfl⟩
    cases hw with
    | @cons _ c _ _ hc hw =>
      cases hw
      exact ⟨c, hc, rfl, rfl⟩
  · rintro ⟨c, hc, rfl, rfl⟩
    exact ⟨[c], .cons hc .nil, rfl, rfl⟩

/-- A given character ends behind itself. -/
lemma mem_ends_exactly {c : Char} {p p' : Place} {t t' : Text} :
    (p', t') ∈ (exactly c).ends p t ↔ t = c :: t' ∧ p' = p.next c := by
  rw [exactly, mem_ends_char]
  constructor
  · rintro ⟨d, hd, rfl, rfl⟩
    obtain rfl := eq_of_beq hd
    exact ⟨rfl, rfl⟩
  · rintro ⟨rfl, rfl⟩
    exact ⟨c, BEq.rfl, rfl, rfl⟩

/-- A repetition ends behind a text of its class whose length lies within its bounds. -/
lemma mem_repetitionEnds {lazy : Bool} {allowed : Char → Bool} {least : Nat} {most : Option Nat} {p p' : Place}
    {t t' : Text} :
    (p', t') ∈ repetitionEnds lazy allowed least most p t ↔
      ∃ w : Text, (∀ c ∈ w, allowed c = true) ∧ least ≤ w.length ∧ (∀ n, most = some n → w.length ≤ n) ∧
        t = w ++ t' ∧ p' = p.after w := by
  -- by induction on the text: with each character that is taken, both bounds are one lower
  induction t generalizing least most p with
  | nil =>
    constructor
    · intro h
      simp only [repetitionEnds] at h
      split at h
      · rename_i hleast
        simp only [List.mem_singleton, Prod.mk.injEq] at h
        obtain ⟨rfl, rfl⟩ := h
        exact ⟨[], by simp, by simp [hleast], by simp, rfl, rfl⟩
      · simp at h
    · rintro ⟨w, -, hleast, -, ht, rfl⟩
      obtain ⟨rfl, rfl⟩ := List.append_eq_nil_iff.1 ht.symm
      have : least = 0 := by simpa using hleast
      simp [repetitionEnds, this]
  | cons c rest ih =>
    simp only [repetitionEnds, mem_arrange]
    constructor
    · rintro (h | h)
      · split at h
        · rename_i hleast
          simp only [List.mem_singleton, Prod.mk.injEq] at h
          obtain ⟨rfl, rfl⟩ := h
          exact ⟨[], by simp, by simp [hleast], by simp, rfl, rfl⟩
        · simp at h
      · split at h
        · rename_i hc
          simp only [Bool.and_eq_true, bne_iff_ne, ne_eq] at hc
          obtain ⟨w, hw, hleast, hmost, rfl, rfl⟩ := ih.1 h
          refine ⟨c :: w, ?_, ?_, ?_, rfl, rfl⟩
          · intro d hd
            rcases List.mem_cons.1 hd with rfl | hd
            · exact hc.1
            · exact hw d hd
          · rw [List.length_cons]
            omega
          · intro n hn
            subst hn
            have hlen := hmost (n - 1) rfl
            -- a repetition that may take nothing more would not have gone on
            have hne : n ≠ 0 := fun h0 => hc.2 (by rw [h0])
            rw [List.length_cons]
            omega
        · simp at h
    · rintro ⟨w, hw, hleast, hmost, ht, rfl⟩
      cases w with
      | nil =>
        left
        have : least = 0 := by simpa using hleast
        rw [if_pos this, List.mem_singleton]
        simpa using ht.symm
      | cons d w =>
        right
        rw [List.cons_append, List.cons.injEq] at ht
        obtain ⟨rfl, rfl⟩ := ht
        have hmore : (most != some 0) = true := by
          rw [bne_iff_ne]
          rintro rfl
          have := hmost 0 rfl
          simp at this
        rw [if_pos (by rw [hw c List.mem_cons_self, hmore]; rfl)]
        refine ih.2 ⟨w, fun d hd => hw d (List.mem_cons_of_mem _ hd), ?_, ?_, rfl, rfl⟩
        · rw [List.length_cons] at hleast
          omega
        · intro n hn
          obtain ⟨m, rfl, rfl⟩ := Option.map_eq_some_iff.1 hn
          have := hmost m rfl
          rw [List.length_cons] at this
          omega

/-- A repetition ends behind a word of its class, of a length within its bounds. -/
lemma mem_ends_repetition {lazy : Bool} {allowed : Char → Bool} {least : Nat} {most : Option Nat} {p p' : Place}
    {t t' : Text} :
    (p', t') ∈ (Pattern.repetition lazy allowed least most).ends p t ↔
      ∃ w : Text, (∀ c ∈ w, allowed c = true) ∧ least ≤ w.length ∧ (∀ n, most = some n → w.length ≤ n) ∧
        t = w ++ t' ∧ p' = p.after w :=
  mem_repetitionEnds

lemma mem_ends_many {allowed : Char → Bool} {p p' : Place} {t t' : Text} :
    (p', t') ∈ (many allowed).ends p t ↔ ∃ w : Text, (∀ c ∈ w, allowed c = true) ∧ t = w ++ t' ∧ p' = p.after w := by
  rw [many, mem_ends_repetition]
  simp

lemma mem_ends_anything {p p' : Place} {t t' : Text} :
    (p', t') ∈ anything.ends p t ↔ ∃ w, t = w ++ t' ∧ p' = p.after w := by
  rw [anything, mem_ends_repetition]
  simp

lemma mem_ends_wordBoundary {p p' : Place} {t t' : Text} :
    (p', t') ∈ Pattern.wordBoundary.ends p t ↔ atWordBoundary p t = true ∧ p' = p ∧ t' = t := by
  show (p', t') ∈ (if atWordBoundary p t then [(p, t)] else []) ↔ _
  split <;> simp_all

/-- A group ends where what it encloses ends, and remembers the text in between. -/
theorem mem_ends_group {number : Nat} {inner : Pattern} {p p' : Place} {t t' : Text} :
    (p', t') ∈ (Pattern.group number inner).ends p t ↔
      ∃ q, (q, t') ∈ inner.ends p t ∧ p' = q.remember number t (q.position - p.position) := by
  show (p', t') ∈ (inner.ends p t).map _ ↔ _
  rw [List.mem_map]
  constructor
  · rintro ⟨⟨q, s⟩, h, heq⟩
    obtain ⟨rfl, rfl⟩ := Prod.mk.inj heq
    exact ⟨q, h, rfl⟩
  · rintro ⟨q, h, rfl⟩
    exact ⟨(q, t'), h, rfl⟩

/-! ## Letters without case -/

/-- A character that counts for one that is no small letter is that character. -/
lemma eq_of_fold_eq {c d : Char} (hc : c.isLower = false) (h : fold d = c) : d = c := by
  unfold fold at h
  split at h
  · rw [← h] at hc
    exact absurd hc (by decide)
  · split at h
    · rw [← h] at hc
      exact absurd hc (by decide)
    · unfold Char.toLower at h
      split at h
      · -- a letter that changes when it is made small becomes a small letter
        rename_i hupper
        rw [← h] at hc
        have hlower : ∀ e : Char, e.isLower = (decide (e.val ≥ 'a'.val) && decide (e.val ≤ 'z'.val)) := fun _ => rfl
        rw [hlower, Bool.and_eq_false_iff, decide_eq_false_iff_not, decide_eq_false_iff_not] at hc
        simp only [ge_iff_le, UInt32.le_iff_toNat_le, UInt32.toNat_add] at hc hupper
        change ¬ 97 ≤ _ ∨ ¬ _ ≤ 122 at hc
        change 65 ≤ _ ∧ _ ≤ 90 at hupper
        have hgap : ('a'.val - 'A'.val).toNat = 32 := rfl
        omega
      · exact h

end Stencil.Pattern
