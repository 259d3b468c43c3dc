import Stencil.Pattern.Parts

/-!
# All matches of a pattern

A text is searched from the left for the matches of a pattern, and on from the end of each. A match of no characters
counts here as well, at the end of the text too, unless it stands right behind another match. Only the places where the
pattern may begin are tried.

Main statements: passing over the other places changes nothing (`matchesIn_eq`, `firstIn?_eq`), and the first match is
the first of all matches (`firstIn?_eq_head?`).
-/

namespace Stencil.Pattern

/-- The preferred match of a pattern at a place, of any number of characters. -/
def preferred? (pattern : Pattern) (position : Nat) (previous : Option Char) (t : Text) : Option Match :=
  (pattern.search (fun p _ => some p) ⟨position, previous, []⟩ t).map fun p =>
    ⟨position, t.take (p.position - position), p.captured.map fun c => (c.number, c.text)⟩

/-- The match that counts at a place. Right behind another match one of no characters does not. -/
def counted? (pattern : Pattern) (behind : Bool) (position : Nat) (previous : Option Char) (t : Text) : Option Match :=
  if behind then pattern.matchAt? position previous t else pattern.preferred? position previous t

/-- The matches that a search comes to behind the next so many characters, which belong to a match already. The place
there may be right behind a match. -/
def matchesFrom (pattern : Pattern) : Nat → Bool → Nat → Option Char → Text → List Match
  | _, behind, position, previous, [] => (pattern.counted? behind position previous []).toList
  | skip + 1, behind, position, _, c :: rest => matchesFrom pattern skip behind (position + 1) (some c) rest
  | 0, behind, position, previous, c :: rest =>
    match pattern.counted? behind position previous (c :: rest) with
    | some m => m :: matchesFrom pattern (m.text.length - 1) (!m.text.isEmpty) (position + 1) (some c) rest
    | none => matchesFrom pattern 0 false (position + 1) (some c) rest

/-- The matches in a text in which the places are marked where the pattern may begin. -/
def markedMatches (pattern : Pattern) : Nat → Bool → Nat → Option Char → List Bool → Text → List Match
  | _, behind, position, previous, marks, [] =>
    (if marks.headD false then pattern.counted? behind position previous [] else none).toList
  | skip + 1, behind, position, _, marks, c :: rest =>
    markedMatches pattern skip behind (position + 1) (some c) marks.tail rest
  | 0, behind, position, previous, marks, c :: rest =>
    match if marks.headD false then pattern.counted? behind position previous (c :: rest) else none with
    | some m =>
      m :: markedMatches pattern (m.text.length - 1) (!m.text.isEmpty) (position + 1) (some c) marks.tail rest
    | none => markedMatches pattern 0 false (position + 1) (some c) marks.tail rest

/-- All matches of a pattern in a text from left to right. -/
def matchesIn (pattern : Pattern) (t : Text) : List Match := markedMatches pattern 0 false 0 none (pattern.marks t) t

/-- The first match of a pattern from a place on. -/
def firstFrom? (pattern : Pattern) : Nat → Option Char → Text → Option Match
  | position, previous, [] => pattern.preferred? position previous []
  | position, previous, c :: rest =>
    match pattern.preferred? position previous (c :: rest) with
    | some m => some m
    | none => firstFrom? pattern (position + 1) (some c) rest

/-- The first match in a text in which the places are marked where the pattern may begin. -/
def markedFirst? (pattern : Pattern) : Nat → Option Char → List Bool → Text → Option Match
  | position, previous, marks, [] => if marks.headD false then pattern.preferred? position previous [] else none
  | position, previous, marks, c :: rest =>
    match if marks.headD false then pattern.preferred? position previous (c :: rest) else none with
    | some m => some m
    | none => markedFirst? pattern (position + 1) (some c) marks.tail rest

/-- The first match of a pattern in a text. -/
def firstIn? (pattern : Pattern) (t : Text) : Option Match := markedFirst? pattern 0 none (pattern.marks t) t

/-! ## Marked places -/

/-- Where the mark says that nothing matches, nothing is preferred. -/
theorem preferred?_marked (pattern : Pattern) (position : Nat) (previous : Option Char) (t : Text) :
    (if (pattern.marks t).headD false then pattern.preferred? position previous t else none) =
      pattern.preferred? position previous t := by
  split
  · rfl
  · rename_i h
    rw [preferred?, search_eq_findSome?, ends_eq_nil_of_unmarked (Bool.eq_false_iff.2 h)]
    rfl

/-- Where the mark says that nothing matches, nothing is counted. -/
theorem counted?_marked (pattern : Pattern) (behind : Bool) (position : Nat) (previous : Option Char) (t : Text) :
    (if (pattern.marks t).headD false then pattern.counted? behind position previous t else none) =
      pattern.counted? behind position previous t := by
  cases behind with
  | false => exact preferred?_marked pattern position previous t
  | true => exact matchAt?_marked pattern position previous t

/-- With marks, the matches of a text are the same. -/
theorem markedMatches_eq (pattern : Pattern) (skip : Nat) (behind : Bool) (position : Nat) (previous : Option Char)
    (t : Text) :
    markedMatches pattern skip behind position previous (pattern.marks t) t =
      matchesFrom pattern skip behind position previous t := by
  induction t generalizing skip behind position previous with
  | nil => simp only [markedMatches, matchesFrom, counted?_marked]
  | cons c rest ih =>
    cases skip with
    | succ skip => simp only [markedMatches, matchesFrom, tail_marks, ih]
    | zero => simp only [markedMatches, matchesFrom, counted?_marked, tail_marks, ih]

/-- Passing over the places where a pattern may not begin changes no match. -/
theorem matchesIn_eq (pattern : Pattern) (t : Text) : pattern.matchesIn t = matchesFrom pattern 0 false 0 none t :=
  markedMatches_eq pattern 0 false 0 none t

/-- With marks, the first match is the same. -/
theorem markedFirst?_eq (pattern : Pattern) (position : Nat) (previous : Option Char) (t : Text) :
    markedFirst? pattern position previous (pattern.marks t) t = firstFrom? pattern position previous t := by
  induction t generalizing position previous with
  | nil => simp only [markedFirst?, firstFrom?, preferred?_marked]
  | cons c rest ih => simp only [markedFirst?, firstFrom?, preferred?_marked, tail_marks, ih]

/-- Passing over the places where a pattern may not begin keeps the first of the matches. -/
theorem firstIn?_eq (pattern : Pattern) (t : Text) : pattern.firstIn? t = firstFrom? pattern 0 none t :=
  markedFirst?_eq pattern 0 none t

/-! ## Laws -/

/-- The first match is the first of all matches. -/
theorem firstFrom?_eq_head? (pattern : Pattern) (position : Nat) (previous : Option Char) (t : Text) :
    pattern.firstFrom? position previous t = (matchesFrom pattern 0 false position previous t).head? := by
  induction t generalizing position previous with
  | nil => exact Option.head?_toList.symm
  | cons c rest ih =>
    simp only [firstFrom?, matchesFrom, counted?, Bool.false_eq_true, if_false]
    split
    · rfl
    · exact ih (position + 1) (some c)

/-- The first match is the first of all matches. -/
theorem firstIn?_eq_head? (pattern : Pattern) (t : Text) : pattern.firstIn? t = (pattern.matchesIn t).head? := by
  rw [firstIn?_eq, matchesIn_eq]
  exact firstFrom?_eq_head? pattern 0 none t

end Stencil.Pattern
