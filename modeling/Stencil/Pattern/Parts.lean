import Stencil.Pattern.Outlook

/-!
# Looking for a pattern in a text

A text is cut at the matches of a pattern: from the left, the first match that begins at the earliest place, and on
from its end. Everything else, the list of matches and replacement, is read off these parts. Only the places where the
pattern may begin are tried.

Main statements: passing over the other places changes nothing (`parts_eq`, `find?_eq`), the parts make up the text
(`flatten_parts`), and the first match is the first of all matches (`find?_eq_head?_findAll`).
-/

namespace Stencil.Pattern

/-- A stretch of text that has the shape of a pattern: its place, its characters, and the texts of its groups. -/
structure Match where
  start : Nat
  text : Text
  captured : List (Nat × Text)
deriving DecidableEq, Repr

namespace Match

/-- The position behind a match. -/
def stop (m : Match) : Nat := m.start + m.text.length

/-- The text of a group that took part in a match. -/
def group? (m : Match) (number : Nat) : Option Text := m.captured.lookup number

/-- The text of a group, and no text if it took no part. -/
def group (m : Match) (number : Nat) : Text := (m.group? number).getD []

end Match

/-- The preferred match of a pattern at a place. A match of no characters counts for none. -/
def matchAt? (pattern : Pattern) (position : Nat) (previous : Option Char) (t : Text) : Option Match :=
  match pattern.search (fun p _ => some p) ⟨position, previous, []⟩ t with
  | none => none
  | some p =>
    if p.position ≤ position then none
    else some ⟨position, t.take (p.position - position), p.captured.map fun c => (c.number, c.text)⟩

/-- A part of a text: text in front of, between or behind matches, or a match. -/
inductive Part where
  | plain (text : Text)
  | found (m : Match)

/-- The text of a part. -/
def Part.source : Part → Text
  | .plain t => t
  | .found m => m.text

/-- The match that a part is. -/
def Part.match? : Part → Option Match
  | .plain _ => none
  | .found m => some m

/-- Puts a character in front of parts, and joins it with plain text that is there. -/
def consPlain (c : Char) : List Part → List Part
  | .plain t :: rest => .plain (c :: t) :: rest
  | parts => .plain [c] :: parts

/-- Cuts a text at the matches of a pattern, from a place of which the next so many characters belong to a match. -/
def partsFrom (pattern : Pattern) : Nat → Nat → Option Char → Text → List Part
  | _, _, _, [] => []
  | skip + 1, position, _, c :: rest => partsFrom pattern skip (position + 1) (some c) rest
  | 0, position, previous, c :: rest =>
    match pattern.matchAt? position previous (c :: rest) with
    | some m => .found m :: partsFrom pattern (m.text.length - 1) (position + 1) (some c) rest
    | none => consPlain c (partsFrom pattern 0 (position + 1) (some c) rest)

/-- The parts of a text in which the places are marked where the pattern may begin. -/
def markedParts (pattern : Pattern) : Nat → Nat → Option Char → List Bool → Text → List Part
  | _, _, _, _, [] => []
  | skip + 1, position, _, marks, c :: rest => markedParts pattern skip (position + 1) (some c) marks.tail rest
  | 0, position, previous, marks, c :: rest =>
    match if marks.headD false then pattern.matchAt? position previous (c :: rest) else none with
    | some m => .found m :: markedParts pattern (m.text.length - 1) (position + 1) (some c) marks.tail rest
    | none => consPlain c (markedParts pattern 0 (position + 1) (some c) marks.tail rest)

/-- The parts of a text, cut at the matches of a pattern. -/
def parts (pattern : Pattern) (t : Text) : List Part := markedParts pattern 0 0 none (pattern.marks t) t

/-- All matches of a pattern from left to right; none begins inside another. -/
def findAll (pattern : Pattern) (t : Text) : List Match := (pattern.parts t).filterMap Part.match?

/-- The first match of a pattern from a place on. -/
def findFrom? (pattern : Pattern) : Nat → Option Char → Text → Option Match
  | _, _, [] => none
  | position, previous, c :: rest =>
    match pattern.matchAt? position previous (c :: rest) with
    | some m => some m
    | none => findFrom? pattern (position + 1) (some c) rest

/-- The first match in a text in which the places are marked where the pattern may begin. -/
def findMarked? (pattern : Pattern) : Nat → Option Char → List Bool → Text → Option Match
  | _, _, _, [] => none
  | position, previous, marks, c :: rest =>
    match if marks.headD false then pattern.matchAt? position previous (c :: rest) else none with
    | some m => some m
    | none => findMarked? pattern (position + 1) (some c) marks.tail rest

/-- The first match of a pattern in a text. -/
def find? (pattern : Pattern) (t : Text) : Option Match := findMarked? pattern 0 none (pattern.marks t) t

/-- Whether a text has a match of a pattern. -/
def occursIn (pattern : Pattern) (t : Text) : Bool := (pattern.find? t).isSome

/-- A text with each match replaced by a text made of it. -/
def replaceAll (pattern : Pattern) (replacement : Match → Text) (t : Text) : Text :=
  (pattern.parts t).flatMap fun
    | .plain plain => plain
    | .found m => replacement m

/-! ## Marked places -/

/-- A pattern has no match where it may not begin. -/
theorem matchAt?_marked (pattern : Pattern) (position : Nat) (previous : Option Char) (t : Text) :
    (if (pattern.marks t).headD false then pattern.matchAt? position previous t else none) =
      pattern.matchAt? position previous t := by
  split
  · rfl
  · rename_i h
    simp only [matchAt?, search_eq_findSome?, ends_eq_nil_of_unmarked (Bool.eq_false_iff.2 h), List.findSome?_nil]

/-- With marks, the parts of a text are the same. -/
theorem markedParts_eq (pattern : Pattern) (skip position : Nat) (previous : Option Char) (t : Text) :
    markedParts pattern skip position previous (pattern.marks t) t = partsFrom pattern skip position previous t := by
  induction t generalizing skip position previous with
  | nil => simp only [markedParts, partsFrom]
  | cons c rest ih =>
    cases skip with
    | succ skip => simp only [markedParts, partsFrom, tail_marks, ih]
    | zero =>
      simp only [markedParts, partsFrom, matchAt?_marked, tail_marks, ih]

/-- Passing over the places where a pattern may not begin changes no part. -/
theorem parts_eq (pattern : Pattern) (t : Text) : pattern.parts t = partsFrom pattern 0 0 none t :=
  markedParts_eq pattern 0 0 none t

/-- With marks, the same match is found. -/
theorem findMarked?_eq (pattern : Pattern) (position : Nat) (previous : Option Char) (t : Text) :
    findMarked? pattern position previous (pattern.marks t) t = findFrom? pattern position previous t := by
  induction t generalizing position previous with
  | nil => simp only [findMarked?, findFrom?]
  | cons c rest ih => simp only [findMarked?, findFrom?, matchAt?_marked, tail_marks, ih]

/-- Passing over the places where a pattern may not begin keeps the first match. -/
theorem find?_eq (pattern : Pattern) (t : Text) : pattern.find? t = findFrom? pattern 0 none t :=
  findMarked?_eq pattern 0 none t

/-! ## Laws -/

/-- A match is cut from the text at its place. -/
theorem text_of_matchAt? {pattern : Pattern} {position : Nat} {previous : Option Char} {t : Text} {m : Match}
    (h : pattern.matchAt? position previous t = some m) : m.text = t.take m.text.length ∧ m.start = position := by
  unfold matchAt? at h
  split at h
  · simp at h
  · split at h
    · simp at h
    · rw [← Option.some.inj h]
      exact ⟨by simp [List.take_eq_take_iff, List.length_take], rfl⟩

/-- No match is empty before the end of the text. -/
theorem text_ne_nil_of_matchAt? {pattern : Pattern} {position : Nat} {previous : Option Char} {t : Text} {m : Match}
    (ht : t ≠ []) (h : pattern.matchAt? position previous t = some m) : m.text ≠ [] := by
  unfold matchAt? at h
  split at h
  · simp at h
  · split at h
    · simp at h
    · rw [← Option.some.inj h]
      simp only [ne_eq, List.take_eq_nil_iff, not_or]
      exact ⟨by omega, ht⟩

theorem source_consPlain (c : Char) (parts : List Part) :
    (consPlain c parts).flatMap Part.source = c :: parts.flatMap Part.source := by
  unfold consPlain
  split <;> simp [Part.source]

/-- The parts of a text, put together, are the text. -/
theorem flatten_partsFrom (pattern : Pattern) (skip position : Nat) (previous : Option Char) (t : Text) :
    (partsFrom pattern skip position previous t).flatMap Part.source = t.drop skip := by
  induction t generalizing skip position previous with
  | nil => simp [partsFrom]
  | cons c rest ih =>
    cases skip with
    | succ skip => simp [partsFrom, ih]
    | zero =>
      simp only [partsFrom]
      split
      · rename_i m hm
        obtain ⟨htext, _⟩ := text_of_matchAt? hm
        have hne := text_ne_nil_of_matchAt? (List.cons_ne_nil _ _) hm
        obtain ⟨d, more, hcons⟩ := List.exists_cons_of_ne_nil hne
        simp only [List.flatMap_cons, Part.source, ih, List.drop_zero]
        rw [hcons] at htext ⊢
        simp only [List.length_cons, List.take_succ_cons, List.cons.injEq, Nat.add_sub_cancel] at htext ⊢
        obtain ⟨rfl, hmore⟩ := htext
        rw [List.cons_append]
        congr 1
        conv => lhs; lhs; rw [hmore]
        exact List.take_append_drop _ _
      · simp [source_consPlain, ih]

/-- The parts of a text, one after the other, are the text. -/
theorem flatten_parts (pattern : Pattern) (t : Text) : (pattern.parts t).flatMap Part.source = t := by
  rw [parts_eq]
  exact flatten_partsFrom pattern 0 0 none t

theorem filterMap_consPlain (c : Char) (parts : List Part) :
    (consPlain c parts).filterMap Part.match? = parts.filterMap Part.match? := by
  unfold consPlain
  split <;> simp [List.filterMap_cons, Part.match?]

/-- The match that is found is the first among the parts. -/
theorem findFrom?_eq_head? (pattern : Pattern) (position : Nat) (previous : Option Char) (t : Text) :
    pattern.findFrom? position previous t =
      ((partsFrom pattern 0 position previous t).filterMap Part.match?).head? := by
  induction t generalizing position previous with
  | nil => simp [findFrom?, partsFrom]
  | cons c rest ih =>
    simp only [findFrom?, partsFrom]
    split
    · simp [Part.match?]
    · rw [ih, filterMap_consPlain]

/-- The first match is the first of all matches. -/
theorem find?_eq_head?_findAll (pattern : Pattern) (t : Text) : pattern.find? t = (pattern.findAll t).head? := by
  rw [find?_eq, findAll, parts_eq]
  exact findFrom?_eq_head? pattern 0 none t

end Stencil.Pattern
