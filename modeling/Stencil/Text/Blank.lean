import Stencil.Text.Basic
import Stencil.Text.Range

/-!
# Blanks, words and lines

The white space of Unicode, and the functions that go by it: trimming a text and splitting it into words.

Main statements: a trimmed text neither begins nor ends with a blank (`head?_trim`, `getLast?_trim`), and no word is
empty or holds a blank (`mem_words`).
-/

namespace Stencil.Text

/-- The white space of Unicode, twenty-five code points. -/
def blankRanges : Range.Table := [
  (0x9, 0xd), (0x20, 0x20), (0x85, 0x85), (0xa0, 0xa0), (0x1680, 0x1680), (0x2000, 0x200a), (0x2028, 0x2029),
  (0x202f, 0x202f), (0x205f, 0x205f), (0x3000, 0x3000)]

theorem ascending_blankRanges : Range.Ascending 0 blankRanges := by decide

/-- Whether a character is white space. -/
def isBlank (c : Char) : Bool := Range.mem blankRanges c.toNat

/-- Whether a character is a control character: the two blocks of thirty-two, and delete. -/
def isControl (c : Char) : Bool := c.toNat < 0x20 || (0x7f ≤ c.toNat && c.toNat < 0xa0)

/-! ## Trimming -/

/-- A text without the blanks at its beginning. -/
def trimStart (t : Text) : Text := t.dropWhile isBlank

/-- A text without the blanks at its end. -/
def trimEnd (t : Text) : Text := (t.reverse.dropWhile isBlank).reverse

/-- A text without the blanks at its beginning and at its end. -/
def trim (t : Text) : Text := trimEnd (trimStart t)

theorem getLast?_trimEnd {t : Text} {c : Char} (h : (trimEnd t).getLast? = some c) : isBlank c = false := by
  simp only [trimEnd, List.getLast?_reverse] at h
  have := List.head?_dropWhile_not isBlank t.reverse
  rw [h] at this
  simpa using this

/-- A trimmed text does not end with a blank. -/
theorem getLast?_trim {t : Text} {c : Char} (h : (trim t).getLast? = some c) : isBlank c = false :=
  getLast?_trimEnd h

/-- Trimming the end leaves the beginning of the text. -/
theorem trimEnd_append_blanks (t : Text) : ∃ blanks, t = trimEnd t ++ blanks ∧ ∀ c ∈ blanks, isBlank c = true := by
  refine ⟨(t.reverse.takeWhile isBlank).reverse, ?_, ?_⟩
  · rw [trimEnd, ← List.reverse_append, List.takeWhile_append_dropWhile, List.reverse_reverse]
  · intro c hc
    exact List.all_eq_true.1 List.all_takeWhile c (List.mem_reverse.1 hc)

/-- A trimmed text does not begin with a blank. -/
theorem head?_trim {t : Text} {c : Char} (h : (trim t).head? = some c) : isBlank c = false := by
  obtain ⟨blanks, heq, _⟩ := trimEnd_append_blanks (trimStart t)
  have hstart : (trimStart t).head? = some c := by
    rw [heq, List.head?_append, show (trimEnd (trimStart t)).head? = some c from h]
    rfl
  have := List.head?_dropWhile_not isBlank t
  rw [show (t.dropWhile isBlank).head? = some c from hstart] at this
  simpa using this

/-! ## Words -/

/-- The stretches of a text between its blanks, in order. -/
def words (t : Text) : List Text := (split isBlank t).filter (!·.isEmpty)

/-- A word is not empty and holds no blank. -/
theorem mem_words {t word : Text} (h : word ∈ words t) : word ≠ [] ∧ ∀ c ∈ word, isBlank c = false := by
  obtain ⟨hmem, hne⟩ := List.mem_filter.1 h
  exact ⟨by simpa using hne, not_separator_of_mem_split hmem⟩

/-- The text in front of the first blank and the text behind that blank; the whole text and nothing if it has no
blank. -/
def cutAtBlank : Text → Text × Text
  | [] => ([], [])
  | c :: rest =>
    if isBlank c then ([], rest)
    else
      let (front, behind) := cutAtBlank rest
      (c :: front, behind)

end Stencil.Text
