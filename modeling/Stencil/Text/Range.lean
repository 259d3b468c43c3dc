/-!
# Ranges of code points

A class of characters is given as an ascending list of ranges of code points. Main statement: looking a code point up
in such a list answers whether one of the ranges holds it (`mem_iff_of_ascending`).
-/

namespace Stencil.Text.Range

/-- A list of ranges of code points, first and last included. -/
abbrev Table := List (Nat × Nat)

/-- No range begins in front of a bound or of the end of the range before it, and none is empty. -/
def Ascending : Nat → Table → Prop
  | _, [] => True
  | bound, (low, high) :: rest => bound ≤ low ∧ low ≤ high ∧ Ascending (high + 1) rest

instance decidableAscending : (bound : Nat) → (table : Table) → Decidable (Ascending bound table)
  | _, [] => .isTrue trivial
  | bound, (low, high) :: rest =>
    have := decidableAscending (high + 1) rest
    inferInstanceAs (Decidable (bound ≤ low ∧ low ≤ high ∧ Ascending (high + 1) rest))

theorem le_of_ascending {bound : Nat} {table : Table} (h : Ascending bound table) :
    ∀ range ∈ table, bound ≤ range.1 := by
  induction table generalizing bound with
  | nil => simp
  | cons range rest ih =>
    obtain ⟨low, high⟩ := range
    obtain ⟨hbound, hle, hrest⟩ := h
    intro r hr
    rcases List.mem_cons.1 hr with rfl | hr
    · exact hbound
    · have := ih hrest r hr
      omega

/-- Looks a code point up, and stops at the first range that begins behind it. -/
def mem : Table → Nat → Bool
  | [], _ => false
  | (low, high) :: rest, n => if n < low then false else n ≤ high || mem rest n

/-- In ascending ranges nothing is missed by stopping early. -/
theorem mem_iff_of_ascending {bound : Nat} {table : Table} (h : Ascending bound table) (n : Nat) :
    mem table n = true ↔ ∃ range ∈ table, range.1 ≤ n ∧ n ≤ range.2 := by
  induction table generalizing bound with
  | nil => simp [mem]
  | cons range rest ih =>
    obtain ⟨low, high⟩ := range
    obtain ⟨hbound, hle, hrest⟩ := h
    simp only [mem, List.mem_cons, exists_eq_or_imp]
    split
    · refine iff_of_false (by simp) ?_
      rintro (⟨h1, _⟩ | ⟨r, hr, h1, _⟩)
      · omega
      · have := le_of_ascending hrest r hr
        omega
    · simp only [Bool.or_eq_true, decide_eq_true_eq, ih hrest]
      constructor
      · rintro (h1 | h2)
        · exact .inl ⟨by omega, h1⟩
        · exact .inr h2
      · rintro (⟨_, h1⟩ | h2)
        · exact .inl h1
        · exact .inr h2

end Stencil.Text.Range
