import Mathlib.Tactic.Lemma
import Stencil.Text.Blank

/-!
# Letters, digits and blanks

Where the characters of names stand among the code points: the letters and digits of ASCII lie between the two blocks of
blanks, so none of them is a blank (`isBlank_of_between`).
-/

namespace Stencil.Text

lemma isAlpha_iff {c : Char} : c.isAlpha = true ↔ c.isUpper = true ∨ c.isLower = true := Bool.or_eq_true_iff

lemma isUpper_iff {c : Char} : c.isUpper = true ↔ 'A'.val ≤ c.val ∧ c.val ≤ 'Z'.val := decide_eq_true_iff

lemma toNat_of_isUpper {c : Char} (h : c.isUpper = true) : 65 ≤ c.toNat ∧ c.toNat ≤ 90 := by
  obtain ⟨hleast, hmost⟩ := isUpper_iff.1 h
  exact ⟨UInt32.le_iff_toNat_le.1 hleast, UInt32.le_iff_toNat_le.1 hmost⟩

lemma isLower_iff {c : Char} : c.isLower = true ↔ 97 ≤ c.toNat ∧ c.toNat ≤ 122 := by
  have hrange : c.isLower = true ↔ 'a'.val ≤ c.val ∧ c.val ≤ 'z'.val :=
    Bool.and_eq_true_iff.trans (and_congr decide_eq_true_iff decide_eq_true_iff)
  exact hrange.trans (and_congr UInt32.le_iff_toNat_le UInt32.le_iff_toNat_le)

lemma toNat_of_isAlpha {c : Char} (h : c.isAlpha = true) :
    (65 ≤ c.toNat ∧ c.toNat ≤ 90) ∨ (97 ≤ c.toNat ∧ c.toNat ≤ 122) :=
  (isAlpha_iff.1 h).imp toNat_of_isUpper isLower_iff.1

lemma toLower_of_not_isUpper {c : Char} (h : ¬ c.isUpper = true) : c.toLower = c :=
  dif_neg fun hupper => h (isUpper_iff.2 hupper)

/-- The small letter of a letter is a small letter. -/
lemma isLower_toLower {c : Char} (h : c.isAlpha = true) : c.toLower.isLower = true := by
  by_cases hupper : c.isUpper = true
  · -- the small letters stand thirty-two places behind the capital ones
    have hbounds := toNat_of_isUpper hupper
    have hsmall : c.toLower.toNat = c.toNat + 32 := by
      rw [show c.toLower = _ from dif_pos (isUpper_iff.1 hupper)]
      change (c.val + 32).toNat = c.val.toNat + 32
      change 65 ≤ c.val.toNat ∧ c.val.toNat ≤ 90 at hbounds
      rw [UInt32.toNat_add, show (32 : UInt32).toNat = 32 from rfl]
      omega
    exact isLower_iff.2 (by omega)
  · rw [toLower_of_not_isUpper hupper]
    exact (isAlpha_iff.1 h).resolve_left hupper

lemma toNat_of_isDigit {c : Char} (h : c.isDigit = true) : 48 ≤ c.toNat ∧ c.toNat ≤ 57 := by
  obtain ⟨hleast, hmost⟩ := Bool.and_eq_true_iff.1 h
  exact ⟨UInt32.le_iff_toNat_le.1 (of_decide_eq_true hleast), UInt32.le_iff_toNat_le.1 (of_decide_eq_true hmost)⟩

/-- Neither small letters nor digits are capital letters. -/
lemma not_isUpper_of_isLower_or_isDigit {c : Char} (h : c.isLower = true ∨ c.isDigit = true) :
    ¬ c.isUpper = true := by
  intro hupper
  have hcapital := toNat_of_isUpper hupper
  rcases h with hlower | hdigit
  · have := isLower_iff.1 hlower
    omega
  · have := toNat_of_isDigit hdigit
    omega

/-- No blank is between the space and the blanks outside of ASCII. -/
theorem isBlank_of_between {c : Char} (hleast : 33 ≤ c.toNat) (hmost : c.toNat ≤ 126) : isBlank c = false := by
  have hranges : ∀ range ∈ blankRanges, range.2 < 33 ∨ 126 < range.1 := by decide
  rw [Bool.eq_false_iff, isBlank, ne_eq, Range.mem_iff_of_ascending ascending_blankRanges]
  rintro ⟨range, hrange, hlow, hhigh⟩
  have := hranges range hrange
  omega

lemma isBlank_of_isAlpha {c : Char} (h : c.isAlpha = true) : isBlank c = false := by
  have := toNat_of_isAlpha h
  exact isBlank_of_between (by omega) (by omega)

end Stencil.Text
