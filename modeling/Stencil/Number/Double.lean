/-!
# Doubles

The finite numbers of the double format, each held exactly: every one of them is a whole multiple of the smallest
positive one, `2 ^ -1074`, so a magnitude is a natural number in that unit. Rounding, products and quotients are
arithmetic of natural numbers.

Main statement: a quotient is rounded to the nearest whole number, half a unit off at most (`two_mul_dist_roundDiv`).
-/

namespace Stencil

/-- A finite double: its sign, and its magnitude as a multiple of `2 ^ -1074`. -/
structure Double where
  negative : Bool
  units : Nat
deriving DecidableEq, Repr

namespace Double

/-- The binary digits of a significand. -/
def precision : Nat := 53

/-- The number of units in one. -/
def one : Nat := Nat.pow 2 1074

/-- The largest finite magnitude, in units. -/
def largest : Nat := (Nat.pow 2 precision - 1) * Nat.pow 2 2045

/-- Plus zero. -/
def zero : Double := ⟨false, 0⟩

/-- Whether a double is one of the two zeros. -/
def isZero (d : Double) : Bool := d.units == 0

/-! ## Rounding -/

/-- The quotient of two natural numbers rounded to the nearest whole number; a half goes to the even neighbour. -/
def roundDiv (num den : Nat) : Nat :=
  let quotient := num / den
  let twice := 2 * (num % den)
  if den < twice ∨ (twice = den ∧ quotient % 2 = 1) then quotient + 1 else quotient

/-- A rounded quotient is half a unit off at most. -/
theorem two_mul_dist_roundDiv {num den : Nat} (h : 0 < den) :
    2 * num ≤ 2 * (roundDiv num den * den) + den ∧ 2 * (roundDiv num den * den) ≤ 2 * num + den := by
  have hdiv := Nat.div_add_mod num den
  have hmod := Nat.mod_lt num h
  rw [Nat.mul_comm] at hdiv
  simp only [roundDiv]
  split
  · rw [Nat.add_mul, Nat.one_mul]
    omega
  · omega

/-- How far the last binary digit of a significand stands to the left of the unit, for a magnitude of so many units. -/
def shift (units : Nat) : Nat := units.log2 + 1 - precision

/-- The magnitude nearest to a quotient of units that has a significand of fifty-three binary digits. -/
def roundUnits (num den : Nat) : Nat :=
  let step := Nat.pow 2 (shift (num / den))
  roundDiv num (den * step) * step

/-- The double nearest to a quotient of units; nothing if that lies behind the largest one. -/
def ofUnits? (negative : Bool) (num den : Nat) : Option Double :=
  let units := roundUnits num den
  if units ≤ largest then some ⟨negative, units⟩ else none

/-! ## Arithmetic -/

/-- The double nearest to a natural number. -/
def ofNat? (n : Nat) : Option Double := ofUnits? false (n * one) 1

/-- The product of two doubles, rounded. -/
def mul? (a b : Double) : Option Double := ofUnits? (a.negative != b.negative) (a.units * b.units) one

/-- The quotient of two doubles, rounded; the divisor is not zero. -/
def div? (a b : Double) : Option Double := ofUnits? (a.negative != b.negative) (a.units * one) b.units

/-- A double with its sign turned. -/
def neg (d : Double) : Double := { d with negative := !d.negative }

end Double

end Stencil
