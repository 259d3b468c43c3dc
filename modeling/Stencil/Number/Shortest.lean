import Stencil.Number.Double
import Stencil.Text.Basic

/-!
# The shortest decimal of a double

A double stands for the interval of numbers that round to it. Its shortest decimal is the one of fewest digits in
that interval, and of several the nearest to the double itself; of two that are equally near it is the one with an
even last digit. The search tries one digit, two digits and so on, and looks at the two decimals of that length around
the double: if any decimal of the length lies in the interval, one of these two does.
-/

namespace Stencil.Double

/-- Digits without leading or trailing zeros, and the power of ten that the first of them counts. -/
structure Decimal where
  digits : Text
  exponent : Int
deriving DecidableEq, Repr

/-- The numbers that round to a magnitude, in quarters of a unit; the ends belong to it or not. -/
structure Interval where
  low : Nat
  high : Nat
  closed : Bool

/-- A magnitude with an even last digit takes both ends of its interval. Below a power of two doubles stand half as far
apart, so there the lower end is nearer. -/
def interval (units : Nat) : Interval :=
  let step := Nat.pow 2 (shift units)
  let significand := units / step
  let below := if significand = Nat.pow 2 (precision - 1) ∧ 1 < step then step else 2 * step
  ⟨4 * units - below, 4 * units + 2 * step, significand % 2 = 0⟩

/-- Whether a number of quarter units, given as a quotient, lies in an interval. -/
def Interval.holds (i : Interval) (num den : Nat) : Bool :=
  if i.closed then i.low * den ≤ num ∧ num ≤ i.high * den else i.low * den < num ∧ num < i.high * den

/-- The power of ten of the first decimal digit of a positive quotient. -/
def leadingExponent (num den : Nat) : Int :=
  let estimate : Int := (Nat.toDigits 10 num).length - (Nat.toDigits 10 den).length
  -- the estimate from the numbers of digits is right or one too great
  if den * Nat.pow 10 estimate.toNat ≤ num * Nat.pow 10 (-estimate).toNat then estimate else estimate - 1

/-- The multiple of `10 ^ place` nearest to a magnitude among those in its interval. -/
def nearestOnGrid? (units : Nat) (place : Int) : Option Nat :=
  let num := units * Nat.pow 10 (-place).toNat
  let den := one * Nat.pow 10 place.toNat
  let held := fun (c : Nat) => (interval units).holds (4 * c * den) (Nat.pow 10 (-place).toNat)
  let lower := num / den
  let upper := lower + 1
  match held lower, held upper with
  -- the nearer of the two; a tie goes to the even one
  | true, true =>
    some (if 2 * (num % den) < den ∨ 2 * (num % den) = den ∧ lower % 2 = 0 then lower else upper)
  | true, false => some lower
  | false, true => some upper
  | false, false => none

/-- A text without its trailing zeros. -/
def dropTrailingZeros (t : Text) : Text := (t.reverse.dropWhile (· == '0')).reverse

/-- The decimal of fewest digits that reads back as the magnitude. Seventeen digits always do. -/
def shortest (units : Nat) : Decimal :=
  if units = 0 then ⟨['0'], 0⟩
  else
    let leading := leadingExponent units one
    -- seventeen lengths are tried; the last one never fails
    let tried := (List.range 17).findSome? fun (refused : Nat) =>
      (nearestOnGrid? units (leading - refused)).map fun c => (c, leading - refused)
    match tried with
    | none => ⟨['0'], 0⟩
    | some (c, place) =>
      let digits := Nat.toDigits 10 c
      ⟨dropTrailingZeros digits, place + (digits.length - 1 : Nat)⟩

/-! ## Layout -/

/-- How decimals are laid out: the powers of ten of a first digit between which no exponent is written. -/
structure Layout where
  lowest : Int
  highest : Int

/-- An exponent with its sign, which is always written. -/
def exponentText (exponent : Int) : Text :=
  (if exponent < 0 then '-' else '+') :: Text.ofNat exponent.natAbs

/-- A decimal written positionally with at least one digit on each side of the point, or else with an exponent, where
a point is written only between digits. -/
def Layout.write (layout : Layout) (d : Decimal) : Text :=
  if layout.lowest ≤ d.exponent ∧ d.exponent ≤ layout.highest then
    if d.exponent < 0 then
      ['0', '.'] ++ List.replicate (-d.exponent - 1).toNat '0' ++ d.digits
    else
      let whole := d.exponent.toNat + 1
      let padded := d.digits ++ List.replicate (whole - d.digits.length) '0'
      let fraction := padded.drop whole
      padded.take whole ++ '.' :: (if fraction.isEmpty then ['0'] else fraction)
  else
    match d.digits with
    | [] => []
    | first :: [] => first :: 'e' :: exponentText d.exponent
    | first :: rest => first :: '.' :: rest ++ 'e' :: exponentText d.exponent

end Stencil.Double
