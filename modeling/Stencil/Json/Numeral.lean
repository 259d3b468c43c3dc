import Stencil.Json.Value
import Stencil.Number.Word

/-!
# Numerals

The written form of a number, and the number it stands for. An integer of sixty-four bits is exact. Every other
number is a double: the digits that fit in sixty-four bits, rounded once to a double, scaled by a power of ten.
-/

namespace Stencil.Json

/-- The parts of a written number: its sign, the digits in front of the point, those behind it, and the exponent. -/
structure Numeral where
  negative : Bool
  whole : Text
  fraction : Option Text
  exponent : Option Int
deriving DecidableEq, Repr

namespace Numeral

/-! ## Reading the parts -/

/-- Digits with an optional sign, behind the letter of an exponent. -/
def exponent? : Text → Option Int
  | '-' :: digits => (Text.toNat? digits).map fun n => -(n : Int)
  | '+' :: digits => (Text.toNat? digits).map fun n => (n : Int)
  | digits => (Text.toNat? digits).map fun n => (n : Int)

/-- The exponent at the end of a numeral: nothing at all, or a letter and an integer. -/
def readExponent : Text → Option (Option Int)
  | [] => some none
  | 'e' :: rest => (exponent? rest).map some
  | 'E' :: rest => (exponent? rest).map some
  | _ => none

/-- A numeral of one whole text: no plus sign, no needless leading zero, a digit on each side of a point. -/
def read? (t : Text) : Option Numeral :=
  let (negative, digits) := match t with
    | '-' :: rest => (true, rest)
    | rest => (false, rest)
  let whole := digits.takeWhile Char.isDigit
  if whole.isEmpty || (whole.head? == some '0' && whole.length != 1) then none
  else
    match digits.dropWhile Char.isDigit with
    | '.' :: rest =>
      let fraction := rest.takeWhile Char.isDigit
      if fraction.isEmpty then none
      else (readExponent (rest.dropWhile Char.isDigit)).map fun e => ⟨negative, whole, some fraction, e⟩
    | rest => (readExponent rest).map fun e => ⟨negative, whole, none, e⟩

/-! ## The number -/

/-- Appends digits to a number while it stays a word, and gives the digits left. -/
def absorb (n : Nat) : Text → Nat × Text
  | [] => (n, [])
  | d :: rest =>
    let next := n * 10 + (d.toNat - '0'.toNat)
    if next < Word.size then absorb next rest else (n, d :: rest)

/-- A power of ten as a double. -/
def powerOfTen (k : Nat) : Double := ⟨false, Double.roundUnits (Nat.pow 10 k * Double.one) 1⟩

/-- The greatest power of ten that is scaled by in one step. -/
def greatestPower : Nat := 308

/-- A double times a power of ten, rounded once if the power itself is a double; a smaller power is divided by in
steps. Nothing if the result is out of range. -/
def scale (d : Double) (exponent : Int) : Option Double :=
  if exponent.natAbs ≤ greatestPower then
    if 0 ≤ exponent then d.mul? (powerOfTen exponent.natAbs) else d.div? (powerOfTen exponent.natAbs)
  else if d.isZero then some d
  else if 0 ≤ exponent then none
  else (d.div? (powerOfTen greatestPower)).bind fun smaller => scale smaller (exponent + greatestPower)
termination_by exponent.natAbs
decreasing_by
  have : 0 < greatestPower := by decide
  omega

/-- The number that a numeral stands for; nothing if it is out of range. -/
def value? (n : Numeral) : Option Number :=
  let (significand, unread) := absorb 0 n.whole
  match n.fraction, n.exponent, unread with
  | none, none, [] =>
    if n.negative then
      -- zero keeps its sign, and for that it has to be a double
      if 0 < significand ∧ significand ≤ Word.negatives then some (.int (-significand))
      else (Double.ofNat? significand).map fun d => .double d.neg
    else some (.int significand)
  | fraction, exponent, unread =>
    let digits := fraction.getD []
    -- digits of the whole part that did not fit still count as places, those of the fraction that did not are dropped
    let (significand, ignored) := absorb significand digits
    let place : Int := unread.length - (digits.length - ignored.length : Nat) + exponent.getD 0
    do
      let d ← Double.ofNat? significand
      let scaled ← scale d place
      return .double { scaled with negative := n.negative }

end Numeral

end Stencil.Json
