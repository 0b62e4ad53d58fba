import RasterCategories.Binary.Format
/-!
# Shortest decimals that read back

A finite number stands for the interval of reals that round to it. Of all decimals in that interval
the shortest are those with the fewest digits, and of these the nearest to the number is chosen. The
narrower the format, the wider the intervals and the fewer the digits.

* `Decimal.RoundingInterval.ofPattern`: the interval of an unsigned pattern of a format.
* `Decimal.RoundingInterval.shortest`: the decimal chosen from it.
-/

namespace RasterCategories

/-- A positive decimal: digits without trailing zeros, and the power of ten of the first digit. -/
structure Decimal where
  /-- The significant digits, first to last. -/
  digits : List Char
  /-- The power of ten that the first digit counts. -/
  exponent : Int
deriving DecidableEq

namespace Decimal

/-- The decimal digits of a natural number. -/
def digitsOf (n : Nat) : List Char := Nat.toDigits 10 n

/-- The decimal `significand * 10 ^ exponent`. -/
def ofScaled (significand : Nat) (exponent : Int) : Decimal :=
  let digits := digitsOf significand
  ⟨(digits.reverse.dropWhile (· == '0')).reverse, exponent + digits.length - 1⟩

/-- The numbers that round to one pattern, counted in halves of the least subnormal: they lie between
the midpoints to the two neighbours, which belong to the interval if the pattern is even. -/
structure RoundingInterval where
  /-- The midpoint to the neighbour below. -/
  low : Nat
  /-- The number itself. -/
  middle : Nat
  /-- The midpoint to the neighbour above. -/
  high : Nat
  /-- Whether the midpoints belong to the interval. -/
  closed : Bool
  /-- One, counted in the same halves. -/
  one : Nat

namespace RoundingInterval

/-- The interval of an unsigned pattern. -/
def ofPattern (f : BinaryFormat) (pattern : Nat) : RoundingInterval :=
  { low := f.magnitude (pattern - 1) + f.magnitude pattern
    middle := 2 * f.magnitude pattern
    high := f.magnitude pattern + f.magnitude (pattern + 1)
    closed := pattern % 2 == 0
    one := 2 * f.unit }

/-- The factor from counts of an interval to points of the decimal grid `10 ^ exponent`, as a numerator
and a denominator. -/
def gridScale (interval : RoundingInterval) (exponent : Int) : Nat × Nat :=
  (10 ^ (-exponent).toNat, interval.one * 10 ^ exponent.toNat)

/-- Whether `d * 10 ^ exponent` lies in the interval. -/
def holds (interval : RoundingInterval) (exponent : Int) (d : Nat) : Bool :=
  let (num, den) := interval.gridScale exponent
  if interval.closed then
    decide (interval.low * num ≤ d * den) && decide (d * den ≤ interval.high * num)
  else decide (interval.low * num < d * den) && decide (d * den < interval.high * num)

/-- The point of the decimal grid `10 ^ exponent` in the interval that is nearest to its middle, a tie
going to the even point. -/
def gridPoint? (interval : RoundingInterval) (exponent : Int) : Option Nat :=
  let (num, den) := interval.gridScale exponent
  let below := interval.middle * num / den
  match interval.holds exponent below, interval.holds exponent (below + 1) with
  | true, true => some (roundDiv (interval.middle * num) den)
  | true, false => some below
  | false, true => some (below + 1)
  | false, false => none

/-- The power of ten of the first digit of the middle of an interval. -/
def leadingExponent (interval : RoundingInterval) : Int :=
  ((digitsOf (interval.middle * 10 ^ 400 / interval.one)).length : Int) - 401

/-- Tries the grids of a growing number of digits. -/
def shortestFrom (interval : RoundingInterval) (leading : Int) : (fuel digits : Nat) → Decimal
  | 0, digits =>
    let exponent := leading - digits + 1
    let (num, den) := interval.gridScale exponent
    ofScaled (roundDiv (interval.middle * num) den) exponent
  | fuel + 1, digits =>
    let exponent := leading - digits + 1
    match interval.gridPoint? exponent with
    | some d => ofScaled d exponent
    | none => interval.shortestFrom leading fuel (digits + 1)

/-- The shortest decimal in the interval of a positive finite number. Seventeen digits always suffice. -/
def shortest (interval : RoundingInterval) : Decimal :=
  interval.shortestFrom interval.leadingExponent 16 1

end RoundingInterval

end Decimal

end RasterCategories
