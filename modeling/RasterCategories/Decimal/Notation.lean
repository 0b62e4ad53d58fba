import RasterCategories.Binary32
import RasterCategories.Binary64.Arithmetic
import RasterCategories.Decimal.Shortest
/-!
# Written numbers

Messages and descriptions write a number with the fewest digits that read back, positionally for
moderate numbers and with an exponent of at least two digits otherwise. The number decides and not its
digits, which may be rounded up: the narrow number nearest to `0.0001` lies below it and is written
`1e-04`. The bounds of a range are written more briefly: integers without a decimal point, infinities by
their sign.

* `Binary64.text` and `Binary32.text`: a number in a message.
* `Binary64.boundText`: a bound of a range.
-/

namespace RasterCategories

/-- When and how a decimal is written with an exponent. -/
structure DecimalLayout where
  /-- Numbers from this power of ten on are written positionally. -/
  positionalFrom : Int
  /-- Numbers from this power of ten on are written with an exponent. -/
  positionalBelow : Int
  /-- The least number of digits of a written exponent. -/
  exponentDigits : Nat

/-- Numbers are written positionally from `0.0001` up to, and without, `1e+16`. -/
def DecimalLayout.standard : DecimalLayout := ⟨-4, 16, 2⟩

/-- Narrow numbers are written positionally from `0.0001` up to, and without, `1e+06`: six is the number of
decimal digits that they always keep. -/
def DecimalLayout.narrow : DecimalLayout := ⟨-4, 6, 2⟩

namespace Decimal

/-- The written exponent: the letter, a sign and the digits. -/
def exponentText (layout : DecimalLayout) (exponent : Int) : List Char :=
  let digits := digitsOf exponent.natAbs
  'e' :: (if exponent < 0 then '-' else '+')
    :: (List.replicate (layout.exponentDigits - digits.length) '0' ++ digits)

/-- The written form of a decimal, which shows that it is no integer type by a final `.0`. It stands for
a number whose first digit counts the power of ten `leading`. -/
def write (layout : DecimalLayout) (leading : Int) (d : Decimal) : List Char :=
  if layout.positionalFrom ≤ leading ∧ leading < layout.positionalBelow then
    if d.exponent < 0 then
      '0' :: '.' :: (List.replicate ((-d.exponent).toNat - 1) '0' ++ d.digits)
    else
      let whole := d.exponent.toNat + 1
      if d.digits.length ≤ whole then
        d.digits ++ List.replicate (whole - d.digits.length) '0' ++ ['.', '0']
      else d.digits.take whole ++ '.' :: d.digits.drop whole
  else
    match d.digits with
    | [] => []
    | [digit] => digit :: exponentText layout d.exponent
    | digit :: rest => digit :: '.' :: (rest ++ exponentText layout d.exponent)

end Decimal

/-- The number of an unsigned pattern as messages write it. -/
def BinaryFormat.text (f : BinaryFormat) (layout : DecimalLayout) (unsigned : Nat) : String :=
  if unsigned = f.infinity then "inf"
  else if unsigned = 0 then "0.0"
  else
    let interval := Decimal.RoundingInterval.ofPattern f unsigned
    String.ofList (interval.shortest.write layout interval.leadingExponent)

/-- A narrow number as messages write it; the sign and the payload of a NaN are not shown. -/
def Binary32.text (x : Binary32) : String :=
  if x.isNaN then "nan"
  else if x.isNegative then "-" ++ BinaryFormat.single.text .narrow x.unsigned
  else BinaryFormat.single.text .narrow x.unsigned

namespace Binary64

/-- A number as messages write it; the sign and the payload of a NaN are not shown. -/
def text (x : Binary64) : String :=
  if x.isNaN then "nan"
  else if x.isNegative then "-" ++ BinaryFormat.double.text .standard x.unsigned
  else BinaryFormat.double.text .standard x.unsigned

/-- A number as a range writes it: an integral value with all its digits, and no sign on zero. -/
def boundText (x : Binary64) : String :=
  if x.isInfinite then (if x.isNegative then "-∞" else "∞")
  else
    match x.toInt? with
    | some n => toString n
    | none => x.text

end Binary64

end RasterCategories
