import RasterCategories.Binary64.Basic
/-!
# Binary32 numbers and the two conversions

Rasters may be stored at half the width. Narrowing rounds to nearest with ties to even; a NaN keeps its
sign and the top 23 bits of its fraction and becomes quiet. Widening is exact, and makes a NaN quiet.

* `Binary64.narrow` and `Binary32.widen`.
-/

namespace RasterCategories

/-- A binary32 number, kept as its 32-bit pattern. -/
structure Binary32 where
  /-- Sign, exponent and fraction, most significant first. -/
  bits : BitVec 32
deriving DecidableEq, Inhabited

namespace Binary32

/-- The number with the given pattern, of which the low 32 bits count. -/
def ofPattern (pattern : Nat) : Binary32 := ⟨BitVec.ofNat 32 pattern⟩

/-- The bit pattern as a natural number. -/
def pattern (x : Binary32) : Nat := x.bits.toNat

/-- The sign bit. -/
def isNegative (x : Binary32) : Bool := 2 ^ 31 ≤ x.pattern

/-- The pattern without its sign bit. -/
def unsigned (x : Binary32) : Nat := x.pattern % 2 ^ 31

/-- Not a number: unsigned patterns above that of infinity. -/
def isNaN (x : Binary32) : Bool := BinaryFormat.single.infinity < x.unsigned

/-- The number with the given sign bit and unsigned pattern. -/
def ofUnsigned (negative : Bool) (unsigned : Nat) : Binary32 :=
  ofPattern (if negative then 2 ^ 31 + unsigned else unsigned)

/-- How many least subnormals of the wide format make one of the narrow format. -/
def unitRatio : Nat := 2 ^ 925

/-- The quiet bit of an unsigned pattern. -/
def quietBit : Nat := 0x00400000

/-- Sets the quiet bit of an unsigned pattern. -/
def makeQuiet (unsigned : Nat) : Nat :=
  if unsigned / quietBit % 2 = 0 then unsigned + quietBit else unsigned

/-- The same number in the wide format. -/
def widen (x : Binary32) : Binary64 :=
  if x.isNaN then
    .ofUnsigned x.isNegative
      (BinaryFormat.double.infinity
        + (makeQuiet x.unsigned - BinaryFormat.single.infinity) * 2 ^ 29)
  else if x.unsigned = BinaryFormat.single.infinity then
    .ofUnsigned x.isNegative BinaryFormat.double.infinity
  else
    .ofUnsigned x.isNegative
      (BinaryFormat.double.nearest (BinaryFormat.single.magnitude x.unsigned * unitRatio) 1)

/-- `x < y` compares exact values and is false if an operand is NaN. -/
instance : LT Binary32 := ⟨fun x y => x.widen < y.widen⟩

instance (x y : Binary32) : Decidable (x < y) :=
  inferInstanceAs (Decidable (x.widen < y.widen))

end Binary32

/-- The nearest number of the narrow format. -/
def Binary64.narrow (x : Binary64) : Binary32 :=
  if x.isNaN then
    .ofUnsigned x.isNegative
      (Binary32.makeQuiet
        (BinaryFormat.single.infinity + (x.unsigned - BinaryFormat.double.infinity) / 2 ^ 29))
  else if x.isInfinite then .ofUnsigned x.isNegative BinaryFormat.single.infinity
  else
    .ofUnsigned x.isNegative
      (BinaryFormat.single.nearest x.magnitude Binary32.unitRatio)

end RasterCategories
