/-!
# Binary interchange formats

A binary format is given by the widths of its fraction and exponent fields. The unsigned part of a
bit pattern, read as one natural number, already orders the numbers of the format, and its magnitude
is a whole number of least subnormals.

* `roundDiv` is the quotient rounded to nearest, a half going to the even neighbour.
* `BinaryFormat.unit` is one as a count of least subnormals.
* `BinaryFormat.magnitude` reads an unsigned pattern as a count of least subnormals.
* `BinaryFormat.nearest` rounds an exact quotient, counted in least subnormals, to a pattern. It is
  the only rounding step of the library: sums, products, quotients, conversions between widths and
  decimal input all go through it.
-/

namespace RasterCategories

-- A power means the same to every module, also to one that imports algebra with powers of its own.
attribute [scoped instance (2000)] instPowNat
attribute [default_instance 20000] instPowNat

/-- The quotient of two natural numbers rounded to nearest, a half going to the even neighbour. -/
def roundDiv (num den : Nat) : Nat :=
  let quotient := num / den
  let rest := num % den
  if 2 * rest < den then quotient
  else if den < 2 * rest then quotient + 1
  else quotient + quotient % 2

/-- The rounded quotient is the floor or its successor. -/
theorem div_le_roundDiv (num den : Nat) : num / den ≤ roundDiv num den := by
  unfold roundDiv; dsimp only; split
  · exact Nat.le_refl _
  · split <;> omega

/-- The rounded quotient is the floor or its successor. -/
theorem roundDiv_le_div_add_one (num den : Nat) : roundDiv num den ≤ num / den + 1 := by
  unfold roundDiv; dsimp only; split
  · omega
  · split <;> omega

/-- A binary format: a sign bit, an exponent field and a fraction field. -/
structure BinaryFormat where
  /-- Width of the fraction field. -/
  fractionBits : Nat
  /-- Width of the exponent field. -/
  exponentBits : Nat
deriving DecidableEq

namespace BinaryFormat

/-- The 64-bit format. -/
def double : BinaryFormat := ⟨52, 11⟩

/-- The 32-bit format. -/
def single : BinaryFormat := ⟨23, 8⟩

/-- The unsigned pattern of infinity: all exponent bits set and no fraction. Larger unsigned patterns
are NaNs. -/
def infinity (f : BinaryFormat) : Nat := (2 ^ f.exponentBits - 1) * 2 ^ f.fractionBits

/-- One, counted in least subnormals: the exponent field of one holds as many steps above the
subnormals as the bias less one, and each step doubles. -/
def unit (f : BinaryFormat) : Nat := 2 ^ (2 ^ (f.exponentBits - 1) - 2 + f.fractionBits)

/-- The magnitude of an unsigned pattern, counted in least subnormals. The pattern of infinity
reads as the power of two that follows the largest finite magnitude. -/
def magnitude (f : BinaryFormat) (pattern : Nat) : Nat :=
  if pattern < 2 ^ f.fractionBits then pattern
  else (2 ^ f.fractionBits + pattern % 2 ^ f.fractionBits)
    * 2 ^ (pattern / 2 ^ f.fractionBits - 1)

/-- The unsigned pattern nearest to `num / den` least subnormals, a tie going to the even pattern and
overflow to infinity. The quotient loses as many low bits as it has beyond the significand; what is
left carries its leading bit into the exponent field by plain addition. -/
def nearest (f : BinaryFormat) (num den : Nat) : Nat :=
  let shift := (num / den).log2 - f.fractionBits
  min (shift * 2 ^ f.fractionBits + roundDiv num (den * 2 ^ shift)) f.infinity

/-- Rounding never goes beyond infinity. -/
theorem nearest_le_infinity (f : BinaryFormat) (num den : Nat) :
    f.nearest num den ≤ f.infinity := Nat.min_le_right _ _

end BinaryFormat

end RasterCategories
