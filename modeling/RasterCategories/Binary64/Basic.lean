import RasterCategories.Binary.Format
/-!
# Binary64 numbers as bit patterns

Categories are told apart by the payload bits of NaNs, and samples by the sign of zero, so a number
is its bit pattern here and equality of numbers is equality of patterns. The comparisons of IEEE 754
are separate relations, defined through the exact value that a pattern stands for.

* `Binary64.value`: the exact value in units of the least subnormal, infinity included.
* `x < y`, `x ≤ y`, `x.EqualTo y`: the comparisons of IEEE 754, false as soon as an operand is NaN;
  the two zeros are equal.
-/

namespace RasterCategories

/-- A binary64 number, kept as its 64-bit pattern. -/
structure Binary64 where
  /-- Sign, exponent and fraction, most significant first. -/
  bits : BitVec 64
deriving DecidableEq, Inhabited

namespace Binary64

/-- The number with the given pattern, of which the low 64 bits count. -/
def ofPattern (pattern : Nat) : Binary64 := ⟨BitVec.ofNat 64 pattern⟩

/-- The bit pattern as a natural number. -/
def pattern (x : Binary64) : Nat := x.bits.toNat

/-- The sign bit, which zeros and NaNs have too. -/
def isNegative (x : Binary64) : Bool := 2 ^ 63 ≤ x.pattern

/-- The pattern without its sign bit. -/
def unsigned (x : Binary64) : Nat := x.pattern % 2 ^ 63

/-- The number with the given sign bit and unsigned pattern. -/
def ofUnsigned (negative : Bool) (unsigned : Nat) : Binary64 :=
  ofPattern (if negative then 2 ^ 63 + unsigned else unsigned)

/-- Not a number: unsigned patterns above that of infinity. -/
def isNaN (x : Binary64) : Bool := BinaryFormat.double.infinity < x.unsigned

/-- Either infinity. -/
def isInfinite (x : Binary64) : Bool := x.unsigned == BinaryFormat.double.infinity

/-- Neither infinite nor NaN. -/
def isFinite (x : Binary64) : Bool := x.unsigned < BinaryFormat.double.infinity

/-- Either zero. -/
def isZero (x : Binary64) : Bool := x.unsigned == 0

/-- How many least subnormals make the number without its sign. One least subnormal is `2 ^ -1074`.
The magnitude of infinity is `2 ^ 2098` of them, above every finite one. -/
def magnitude (x : Binary64) : Nat := BinaryFormat.double.magnitude x.unsigned

/-- The exact value of a number that is not NaN, in least subnormals. -/
def value (x : Binary64) : Int := if x.isNegative then -(x.magnitude : Int) else x.magnitude

/-- One, counted in least subnormals. -/
def unit : Nat := 2 ^ 1074

/-- The pattern as a signed 64-bit integer. -/
def signedBits (x : Binary64) : Int := x.bits.toInt

/-- Positive zero. -/
def zero : Binary64 := ofPattern 0

/-- Negative zero. -/
def negZero : Binary64 := ofPattern 0x8000000000000000

/-- One. -/
def one : Binary64 := ofPattern 0x3FF0000000000000

/-- Positive infinity. -/
def infinity : Binary64 := ofPattern 0x7FF0000000000000

/-- Negative infinity. -/
def negInfinity : Binary64 := ofPattern 0xFFF0000000000000

/-- The quiet NaN without sign and payload. -/
def nan : Binary64 := ofPattern 0x7FF8000000000000

/-! ### Comparisons -/

/-- `x < y` compares exact values and is false if an operand is NaN. -/
instance : LT Binary64 := ⟨fun x y => x.isNaN = false ∧ y.isNaN = false ∧ x.value < y.value⟩

/-- `x ≤ y` compares exact values and is false if an operand is NaN. -/
instance : LE Binary64 := ⟨fun x y => x.isNaN = false ∧ y.isNaN = false ∧ x.value ≤ y.value⟩

instance (x y : Binary64) : Decidable (x < y) :=
  inferInstanceAs (Decidable (x.isNaN = false ∧ y.isNaN = false ∧ x.value < y.value))

instance (x y : Binary64) : Decidable (x ≤ y) :=
  inferInstanceAs (Decidable (x.isNaN = false ∧ y.isNaN = false ∧ x.value ≤ y.value))

/-- Numerical equality: the two zeros are equal, and a NaN equals nothing. -/
def EqualTo (x y : Binary64) : Prop := x.isNaN = false ∧ y.isNaN = false ∧ x.value = y.value

instance (x y : Binary64) : Decidable (x.EqualTo y) :=
  inferInstanceAs (Decidable (x.isNaN = false ∧ y.isNaN = false ∧ x.value = y.value))

theorem lt_iff {x y : Binary64} :
    x < y ↔ x.isNaN = false ∧ y.isNaN = false ∧ x.value < y.value := Iff.rfl

theorem le_iff {x y : Binary64} :
    x ≤ y ↔ x.isNaN = false ∧ y.isNaN = false ∧ x.value ≤ y.value := Iff.rfl

/-- A number that is not NaN is at most itself. -/
theorem le_refl {x : Binary64} (h : x.isNaN = false) : x ≤ x := ⟨h, h, Int.le_refl _⟩

theorem le_trans {x y z : Binary64} (h₁ : x ≤ y) (h₂ : y ≤ z) : x ≤ z :=
  ⟨h₁.1, h₂.2.1, Int.le_trans h₁.2.2 h₂.2.2⟩

theorem le_of_lt {x y : Binary64} (h : x < y) : x ≤ y := ⟨h.1, h.2.1, Int.le_of_lt h.2.2⟩

/-- Of two numbers that are not NaN, one is at most the other. -/
theorem le_of_not_lt {x y : Binary64} (hx : x.isNaN = false) (hy : y.isNaN = false)
    (h : ¬ x < y) : y ≤ x :=
  ⟨hy, hx, Int.not_lt.mp fun hlt => h ⟨hx, hy, hlt⟩⟩

/-- Bit patterns below `2 ^ 64` are kept whole. -/
theorem pattern_ofPattern {n : Nat} (h : n < 2 ^ 64) : (ofPattern n).pattern = n := by
  rw [pattern, ofPattern, BitVec.toNat_ofNat, Nat.mod_eq_of_lt h]

end Binary64

end RasterCategories
