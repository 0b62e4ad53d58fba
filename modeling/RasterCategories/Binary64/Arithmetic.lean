import RasterCategories.Binary64.Basic
/-!
# Arithmetic on binary64 numbers

Each operation computes its exact result on whole numbers of least subnormals and rounds it once, to
nearest with ties to even. A NaN operand is returned with its quiet bit set and its sign and payload
kept, the left operand first.

* `Binary64.add`, `Binary64.sub`, `Binary64.mul`, `Binary64.div`, `Binary64.neg`.
* `Binary64.ofInt` and `Binary64.ofDecimal` round integers and decimal fractions.
-/

namespace RasterCategories.Binary64

/-- The number nearest to a quotient of least subnormals, with the given sign. -/
def ofRatio (negative : Bool) (num den : Nat) : Binary64 :=
  ofUnsigned negative (BinaryFormat.double.nearest num den)

/-- The number with its quiet bit set. -/
def quiet (x : Binary64) : Binary64 := ⟨x.bits ||| 0x0008000000000000#64⟩

/-- The NaN that an operation on a NaN gives: the first NaN among its operands, made quiet. -/
def propagate (x y : Binary64) : Binary64 := if x.isNaN then x.quiet else y.quiet

/-- The NaN that an operation without a defined result gives. -/
def undefined : Binary64 := ofPattern 0xFFF8000000000000

/-- The number with its sign bit flipped. -/
def neg (x : Binary64) : Binary64 := ⟨x.bits ^^^ 0x8000000000000000#64⟩

instance : Neg Binary64 := ⟨neg⟩

/-- The rounded sum. An exact sum of zero is positive unless both operands are negative. -/
def add (x y : Binary64) : Binary64 :=
  if x.isNaN || y.isNaN then propagate x y
  else if x.isInfinite then
    if y.isInfinite && x.isNegative != y.isNegative then undefined else x
  else if y.isInfinite then y
  else
    let sum := x.value + y.value
    if sum = 0 then (if x.isNegative && y.isNegative then negZero else zero)
    else ofRatio (sum < 0) sum.natAbs 1

instance : Add Binary64 := ⟨add⟩

/-- The rounded difference. -/
def sub (x y : Binary64) : Binary64 :=
  if x.isNaN || y.isNaN then propagate x y else x + -y

instance : Sub Binary64 := ⟨sub⟩

/-- The rounded product. -/
def mul (x y : Binary64) : Binary64 :=
  let negative := x.isNegative != y.isNegative
  if x.isNaN || y.isNaN then propagate x y
  else if x.isInfinite || y.isInfinite then
    if x.isZero || y.isZero then undefined
    else ofUnsigned negative BinaryFormat.double.infinity
  else ofRatio negative (x.magnitude * y.magnitude) unit

instance : Mul Binary64 := ⟨mul⟩

/-- The rounded quotient. -/
def div (x y : Binary64) : Binary64 :=
  let negative := x.isNegative != y.isNegative
  if x.isNaN || y.isNaN then propagate x y
  else if x.isInfinite then
    if y.isInfinite then undefined else ofUnsigned negative BinaryFormat.double.infinity
  else if y.isInfinite then ofUnsigned negative 0
  else if y.isZero then
    if x.isZero then undefined else ofUnsigned negative BinaryFormat.double.infinity
  else ofRatio negative (x.magnitude * unit) y.magnitude

instance : Div Binary64 := ⟨div⟩

/-- The number nearest to an integer. -/
def ofInt (n : Int) : Binary64 := ofRatio (n < 0) (n.natAbs * unit) 1

/-- The number nearest to `mantissa * 10 ^ exponent`, with the given sign. -/
def ofDecimal (negative : Bool) (mantissa : Nat) (exponent : Int) : Binary64 :=
  if 0 ≤ exponent then ofRatio negative (mantissa * 10 ^ exponent.toNat * unit) 1
  else ofRatio negative (mantissa * unit) (10 ^ (-exponent).toNat)

/-- The integer that a number is, if it is one. -/
def toInt? (x : Binary64) : Option Int :=
  if x.isFinite && x.magnitude % unit == 0 then some (x.value / (unit : Int)) else none

/-- A finite number without its fraction. -/
def truncate (x : Binary64) : Int := x.value.tdiv unit

/-- The negation of a negation gives the pattern back. -/
theorem neg_neg (x : Binary64) : -(-x) = x := by
  show Binary64.mk (x.bits ^^^ 0x8000000000000000#64 ^^^ 0x8000000000000000#64) = x
  rw [BitVec.xor_assoc, BitVec.xor_self, BitVec.xor_zero]

end RasterCategories.Binary64
