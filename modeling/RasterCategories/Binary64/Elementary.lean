import RasterCategories.Binary64.Arithmetic
/-!
# Exponential, logarithms and powers

The elementary functions are computed with fixed-point numbers of `fractionalBits` fractional bits and
rounded once at the end. The logarithm splits off the binary exponent and sums the series of the
inverse hyperbolic tangent; the exponential splits off a multiple of `log 2` and sums its own series.

* `Binary64.exp`, `Binary64.log`, `Binary64.log2`, `Binary64.log10`.
* `Binary64.pow`: powers of a positive base; an integral exponent is exact before the rounding.
-/

namespace RasterCategories

namespace FixedPoint

/-- Number of bits after the binary point. -/
def fractionalBits : Nat := 160

/-- One as a fixed-point number. -/
def one : Nat := 2 ^ fractionalBits

/-- The sum of `power * square ^ i / (2 * (index + i) + 1)` over `terms` values of `i`. -/
def arctanhSeries : (terms index power square : Nat) → Nat
  | 0, _, _, _ => 0
  | terms + 1, index, power, square =>
    power / (2 * index + 1) + arctanhSeries terms (index + 1) (power * square / one) square

/-- The natural logarithm of `num / den`, for quotients from one to two. -/
def logNearOne (num den : Nat) : Nat :=
  let ratio := (num - den) * one / (num + den)
  2 * arctanhSeries 56 0 ratio (ratio * ratio / one)

/-- The natural logarithm of two. -/
def logTwo : Nat := logNearOne 2 1

/-- The sum of `term * argument ^ i * index! / (index + i)!` over `terms` values of `i`. -/
def expSeries : (terms index term argument : Nat) → Nat
  | 0, _, _, _ => 0
  | terms + 1, index, term, argument =>
    term + expSeries terms (index + 1) (term * argument / (one * (index + 1))) argument

end FixedPoint

namespace Binary64

open FixedPoint

/-- The natural logarithm of a positive finite number, in fixed point. -/
def logFixed (x : Binary64) : Int :=
  let top := x.magnitude.log2
  ((top : Int) - 1074) * logTwo + logNearOne x.magnitude (2 ^ top)

/-- The number nearest to a fixed-point number. -/
def ofFixed (n : Int) : Binary64 := ofRatio (n < 0) (n.natAbs * unit) FixedPoint.one

/-- Beyond this exponent, in fixed point, every exponential overflows or vanishes. -/
def exponentLimit : Int := 1100 * (FixedPoint.one : Int)

/-- The exponential of a fixed-point number. -/
def expFixed (n : Int) : Binary64 :=
  if exponentLimit < n then infinity
  else if n < -exponentLimit then zero
  else
    let scale := n / (logTwo : Int) + 1074
    let mantissa := expSeries 48 0 FixedPoint.one (n % (logTwo : Int)).toNat
    if 0 ≤ scale then ofRatio false (mantissa * 2 ^ scale.toNat) FixedPoint.one
    else ofRatio false mantissa (FixedPoint.one * 2 ^ (-scale).toNat)

/-- The exponential function. -/
def exp (x : Binary64) : Binary64 :=
  if x.isNaN then x.quiet
  else if x.isInfinite then (if x.isNegative then zero else infinity)
  else expFixed (x.value * FixedPoint.one / (unit : Int))

/-- A logarithm, given how to find it for positive finite numbers: zeros give negative infinity,
negative numbers have none, and infinity is its own. -/
def logWith (finite : Binary64 → Binary64) (x : Binary64) : Binary64 :=
  if x.isNaN then x.quiet
  else if x.isZero then negInfinity
  else if x.isNegative then undefined
  else if x.isInfinite then x
  else finite x

/-- The natural logarithm. -/
def log : Binary64 → Binary64 := logWith fun x => ofFixed x.logFixed

/-- The logarithm to base two. -/
def log2 : Binary64 → Binary64 :=
  logWith fun x => ofFixed (x.logFixed * FixedPoint.one / (logTwo : Int))

/-- Ten. -/
def ten : Binary64 := ofInt 10

/-- Two. -/
def two : Binary64 := ofInt 2

/-- The logarithm to base ten. -/
def log10 : Binary64 → Binary64 :=
  logWith fun x => ofFixed (x.logFixed * FixedPoint.one / ten.logFixed)

/-- The number nearest to Euler's number. -/
def eulerNumber : Binary64 := ofPattern 0x4005BF0A8B145769

/-- The integral power of a positive finite number, exact before one rounding. -/
def powInt (base : Binary64) (exponent : Int) : Binary64 :=
  let divisor := Nat.gcd base.magnitude unit
  let num := base.magnitude / divisor
  let den := unit / divisor
  let n := exponent.natAbs
  if 0 ≤ exponent then ofRatio false (num ^ n * unit) (den ^ n)
  else ofRatio false (den ^ n * unit) (num ^ n)

/-- The power of a base that is positive, finite and different from one. -/
def pow (base x : Binary64) : Binary64 :=
  if x.isNaN then x.quiet
  else if x.isInfinite then
    if x.isNegative = decide (base < Binary64.one) then infinity else zero
  else
    let exponent := base.logFixed * x.value / (unit : Int)
    if exponentLimit < exponent then infinity
    else if exponent < -exponentLimit then zero
    else
      match x.toInt? with
      | some n => if n.natAbs ≤ 1100 then base.powInt n else expFixed exponent
      | none => expFixed exponent

end Binary64

end RasterCategories
