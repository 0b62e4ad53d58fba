import RasterCategories.Binary64.Elementary
import RasterCategories.Error
/-!
# Parameters of transforms

The parameters of linear, exponential and logarithmic transforms are restricted, so each kind is a
structure that carries the restrictions, with a checked constructor.

* `Linear.of`, `Exponential.of`, `Logarithmic.of`: the checked constructors.
* `Linear.inverse`, `Exponential.inverse`, `Logarithmic.inverse`: the parameters of the inverse, which
  are computed with rounding and checked again.
-/

namespace RasterCategories

/-- The function `x * scale + offset`. -/
structure Linear where
  /-- The factor. -/
  scale : Binary64
  /-- The number added after the multiplication. -/
  offset : Binary64
  scale_ne_zero : scale.isZero = false
  scale_finite : scale.isFinite = true
  offset_finite : offset.isFinite = true
deriving DecidableEq

/-- A base of powers and logarithms is positive, finite and different from one. -/
def Binary64.IsBase (base : Binary64) : Prop :=
  Binary64.zero < base ∧ ¬ base.EqualTo .one ∧ base.isFinite = true

instance (base : Binary64) : Decidable base.IsBase := inferInstanceAs (Decidable (_ ∧ _))

/-- The function `scale * base ^ x`. -/
structure Exponential where
  /-- The base of the power. -/
  base : Binary64
  /-- The factor of the power. -/
  scale : Binary64
  isBase : base.IsBase
  scale_pos : Binary64.zero < scale
  scale_finite : scale.isFinite = true
deriving DecidableEq

/-- The function `log x + offset` to some base. -/
structure Logarithmic where
  /-- The base of the logarithm. -/
  base : Binary64
  /-- The number added to the logarithm. -/
  offset : Binary64
  isBase : base.IsBase
  offset_finite : offset.isFinite = true
deriving DecidableEq

namespace Linear

/-- The checked constructor: the scale is finite and not zero, the offset finite. -/
def of (scale offset : Binary64) : Except Error Linear :=
  if hs : scale.isZero = false ∧ scale.isFinite = true then
    if ho : offset.isFinite = true then .ok ⟨scale, offset, hs.1, hs.2, ho⟩
    else .error (.linearOffset offset)
  else .error (.linearScale scale)

/-- The value of the function. -/
def eval (p : Linear) (x : Binary64) : Binary64 := x * p.scale + p.offset

/-- The inverse, in the same form of a product and a sum. -/
def inverse (p : Linear) : Except Error Linear :=
  of (Binary64.one / p.scale) (-p.offset / p.scale)

end Linear

namespace Exponential

/-- The checked constructor. -/
def of (base scale : Binary64) : Except Error Exponential :=
  if hb : base.IsBase then
    if hs : Binary64.zero < scale ∧ scale.isFinite = true then .ok ⟨base, scale, hb, hs.1, hs.2⟩
    else .error (.exponentialScale scale)
  else .error (.exponentialBase base)

/-- The power of the base: bases ten and Euler's number have functions of their own, every other base
goes through the natural exponential. -/
def power (base x : Binary64) : Binary64 :=
  if base.EqualTo .ten then Binary64.ten.pow x
  else if base.EqualTo .eulerNumber then x.exp
  else (x * base.log).exp

/-- The value of the function. A scale of one is not multiplied. -/
def eval (p : Exponential) (x : Binary64) : Binary64 :=
  let y := power p.base x
  if p.scale.EqualTo .one then y else y * p.scale

/-- The derivative, the value times the natural logarithm of the base. -/
def slope (p : Exponential) (x : Binary64) : Binary64 := p.eval x * p.base.log

end Exponential

namespace Logarithmic

/-- The checked constructor. -/
def of (base offset : Binary64) : Except Error Logarithmic :=
  if hb : base.IsBase then
    if ho : offset.isFinite = true then .ok ⟨base, offset, hb, ho⟩
    else .error (.logarithmOffset offset)
  else .error (.logarithmBase base)

/-- The logarithm to a base: bases ten, two and Euler's number have functions of their own, every other
base is a quotient of natural logarithms. -/
def logarithm (base x : Binary64) : Binary64 :=
  if base.EqualTo .ten then x.log10
  else if base.EqualTo .two then x.log2
  else if base.EqualTo .eulerNumber then x.log
  else x.log / base.log

/-- The value of the function. An offset of zero is not added. -/
def eval (p : Logarithmic) (x : Binary64) : Binary64 :=
  let y := logarithm p.base x
  if p.offset.isZero then y else y + p.offset

/-- The derivative. -/
def slope (p : Logarithmic) (x : Binary64) : Binary64 := Binary64.one / (x * p.base.log)

/-- The inverse: from `log x + offset = y` follows `x = base ^ -offset * base ^ y`. -/
def inverse (p : Logarithmic) : Except Error Exponential :=
  let scale := p.base.pow (-p.offset)
  if scale.isInfinite then .error .powerOverflow else Exponential.of p.base scale

end Logarithmic

/-- The inverse: from `scale * base ^ x = y` follows `x = log y - log scale`. -/
def Exponential.inverse (p : Exponential) : Except Error Logarithmic :=
  let offset :=
    if p.scale.EqualTo .one then Binary64.zero else -(p.scale.log / p.base.log)
  Logarithmic.of p.base offset

end RasterCategories
