import RasterCategories.Legend.Basic
import RasterCategories.Transform.Parameters
/-!
# Transforms

A transform is an invertible function of one variable, given by its description. Legends are transforms
too, so a description may hold legends, whose categories hold transforms.
-/

namespace RasterCategories

/-- What marks a transform that a caller supplies. -/
structure Mark where
  /-- The name in its written form. -/
  name : String
  /-- Tells apart transforms that a caller made separately. -/
  token : Nat
  /-- How many times it was inverted; each inversion makes a new transform. -/
  generation : Nat
deriving DecidableEq

/-- The description of a transform. -/
inductive Transform where
  /-- The function `x`. -/
  | identity
  /-- The function `x * scale + offset`. -/
  | linear (p : Linear)
  /-- The same value everywhere, and the value of the inverse. -/
  | constant (value inverseValue : Binary64)
  /-- The function `scale * base ^ x`. -/
  | exponential (p : Exponential)
  /-- The function `log x + offset` to some base. -/
  | logarithmic (p : Logarithmic)
  /-- The second transform after the first. -/
  | chain (first second : Transform)
  /-- The conversion by a legend. -/
  | legend (l : Legend Transform)
  /-- A transform that a caller supplies and that is known by its values only. It behaves as another
  one, but arrays are converted value by value, and it is equal to nothing but itself. -/
  | supplied (mark : Mark) (like : Transform)

namespace Transform

/-- Whether the transform is known to convert nothing. -/
def isIdentity : Transform → Bool
  | .identity => true
  | .legend l => l.isIdentity
  | _ => false

/-- The second transform after the first, where a transform that converts nothing is left out. -/
def andThen (first second : Transform) : Transform :=
  if first.isIdentity then second
  else if second.isIdentity then first
  else .chain first second

/-- The linear transform, or the identity for scale one and offset zero. -/
def linearOrIdentity (scale offset : Binary64) : Except Error Transform :=
  if scale.EqualTo .one ∧ offset.isZero = true then .ok .identity
  else (Linear.of scale offset).map .linear

/-- The inverse, whose parameters are computed with rounding and may turn out unusable. The inverse of a
chain undoes the second transform first. -/
def inverse : Transform → Except Error Transform
  | .identity => .ok .identity
  | .linear p => p.inverse.map .linear
  | .constant value inverseValue => .ok (.constant inverseValue value)
  | .exponential p => p.inverse.map .logarithmic
  | .logarithmic p => p.inverse.map .exponential
  | .chain first second => do
    let undoSecond ← second.inverse
    let undoFirst ← first.inverse
    return undoSecond.andThen undoFirst
  | .legend l => .ok (.legend l.converse)
  | .supplied mark like => do
    let like ← like.inverse
    return .supplied { mark with generation := mark.generation + 1 } like

/-- The written form: the kind and its parameters. -/
def text : Transform → String
  | .identity => "IdentityTransform()"
  | .linear p => "LinearTransform(scale=" ++ p.scale.text ++ ", offset=" ++ p.offset.text ++ ")"
  | .constant value inverseValue =>
    "ConstantTransform(value=" ++ value.text ++ ", inverse_value=" ++ inverseValue.text ++ ")"
  | .exponential p =>
    "ExponentialTransform(base=" ++ p.base.text ++ ", scale=" ++ p.scale.text ++ ")"
  | .logarithmic p =>
    "LogarithmicTransform(base=" ++ p.base.text ++ ", offset=" ++ p.offset.text ++ ")"
  | .chain first second =>
    "ConcatenatedTransform(" ++ first.text ++ ", " ++ second.text ++ ")"
  | .legend l => l.text
  | .supplied mark like => mark.name ++ "(" ++ like.text ++ ")"

section Chains

variable {f g : Transform}

/-- A first part that converts nothing is left out. -/
theorem andThen_of_isIdentity (hf : f.isIdentity = true) : f.andThen g = g :=
  if_pos hf

/-- A second part that converts nothing is left out. -/
theorem andThen_of_isIdentity_right (hf : f.isIdentity = false) (hg : g.isIdentity = true) :
    f.andThen g = f := by
  simp [andThen, hf, hg]

/-- Two parts that convert something form a chain. -/
theorem andThen_eq_chain (hf : f.isIdentity = false) (hg : g.isIdentity = false) :
    f.andThen g = .chain f g := by
  simp [andThen, hf, hg]

/-- An identity on the left is left out. -/
theorem identity_andThen (t : Transform) : identity.andThen t = t :=
  andThen_of_isIdentity rfl

end Chains

end Transform

end RasterCategories
