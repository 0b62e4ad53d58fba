import RasterCategories.Interval.Samples
import RasterCategories.Transform.Behaviour
/-!
# Declaration of categories

A qualitative category converts all its samples to one NaN, which carries an ordinal. A quantitative one
converts an interval of samples by a transform, or nothing at all; the interval of its real values is
found by converting the two bounds.

* `Category.qualitative` and `Category.quantitative`: the two declarations.
* `Category.asPlain`: a converted category taken as one that converts nothing.
* `Binary64.checkedOfOrdinal`, `Binary64.checkedOrdinal` and `Binary32.checkedOrdinal`: ordinals with the
  causes of failure.
-/

namespace RasterCategories

namespace Binary64

/-- The NaN of an ordinal that fits into the payload. -/
def checkedOfOrdinal (ordinal : Int) : Except Error Binary64 :=
  if 0 ≤ ordinal ∧ ordinal ≤ maxOrdinal then .ok (ofOrdinal ordinal.toNat)
  else .error (.ordinalRange ordinal)

/-- The ordinal of a NaN that was made from one. -/
def checkedOrdinal (x : Binary64) : Except Error Nat :=
  if x.isNaN then
    match x.ordinal? with
    | some ordinal => .ok ordinal
    | none => .error (.noOrdinal x.narrow)
  else .error (.notNaN x)

end Binary64

/-- The ordinal of a narrow NaN that was made from one. -/
def Binary32.checkedOrdinal (x : Binary32) : Except Error Nat :=
  if x.isNaN then x.widen.checkedOrdinal else .error (.narrowNotNaN x)

namespace Side

/-- The side over an interval, which must hold a number. -/
def ofInterval (name : String) (r : Interval) : Except Error Side :=
  if r.isEmpty then .error (.illegalInterval r.low r.high)
  else .ok ⟨name, r.least, r.greatest, some r, none, false⟩

/-- The side of the declared samples: keyed by a NaN, or over an interval. -/
def ofSamples (name : String) (samples : Samples) : Except Error Side :=
  match samples.key? with
  | some nan => .ok ⟨name, nan, nan, none, none, false⟩
  | none => samples.toInterval.bind (ofInterval name)

/-- The side computed from another one: over the interval between two numbers, or keyed by a NaN. -/
def ofImages (name : String) (low high : Binary64) (units : Option String) : Side :=
  let interval := if low.isNaN then none else Interval.ofBounds? low high true true
  ⟨name, low, high, interval, units, true⟩

end Side

namespace Category

/-- A category that converts nothing. -/
def plain (origin : Origin) (side : Side) : Category Transform :=
  ⟨origin, side, none, .identity, .identity⟩

/-- A category whose samples are converted to the NaN of an ordinal. That NaN is converted back to the
least sample. -/
def qualitative (origin : Origin) (name : String) (samples : Samples) (ordinal : Int) :
    Except Error (Category Transform) := do
  let side ← Side.ofSamples name samples
  let nan ← Binary64.checkedOfOrdinal ordinal
  return ⟨origin, side, some (Side.ofImages name nan nan none), .constant nan side.low,
    .constant side.low nan⟩

/-- A category whose samples are converted by a transform that is no identity. The images of the two
bounds, the smaller first, are the bounds of the real values. -/
def convertedBy (origin : Origin) (side : Side) (transform : Transform) (units : Option String) :
    Except Error (Category Transform) := do
  if side.interval.isNone then throw (.keyedByNaN side.name)
  let first ← (transform.apply side.low).fresh
  let last ← (transform.apply side.high).fresh
  let (low, high) := if last < first then (last, first) else (first, last)
  if low.isNaN || high.isNaN then throw (.illegalInterval low high)
  let back ← transform.inverse
  return ⟨origin, side, some (Side.ofImages side.name low high units), transform, back⟩

/-- A category of measurements. Without a transform, or with one that converts nothing, its samples are
the real values. -/
def quantitative (origin : Origin) (name : String) (samples : Samples)
    (transform : Option Transform) (units : Option String) : Except Error (Category Transform) := do
  let side ← Side.ofSamples name samples
  match transform.filter fun t => !t.isIdentity with
  | none => return plain origin { side with units := units }
  | some t => convertedBy origin side t units

/-- A converted category taken as a plain one over its own values, so that conversions are never
composed. That is another category, with an origin of its own. Other categories stay as they are. -/
def asPlain (origin : Origin) (c : Category Transform) : Category Transform :=
  if c.here.converted then plain origin { c.here with converted := false } else c

/-- What is reported when a converted category is taken as a plain one. -/
def plainReport? (c : Category Transform) : Option String :=
  if c.here.converted then
    some ("Category " ++ Text.quote c.here.name
      ++ " was already converted; using its real values as samples")
  else none

/-- A category that is not converted is already plain. -/
theorem asPlain_of_not_converted {origin : Origin} {c : Category Transform}
    (h : c.here.converted = false) : c.asPlain origin = c := by
  simp [asPlain, h]

end Category

end RasterCategories
