import RasterCategories.Evaluation.Behaviour
/-!
# Conversion of one value by a legend

The owner of a value converts it. In a legend of real values the result is confined to the interval of
the samples, which matters for values outside every interval and for results that were rounded.

* `Legend.evaluate`: the conversion.
* `Legend.evaluateSlope`: its derivative.
-/

namespace RasterCategories

/-- The number of an interval that is nearest to a value; bounds that are NaN confine nothing. -/
def Side.confine (s : Side) (x : Binary64) : Binary64 := Binary64.confine s.low s.high x

namespace Legend

/-- The category that owns a value; the last owner is tried first. -/
def ownerOf (l : Legend Behaviour) (x : Binary64) : Eval (Category Behaviour) := do
  let position ← l.table.resolve x
  match l.categories[position]? with
  | some category => return category
  | none => throw (.noCategory x)

/-- Whether the converse legend leads a result back to the category that made it. Any entry of the
converse legend that is the same category will do. -/
def leadsBack {τ : Type} (l : Legend τ) (category : Category τ) (result : Binary64) : Bool :=
  (l.converse.categoryOf? result).any fun found => found.origin == category.origin

/-- Converts one value to the other domain. -/
def evaluate (l : Legend Behaviour) (x : Binary64) : Eval Binary64 := do
  let category ← l.ownerOf x
  let converted ← category.forward.apply x
  let result :=
    if l.table.top?.isSome then category.converseSide.confine converted else converted
  if l.config.verifyReturn && l.isPaired && !l.leadsBack category result then
    throw (.notReversible x result category.here)
  return result

/-- The derivative of the conversion at a value. -/
def evaluateSlope (l : Legend Behaviour) (x : Binary64) : Eval Binary64 := do
  let category ← l.ownerOf x
  category.forward.derivative x

end Legend

end RasterCategories
