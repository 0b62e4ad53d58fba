import RasterCategories.Legend.Basic
import RasterCategories.Search.Runs
/-!
# What a transform does

The behaviour of a transform is how it converts one value, how it converts the values of an array all at
once, and its derivative. Only the conversions by legends fail or use the hints.

* `Behaviour.ofFunction`: the behaviour of a function of one variable.
* `Behaviour.andThen`: one behaviour after another.
* `Behaviour.elementwise`: arrays converted value by value.
-/

namespace RasterCategories

/-- The observable behaviour of a transform. -/
structure Behaviour where
  /-- Converts one value. -/
  apply : Binary64 → Eval Binary64
  /-- Converts the values of an array. -/
  applyAll : List Binary64 → Eval Cells
  /-- The derivative at a value. -/
  derivative : Binary64 → Eval Binary64

namespace Behaviour

/-- The behaviour of a function with its derivative, which never fails. -/
def ofFunction (f derivative : Binary64 → Binary64) : Behaviour where
  apply x := pure (f x)
  applyAll xs := pure (.double (xs.map f))
  derivative x := pure (derivative x)

/-- One behaviour after another. The derivative follows the chain rule. -/
def andThen (first second : Behaviour) : Behaviour where
  apply x := do
    let y ← first.apply x
    second.apply y
  applyAll xs := do
    let ys ← first.applyAll xs
    second.applyAll ys.toDoubles
  derivative x := do
    let y ← first.apply x
    let outer ← second.derivative y
    let inner ← first.derivative x
    return outer * inner

/-- The same behaviour, with arrays converted value by value. -/
def elementwise (b : Behaviour) : Behaviour where
  apply := b.apply
  applyAll xs := do
    let ys ← xs.mapM b.apply
    return .double ys
  derivative := b.derivative

end Behaviour

end RasterCategories
