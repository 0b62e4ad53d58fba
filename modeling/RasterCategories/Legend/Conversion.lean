import RasterCategories.Legend.Construction
import RasterCategories.Raster.Basic
import RasterCategories.Transform.Equality
/-!
# Conversions by a legend

The conversions of a legend whose categories hold descriptions of transforms. Each first replaces the
descriptions by their behaviour.

* `Legend.convert` and `Legend.derivative`: one value.
* `Legend.convertInto`, `Legend.convertNew` and `Legend.convertRaster`: arrays.
* `Legend.convertPoint` and `Legend.pointDerivative`: points of one coordinate.
* `Legend.standIn`: a transform that stands for the legend.
-/

namespace RasterCategories.Legend

/-- The legend with the behaviours of its transforms. -/
def active (l : Legend Transform) : Legend Behaviour := l.map Transform.behaviour

/-- The position of the category that owns a value. -/
def owner? {τ : Type} (l : Legend τ) (x : Binary64) : Option Nat := l.table.owner? x

/-- The positions of the categories that own the values of an array, minus one for none. -/
def owners {τ : Type} (l : Legend τ) (xs : List Binary64) : List Int := l.table.locateAll xs

/-- Converts one value to the other domain. -/
def convert (l : Legend Transform) (x : Binary64) : Eval Binary64 := l.active.evaluate x

/-- The derivative of the conversion at a value. -/
def derivative (l : Legend Transform) (x : Binary64) : Eval Binary64 := l.active.evaluateSlope x

/-! ### Arrays -/

/-- Converts a window of the source into an array of the caller, and gives the memory of that array
afterwards. -/
def convertInto (l : Legend Transform) (source : Elements) (target : Target) (w : Window) :
    StateM Hints (Except Error Unit × Cells) :=
  l.active.evaluateInto source target w

/-- Converts a window of the source into a new array. -/
def convertNew (l : Legend Transform) (source : Elements) (w : Window) : Eval Cells :=
  l.active.evaluateNew source w

/-- Converts a window of a source of some shape into a new raster. It has the shape of the source if the
whole source is converted, and one dimension otherwise. -/
def convertRaster (l : Legend Transform) (shape : List Nat) (source : Elements) (w : Window) :
    Eval (Raster Cells) := do
  let cells ← l.convertNew source w
  return ⟨if w.IsWhole source.size then shape else [cells.size], cells⟩

/-- The failure of a batch whose destination stores no numbers of either width. -/
def unsuitableTarget (source : Elements) (w : Window) : Error :=
  match w.checkSource source.size with
  | .error e => e
  | .ok _ => .destinationType

/-! ### Points -/

/-- The coordinate of a point that has exactly one. -/
def coordinate (point : List Binary64) : Except Error Binary64 :=
  match point with
  | [x] => .ok x
  | xs => .error (.dimension .point 1 xs.length)

/-- Converts a point of one coordinate. The result is written to the first cell of the target, which must
have one cell, or of a new array. A target of another type than numbers stores what its type has for the
result. -/
def convertPoint (l : Legend Transform) (point : List Binary64) (target : Option (Raster Store)) :
    Eval (Raster Store) := do
  let x ← coordinate point
  let target := target.getD ⟨[1], .real (.zeros .double 1)⟩
  if target.cells.size ≠ 1 then throw (.dimension .destination 1 target.cells.size)
  let y ← l.convert x
  if target.shape.isEmpty then throw .noFirstCell
  let cells ← target.cells.put 0 y
  return { target with cells := cells }

/-- The derivative at a point of one coordinate. -/
def pointDerivative (l : Legend Transform) (point : List Binary64) : Eval Binary64 := do
  let x ← coordinate point
  l.derivative x

/-! ### Transforms -/

/-- The transform that all categories share, if there is one. -/
def sharedTransform? (l : Legend Transform) : Option Transform :=
  match l.categories with
  | [] => none
  | c :: cs => if cs.all fun d => d.forward.same c.forward then some c.forward else none

/-- The transform that all categories share, or else the legend itself. -/
def standIn (l : Legend Transform) : Transform := l.sharedTransform?.getD (.legend l)

/-- What a legend does as a transform is what its conversions do. -/
theorem behaviour_legend_eq (l : Legend Transform) :
    (Transform.legend l).behaviour = l.active.behaviour := Transform.behaviour_legend l

end RasterCategories.Legend
