import RasterCategories.Raster.Cells
import RasterCategories.Raster.Integer
/-!
# Stored values of one type

The values of a raster are numbers of one width, integers of one type, or truth values. All can be read as
numbers, and a number can be stored among them in the form that their type has for it.

* `Store.toElements`: the values as elements that can be converted.
* `Store.put`: one number stored at a position.
-/

namespace RasterCategories

/-- The number zero or one of a truth value. -/
def logicalNumber (b : Bool) : Int := if b then 1 else 0

/-- Stored values, all of one type. -/
inductive Store
  /-- Numbers. -/
  | real (cells : Cells)
  /-- Integers. -/
  | integer (type : IntegerType) (values : List Int)
  /-- Truth values. -/
  | logical (values : List Bool)
deriving DecidableEq

namespace Store

/-- The integers of a type, all of which it must hold. -/
def ofIntegers (t : IntegerType) (ns : List Int) : Except Error Store :=
  if ns.all t.holds then .ok (integer t ns) else .error .integerRange

/-- The number of values. -/
def size : Store → Nat
  | real cells => cells.size
  | integer _ ns => ns.length
  | logical bs => bs.length

/-- The values from a position on, at most as many as asked for. -/
def slice (start count : Nat) : Store → Store
  | real cells => real (cells.slice start count)
  | integer t ns => integer t ((ns.drop start).take count)
  | logical bs => logical ((bs.drop start).take count)

/-- The values as elements that can be converted. -/
def toElements : Store → Elements
  | real cells => .real cells
  | integer _ ns => .integer ns
  | logical bs => .integer (bs.map logicalNumber)

/-- Stores a number at a position: rounded to the width of numbers, cut to an integer, or as whether it
differs from zero. -/
def put (store : Store) (position : Nat) (x : Binary64) : Except Error Store :=
  match store with
  | real cells => .ok (real (cells.store position (.double [x])))
  | integer t ns => do return integer t (ns.set position (← t.ofNumber x))
  | logical bs => .ok (logical (bs.set position (!x.isZero)))

end Store

end RasterCategories
