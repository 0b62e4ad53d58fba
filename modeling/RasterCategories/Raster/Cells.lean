import RasterCategories.Binary32
import RasterCategories.Binary64.Arithmetic
/-!
# Cells of a raster

A raster stores numbers at one of two widths. Cells are read at full width, and written with rounding
where the store is narrower.

* `Cells.slice` and `Cells.store`: reading and writing a window.
* `Cells.clip`: confining cells to an interval.
* `Elements`: what can be read as numbers, integers of any size included.
-/

namespace RasterCategories

/-- Confines a number to an interval; a NaN and a number inside keep their bits. -/
def Binary64.confine (low high x : Binary64) : Binary64 :=
  if x < low then low else if high < x then high else x

/-- The width of stored numbers. -/
inductive Width
  /-- 32 bits. -/
  | single
  /-- 64 bits. -/
  | double
deriving DecidableEq

/-- Stored numbers, all of one width. -/
inductive Cells
  /-- Numbers of 32 bits. -/
  | single (numbers : List Binary32)
  /-- Numbers of 64 bits. -/
  | double (numbers : List Binary64)
deriving DecidableEq

namespace Cells

/-- The width at which the cells are stored. -/
def width : Cells → Width
  | single _ => .single
  | double _ => .double

/-- The number of cells. -/
def size : Cells → Nat
  | single xs => xs.length
  | double xs => xs.length

/-- The cells at full width. -/
def toDoubles : Cells → List Binary64
  | single xs => xs.map Binary32.widen
  | double xs => xs

/-- The cells at half width. -/
def toSingles : Cells → List Binary32
  | single xs => xs
  | double xs => xs.map Binary64.narrow

/-- Cells that hold zero. -/
def zeros (width : Width) (size : Nat) : Cells :=
  match width with
  | .single => single (List.replicate size (.ofPattern 0))
  | .double => double (List.replicate size .zero)

/-- The cells from a position on, at most as many as asked for. -/
def slice (start count : Nat) : Cells → Cells
  | single xs => single ((xs.drop start).take count)
  | double xs => double ((xs.drop start).take count)

/-- A list with some elements replaced from a position on. -/
def replaceFrom {α : Type u} (start : Nat) (new old : List α) : List α :=
  old.take start ++ new ++ old.drop (start + new.length)

/-- Writes cells from a position on, at the width of the store. -/
def store (memory : Cells) (start : Nat) (values : Cells) : Cells :=
  match memory with
  | single xs => single (replaceFrom start values.toSingles xs)
  | double xs => double (replaceFrom start values.toDoubles xs)

/-- Confines cells to an interval whose bounds are rounded to the width of the cells. -/
def clip (low high : Binary64) : Cells → Cells
  | single xs =>
    let low := low.narrow
    let high := high.narrow
    single (xs.map fun x => if x < low then low else if high < x then high else x)
  | double xs => double (xs.map (Binary64.confine low high))

end Cells

/-- Values that can be read as numbers. -/
inductive Elements
  /-- Stored numbers. -/
  | real (cells : Cells)
  /-- Integers, which are rounded to the nearest number when they are read. -/
  | integer (values : List Int)
deriving DecidableEq

namespace Elements

/-- The number of values. -/
def size : Elements → Nat
  | real cells => cells.size
  | integer ns => ns.length

/-- The values as numbers of full width. -/
def toDoubles : Elements → List Binary64
  | real cells => cells.toDoubles
  | integer ns => ns.map Binary64.ofInt

end Elements

end RasterCategories
