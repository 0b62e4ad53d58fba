import RasterCategories.Raster.Store
/-!
# Rasters

A raster is a block of cells with an extent in each of its dimensions. Its rows are the blocks of cells at
the positions of the first dimension, and follow each other.

* `Raster.extents`: the extents that a number of cells fills.
* `Raster.rowSize`: the number of cells in a row.
-/

namespace RasterCategories

/-- Cells, stored in some way, with the extents of their dimensions. -/
structure Raster (α : Type) where
  /-- The extent of each dimension, the slowest first. -/
  shape : List Nat
  /-- The cells, the last dimension varying fastest. -/
  cells : α
deriving DecidableEq

namespace Raster

/-- The number of cells of a raster with the given extents. -/
def volume (shape : List Nat) : Nat := shape.foldl (· * ·) 1

/-- The number of cells in each row of a raster with the given extents. -/
def rowSize (shape : List Nat) : Nat := volume shape.tail

/-- The extents that a number of cells fills. One of them may be left open by a negative number and is what
the others leave. -/
def extents (size : Nat) (given : List Int) : Except Error (List Nat) :=
  let known := volume ((given.filter (0 ≤ ·)).map Int.toNat)
  match (given.filter (· < 0)).length with
  | 0 => if known = size then .ok (given.map Int.toNat) else .error (.extents size given)
  | 1 =>
    if known ≠ 0 ∧ size % known = 0 then
      .ok (given.map fun n => if n < 0 then size / known else n.toNat)
    else .error (.extents size given)
  | _ => .error .openExtents

end Raster

end RasterCategories
