import RasterCategories.Binary64.Arithmetic
import RasterCategories.Binary64.Search
import RasterCategories.Category.Side
/-!
# Search tables

A search table holds the sides of a legend, sorted by their least values. It answers which side owns a
value, without regard to how the value is then converted.

* `SearchTable.owner?`: the position of the owner, found by binary search and a look at the neighbours.
* `SearchTable.nearest?`: the side that takes a value which lies in no interval.
-/

namespace RasterCategories

/-- The position of the last element that passes a test. -/
def lastPosition? {α : Type u} (test : α → Bool) (as : List α) : Option Nat :=
  (as.reverse.findIdx? test).map fun i => as.length - 1 - i

/-- The sides of a legend, and whether values outside every interval have an owner. -/
structure SearchTable where
  /-- The token of the legend. -/
  token : Nat
  /-- The sides, sorted by their least values; those keyed by NaNs are last. -/
  sides : List Side
  /-- Whether a number that lies in no interval is given to a nearby side. -/
  extrapolates : Bool
deriving DecidableEq

namespace SearchTable

/-- The least values of the sides. -/
def lows (t : SearchTable) : List Binary64 := t.sides.map Side.low

/-- The position of the side that takes numbers above every interval: the last side that is an interval,
if the table extrapolates. -/
def top? (t : SearchTable) : Option Nat :=
  if t.extrapolates then lastPosition? (fun s => !s.high.isNaN) t.sides else none

/-- The side before an insertion point. -/
def before? (t : SearchTable) (insertion : Nat) : Option Side :=
  if insertion = 0 then none else t.sides[insertion - 1]?

/-- The position given to a number that lies in no interval. Between two sides the closer one takes it,
the lower one on ties and next to a NaN; below every interval it is the first side. -/
def nearest? (t : SearchTable) (x : Binary64) (insertion : Nat) : Option Nat :=
  match t.top? with
  | none => none
  | some top =>
    match t.before? insertion, t.sides[insertion]? with
    | some below, some above =>
      if above.low - x < x - below.high then some insertion else some (insertion - 1)
    | some _, none => some top
    | none, some first => if first.low.isNaN then none else some 0
    | none, none => none

/-- The owner of a number whose bits are those of no least value, given where it would be inserted: the
side before it if the number is not above its greatest value, else the side after it if the number is
numerically its least value. -/
def ownerNear? (t : SearchTable) (x : Binary64) (insertion : Nat) : Option Nat :=
  if (t.before? insertion).any fun s => x ≤ s.high then some (insertion - 1)
  else if (t.sides[insertion]?).any fun s => x.EqualTo s.low then some insertion
  else t.nearest? x insertion

/-- The position of the side that owns a value. A NaN is owned only by the side with the same bits. -/
def owner? (t : SearchTable) (x : Binary64) : Option Nat :=
  match Binary64.binarySearch t.lows x with
  | .found i => some i
  | .absent insertion => if x.isNaN then none else t.ownerNear? x insertion

end SearchTable

end RasterCategories
