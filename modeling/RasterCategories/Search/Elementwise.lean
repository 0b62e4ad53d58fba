import RasterCategories.Search.Table
/-!
# Owners of the values of an array

The owners of many values are found without branching from probe to probe: the value is ranked among the
keys of all least values at once, the neighbours are read at clamped positions, and later rules
overwrite the answers of earlier ones. The position minus one stands for no owner.

* `SearchTable.locate`: the position of the owner of one element.
* `SearchTable.locateAll`: the positions for a whole array.
-/

namespace RasterCategories.SearchTable

/-- The number of sides that are intervals, which come first. -/
def intervalCount (t : SearchTable) : Nat := t.lows.countP fun low => !low.isNaN

/-- The signed keys of the least values of the intervals. -/
def intervalKeys (t : SearchTable) : List Int :=
  (t.lows.take t.intervalCount).map fun low => low.orderKey.toInt

/-- The signed bit patterns of the NaNs that key the other sides. -/
def nanKeys (t : SearchTable) : List Int :=
  (t.lows.drop t.intervalCount).map Binary64.signedBits

/-- The least value at a position, or a NaN, which compares with nothing. -/
def lowAt (t : SearchTable) (position : Int) : Binary64 :=
  (t.sides[position.toNat]?).elim .nan Side.low

/-- The greatest value at a position, or a NaN, which compares with nothing. -/
def highAt (t : SearchTable) (position : Int) : Binary64 :=
  (t.sides[position.toNat]?).elim .nan Side.high

/-- The position of the owner of a NaN, by its rank among the keys. -/
def locateNaN (t : SearchTable) (x : Binary64) : Int :=
  let keys := t.nanKeys
  let rank := min (keys.countP (· < x.signedBits)) (keys.length - 1)
  if keys[rank]? = some x.signedBits then (t.intervalCount + rank : Nat) else -1

/-- The position of the owner of a number in a table with intervals, by its rank among the keys. -/
def locateNumber (t : SearchTable) (x : Binary64) : Int :=
  let count : Int := t.intervalCount
  let below : Int := (t.intervalKeys.countP (· ≤ x.orderKey.toInt) : Int) - 1
  let previous := max below 0
  let following := below + 1
  let found : Int :=
    if following < count ∧ x.EqualTo (t.lowAt (min following (count - 1))) then following else -1
  let found := if 0 ≤ below ∧ x ≤ t.highAt previous then below else found
  match t.top? with
  | none => found
  | some top =>
    let size : Int := t.sides.length
    let closerNext := t.lowAt (min following (size - 1)) - x < x - t.highAt previous
    let between :=
      if following < size then (if closerNext then following else below) else (top : Int)
    if 0 ≤ found then found else if 0 ≤ below then between else 0

/-- The position of the owner of a value, or minus one. -/
def locate (t : SearchTable) (x : Binary64) : Int :=
  if x.isNaN then t.locateNaN x
  else if t.intervalCount = 0 then -1
  else t.locateNumber x

/-- The positions of the owners of many values. -/
def locateAll (t : SearchTable) (xs : List Binary64) : List Int := xs.map t.locate

end RasterCategories.SearchTable
