import RasterCategories.Decimal.Reading
import RasterCategories.Raster.Store
/-!
# Columns of a table

A column holds stored values of one type, or values of mixed kinds. All are read as numbers of full width;
values of mixed kinds are read one by one and the first that is no number is an error.

* `ColumnData.toElements`: the values as numbers.
* `Frame`: columns side by side over one index; `Frame.ofColumns` keeps one column of each name.
-/

namespace RasterCategories

/-- A value in a column of mixed kinds. -/
inductive Datum
  /-- No value. -/
  | missing
  /-- A truth value. -/
  | logical (b : Bool)
  /-- An integer. -/
  | integer (n : Int)
  /-- A number. -/
  | real (x : Binary64)
  /-- A text. -/
  | text (s : String)
deriving DecidableEq

/-- A value read as a number; a missing one reads as NaN. -/
def Datum.toNumber : Datum → Except Error Binary64
  | missing => .ok .nan
  | logical b => .ok (.ofInt (logicalNumber b))
  | integer n =>
    let x := Binary64.ofInt n
    if x.isInfinite then .error .integerOverflow else .ok x
  | real x => .ok x
  | text s =>
    match Binary64.ofText? s with
    | some x => .ok x
    | none => .error (.notNumeric s)

/-- The values of a column. -/
inductive ColumnData
  /-- Values of one type. -/
  | stored (store : Store)
  /-- Values of mixed kinds. -/
  | mixed (values : List Datum)
deriving DecidableEq

namespace ColumnData

/-- A column of numbers whose type is not given. Without a value nothing shows that they are numbers. -/
def ofUntyped : List Binary64 → ColumnData
  | [] => mixed []
  | xs => stored (.real (.double xs))

/-- Whether the values are numbers by their type, which truth values are not. -/
def isNumeric : ColumnData → Bool
  | stored (.real _) | stored (.integer _ _) => true
  | stored (.logical _) | mixed _ => false

/-- The values as elements that can be converted. -/
def toElements : ColumnData → Except Error Elements
  | stored store => .ok store.toElements
  | mixed values => do
    let xs ← values.mapM Datum.toNumber
    return .real (.double xs)

end ColumnData

/-- A named column. -/
structure Column where
  /-- The name. -/
  name : String
  /-- The values. -/
  data : ColumnData
deriving DecidableEq

/-- Columns over a common index, whose labels are of any type. -/
structure Frame (ι : Type) where
  /-- The label of each row. -/
  index : List ι
  /-- The columns, from left to right. -/
  columns : List Column

namespace Frame

variable {ι : Type}

/-- The columns with one more at the end, or in the place of the column of its name. -/
def putColumn (columns : List Column) (c : Column) : List Column :=
  if columns.any fun d => d.name == c.name then
    columns.map fun d => if d.name == c.name then c else d
  else columns ++ [c]

/-- The frame of the given columns, of which the last of a name counts. -/
def ofColumns (index : List ι) (columns : List Column) : Frame ι :=
  ⟨index, columns.foldl putColumn []⟩

end Frame

end RasterCategories
