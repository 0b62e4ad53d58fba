import RasterCategories.Column.Basic
import RasterCategories.Legend.Conversion
/-!
# Conversion of columns and frames

A column is converted as one batch. In a frame the selected columns are converted one after the other,
each from its values in the given frame, and the others are kept.

A frame is an object that can be changed. Where it matters that the given frame is not, frames are kept in a memory,
and the conversion reads one of them and changes a copy.

* `ColumnData.convert` and `ColumnData.categoryNames`.
* `Frame.convert`: the selected columns, or all that are numeric by their type.
* `Frames.convert`: the same conversion of a frame in memory.
-/

namespace RasterCategories

namespace ColumnData

/-- Converts the values of a column by a legend. -/
def convert (c : ColumnData) (l : Legend Transform) : Eval ColumnData := do
  let elements ← c.toElements
  let cells ← l.convertNew elements .whole
  return .stored (.real cells)

/-- The name of the category at a position, absent for minus one. -/
def nameAt (l : Legend Transform) (position : Int) : Option String :=
  if position < 0 then none
  else (l.categories[position.toNat]?).map fun category => category.here.name

/-- The name of the category of each value, absent where no category fits. -/
def categoryNames (c : ColumnData) (l : Legend Transform) : Except Error (List (Option String)) := do
  let elements ← c.toElements
  return (l.owners elements.toDoubles).map (nameAt l)

end ColumnData

namespace Frame

variable {ι : Type}

/-- The names of the columns that are numeric by their type. -/
def numericNames (f : Frame ι) : List String :=
  (f.columns.filter fun c => c.data.isNumeric).map Column.name

/-- The column with a name. -/
def column (f : Frame ι) (name : String) : Except Error Column :=
  match f.columns.find? fun c => c.name == name with
  | some c => .ok c
  | none => .error (.unknownColumn name)

/-- The frame with other values in the column of a name. -/
def setColumn (f : Frame ι) (name : String) (data : ColumnData) : Frame ι :=
  { f with columns := f.columns.map fun c => if c.name == name then { c with data := data } else c }

/-- Converts the column of a name. -/
def convertColumn (f : Frame ι) (l : Legend Transform) (name : String) : Eval ColumnData := do
  let c ← f.column name
  c.data.convert l

/-- Converts the named columns of the source, each put in its place in the result so far. -/
def convertNamed (source : Frame ι) (l : Legend Transform) :
    List String → Frame ι → Eval (Frame ι)
  | [], result => return result
  | name :: names, result => do
    let data ← source.convertColumn l name
    convertNamed source l names (result.setColumn name data)

/-- Converts the selected columns, or all that are numeric by their type. Selecting none is an error. -/
def convert (f : Frame ι) (l : Legend Transform) (selected : Option (List String)) :
    Eval (Frame ι) :=
  match selected.getD f.numericNames with
  | [] => throw .noNumericColumn
  | names => f.convertNamed l names f

end Frame

/-! ### Frames in memory -/

/-- Frames in memory, each at its place. -/
abbrev Frames (ι : Type) (n : Nat) : Type := Fin n → Frame ι

namespace Frames

variable {ι : Type} {n : Nat}

/-- The frames and, in a new last place, a copy of the frame at a place. -/
def copy (memory : Frames ι n) (place : Fin n) : Frames ι (n + 1) := fun other =>
  if h : other.val < n then memory ⟨other.val, h⟩ else memory place

/-- Puts other values in the column of a name of the frame at a place. -/
def assign (memory : Frames ι n) (place : Fin n) (name : String) (data : ColumnData) : Frames ι n := fun other =>
  if other = place then (memory place).setColumn name data else memory other

/-- Converts the named columns of the frame at one place, each as it is when its turn comes, and puts each in its
place in the frame at another place. The columns put there before one fails stay there. -/
def convertNamed (source target : Fin n) (l : Legend Transform) :
    List String → Frames ι n → StateM Hints (Except Error Unit × Frames ι n)
  | [], memory => return (.ok (), memory)
  | name :: names, memory => do
    match ← ((memory source).convertColumn l name).run with
    | .error e => return (.error e, memory)
    | .ok data => convertNamed source target l names (memory.assign target name data)

/-- Converts the selected columns of the frame at a place, or all that are numeric by their type, in a copy of the
frame, and gives the place of the copy. Selecting none is an error, and nothing is copied. -/
def convert (memory : Frames ι n) (place : Fin n) (l : Legend Transform) (selected : Option (List String)) :
    StateM Hints (Σ m, Except Error (Fin m) × Frames ι m) :=
  match selected.getD (memory place).numericNames with
  | [] => return ⟨n, .error .noNumericColumn, memory⟩
  | names => do
    let (outcome, memory) ← convertNamed place.castSucc (Fin.last n) l names (memory.copy place)
    return ⟨n + 1, outcome.map fun _ => Fin.last n, memory⟩

end Frames

end RasterCategories
