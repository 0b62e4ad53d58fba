import RasterCategories.Category.Side
/-!
# Errors

Every way in which declaring, building or converting can fail is one constructor, which carries what
a caller needs to react. The wording is in `Error.message` alone.
-/

namespace RasterCategories

/-- The argument of a point conversion. -/
inductive PointArgument
  /-- The point to convert. -/
  | point
  /-- The array that receives the result. -/
  | destination
deriving DecidableEq

/-- The causes of failure. -/
inductive Error
  /-- Two neighbouring sides overlap. -/
  | overlap (first second : Side)
  /-- The bounds of an interval are out of order or not numbers, or no number lies between them. -/
  | illegalInterval (low high : Binary64)
  /-- No category owns the value. -/
  | noCategory (value : Binary64)
  /-- A point or its destination does not have the expected number of coordinates. -/
  | dimension (argument : PointArgument) (expected actual : Nat)
  /-- The ordinal does not fit into a NaN payload. -/
  | ordinalRange (ordinal : Int)
  /-- The number has no payload. -/
  | notNaN (value : Binary64)
  /-- The narrow number has no payload. -/
  | narrowNotNaN (value : Binary32)
  /-- The NaN was not made from an ordinal. -/
  | noOrdinal (bits : Binary32)
  /-- The scale of a linear transform is zero, infinite or NaN. -/
  | linearScale (scale : Binary64)
  /-- The offset of a linear transform is infinite or NaN. -/
  | linearOffset (offset : Binary64)
  /-- The base of an exponential is not usable. -/
  | exponentialBase (base : Binary64)
  /-- The scale of an exponential is not positive and finite. -/
  | exponentialScale (scale : Binary64)
  /-- The base of a logarithm is not usable. -/
  | logarithmBase (base : Binary64)
  /-- The offset of a logarithm is infinite or NaN. -/
  | logarithmOffset (offset : Binary64)
  /-- A power overflows. -/
  | powerOverflow
  /-- Samples given by bounds are not two numbers. -/
  | samplesPair (bounds : List Binary64)
  /-- A category keyed by a NaN was given a transform. -/
  | keyedByNaN (name : String)
  /-- A conversion does not lead back to its own category. -/
  | notReversible (value result : Binary64) (side : Side)
  /-- The width of converted values has an unknown name. -/
  | unknownWidth (name : String)
  /-- The source window does not fit the source. -/
  | sourceRange (start stop : Int) (size : Nat)
  /-- The destination window does not fit the destination. -/
  | destinationRange (start stop : Int) (size : Nat)
  /-- An array of negative size was asked for. -/
  | negativeSize
  /-- The destination does not store numbers of either width. -/
  | destinationType
  /-- The destination is not stored without gaps. -/
  | destinationLayout
  /-- A frame has no numeric column to convert. -/
  | noNumericColumn
  /-- A frame has no column of this name. -/
  | unknownColumn (name : String)
  /-- A text in a column does not read as a number. -/
  | notNumeric (text : String)
  /-- An integer in a column is beyond the largest number. -/
  | integerOverflow
  /-- A NaN can not be stored as an integer. -/
  | integerOfNaN
  /-- An infinity can not be stored as an integer. -/
  | integerOfInfinity
  /-- An integer is not in the range of those that a type takes. -/
  | integerRange
  /-- A number of cells does not fill the given extents. -/
  | extents (size : Nat) (given : List Int)
  /-- More than one extent was left open. -/
  | openExtents
  /-- A position is outside a list. -/
  | position
  /-- An array without dimensions has no first cell. -/
  | noFirstCell
  /-- A slice does not advance. -/
  | zeroStep
  /-- A category is not in a list. -/
  | absent
deriving DecidableEq

namespace Error

/-- The bounds of a tuple in brackets, with a final comma after a single one. -/
def boundsText (bounds : List Binary64) : String :=
  match bounds with
  | [x] => "(" ++ x.text ++ ",)"
  | xs => "(" ++ ", ".intercalate (xs.map Binary64.text) ++ ")"

/-- A half-open interval of positions and the size that it does not fit. -/
def windowText (start stop : Int) (size : Nat) : String :=
  "[" ++ toString start ++ ", " ++ toString stop ++ ") out of bounds for " ++ toString size
    ++ " values"

/-- Extents in brackets. An open one is named, but not shown if all before it are open too. -/
def extentsText (given : List Int) : String :=
  match given.dropWhile (· < 0) with
  | [] => "()"
  | shown =>
    let texts := shown.map fun n => if n < 0 then "newaxis" else toString n
    "(" ++ ",".intercalate texts ++ (if given.length = 1 then ",)" else ")")

/-- The name of an argument in messages. -/
def argumentText : PointArgument → String
  | .point => "point"
  | .destination => "dst"

/-- The wording of an error. -/
def message : Error → String
  | overlap a b =>
    "Category \"" ++ a.name ++ "\" with range " ++ a.label ++ " overlaps category \"" ++ b.name
      ++ "\" with range " ++ b.label ++ "."
  | illegalInterval low high =>
    "Illegal range [" ++ low.text ++ " … " ++ high.text ++ "] for a category."
  | noCategory value => "No category for value " ++ value.text ++ "."
  | dimension argument expected actual =>
    "Argument '" ++ argumentText argument ++ "' has " ++ toString actual
      ++ " dimensions, while " ++ toString expected ++ " was expected."
  | ordinalRange ordinal =>
    "NaN ordinal " ++ toString ordinal ++ " out of range [0, " ++ toString maxOrdinal ++ "]"
  | notNaN value => "Not a NaN value: " ++ value.text
  | narrowNotNaN value => "Not a NaN value: np.float32(" ++ value.text ++ ")"
  | noOrdinal bits =>
    "NaN bit pattern 0x" ++ (String.ofList (Text.hexDigits 8 bits.pattern)).toUpper
      ++ " does not encode an ordinal"
  | linearScale scale =>
    "Linear transform scale must be finite and non-zero, got " ++ scale.text
  | linearOffset offset => "Linear transform offset must be finite, got " ++ offset.text
  | exponentialBase base =>
    "Exponential base must be positive and different from 1, got " ++ base.text
  | exponentialScale scale =>
    "Exponential scale must be positive and finite, got " ++ scale.text
  | logarithmBase base =>
    "Logarithm base must be positive and different from 1, got " ++ base.text
  | logarithmOffset offset => "Logarithm offset must be finite, got " ++ offset.text
  | powerOverflow => "Numerical result out of range"
  | samplesPair bounds => "Expected a (minimum, maximum) pair, got " ++ boundsText bounds
  | keyedByNaN name =>
    "Category " ++ Text.quote name ++ " is keyed by NaN and can not be converted"
  | notReversible value result side =>
    "Value " ++ value.text ++ " converted to " ++ result.text ++ " by " ++ side.describe
      ++ " does not convert back"
  | unknownWidth name =>
    "Unknown output dtype: " ++ Text.quote name ++ ". Choose from ['float32', 'float64']"
  | sourceRange start stop size => "Source range " ++ windowText start stop size
  | destinationRange start stop size => "Destination range " ++ windowText start stop size
  | negativeSize => "negative dimensions are not allowed"
  | destinationType => "Destination must be a float32 or float64 numpy array"
  | destinationLayout => "Destination array must be C-contiguous"
  | noNumericColumn => "No numeric columns found in DataFrame"
  | unknownColumn name => Text.quote name
  | notNumeric text => "could not convert string to float: " ++ Text.quote text
  | integerOverflow => "int too large to convert to float"
  | integerOfNaN => "cannot convert float NaN to integer"
  | integerOfInfinity => "cannot convert float infinity to integer"
  | integerRange => "integer out of bounds"
  | extents size given =>
    "cannot reshape array of size " ++ toString size ++ " into shape " ++ extentsText given
  | openExtents => "can only specify one unknown dimension"
  | position => "index out of range"
  | noFirstCell => "too many indices for array"
  | zeroStep => "slice step cannot be zero"
  | absent => ""

end Error

/-! ### Computations that may fail -/

section Results

variable {α β γ : Type}

/-- What succeeds in two steps succeeds in each of them. -/
theorem exists_of_bind_eq_ok {e : Except Error α} {f : α → Except Error β} {b : β}
    (h : (e >>= f) = .ok b) : ∃ a, e = .ok a ∧ f a = .ok b := by
  cases e with
  | error x => cases h
  | ok a => exact ⟨a, rfl, h⟩

/-- What fails in two steps fails in one of them. -/
theorem of_bind_eq_error {e : Except Error α} {f : α → Except Error β} {x : Error}
    (h : (e >>= f) = .error x) : e = .error x ∨ ∃ a, e = .ok a ∧ f a = .error x := by
  cases e with
  | error y => exact Or.inl (congrArg Except.error (Except.error.inj h))
  | ok a => exact Or.inr ⟨a, rfl, h⟩

theorem isOk_of_bind {e : Except Error α} {f : α → Except Error β} {a : α}
    (h : (e >>= f).isOk = true) (he : e = .ok a) : (f a).isOk = true := by
  rw [he] at h
  exact h

theorem exists_of_isOk {e : Except Error α} (h : e.isOk = true) : ∃ a, e = .ok a := by
  cases e with
  | error x => cases h
  | ok a => exact ⟨a, rfl⟩

/-- A computation whose result is used succeeds as the computation does. -/
theorem exists_map_iff {a : Except Error α} {k : α → β} :
    (∃ y, a.map k = .ok y) ↔ ∃ x, a = .ok x := by
  cases a with
  | error e => exact iff_of_false nofun nofun
  | ok x => exact iff_of_true ⟨k x, rfl⟩ ⟨x, rfl⟩

theorem eq_of_map_eq_ok {a : Except Error α} {k : α → β} {y : β} (h : a.map k = .ok y) :
    ∃ x, k x = y := by
  cases a with
  | error e => cases h
  | ok x => exact ⟨x, Except.ok.inj h⟩

/-- Two computations whose results are used succeed if both do. -/
theorem exists_bind_iff {a : Except Error α} {b : Except Error β} {k : α → β → γ} :
    (∃ z, (do let x ← a; let y ← b; return k x y) = .ok z) ↔ (∃ x, a = .ok x) ∧ ∃ y, b = .ok y := by
  cases a with
  | error e => exact iff_of_false nofun fun h => nomatch h.1
  | ok x => exact exists_map_iff.trans (and_iff_right ⟨x, rfl⟩).symm

end Results

end RasterCategories
