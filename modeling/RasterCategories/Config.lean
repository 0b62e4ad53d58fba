import RasterCategories.Error
import RasterCategories.Raster.Cells
/-!
# Settings of a legend

A legend and its converse share their settings.
-/

namespace RasterCategories

/-- The width with the given name. -/
def Width.ofName (name : String) : Except Error Width :=
  if name = "float32" then .ok .single
  else if name = "float64" then .ok .double
  else .error (.unknownWidth name)

/-- The settings shared by a legend and its converse. -/
structure Config where
  /-- Whether a batch first tries the last owner for all its values. -/
  tryLastFirst : Bool := true
  /-- The width of arrays that a conversion allocates. -/
  outputWidth : Width := .double
  /-- Whether each conversion of a single value is checked to lead back to its category. -/
  verifyReturn : Bool := false
  /-- Whether taking a converted category as a plain one is reported. -/
  reportPlain : Bool := true
deriving DecidableEq

/-- The settings used if none are given. -/
def Config.default : Config := {}

end RasterCategories
