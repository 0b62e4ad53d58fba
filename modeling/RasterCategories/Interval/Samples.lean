import RasterCategories.Error
/-!
# Declared samples

The samples of a category are declared as one number, as a pair of bounds that both belong to the
samples, or as an interval.

* `Samples.toInterval`: the declared interval.
* `Samples.key?`: the NaN that keys a category.
-/

namespace RasterCategories

/-- A declaration of samples. -/
inductive Samples
  /-- A single number, or the NaN that keys a category. -/
  | number (x : Binary64)
  /-- Included bounds, of which there should be two. -/
  | bounds (xs : List Binary64)
  /-- An interval. -/
  | interval (r : Interval)
deriving DecidableEq

/-- The NaN that keys a category, if the samples are one. -/
def Samples.key? : Samples → Option Binary64
  | .number x => if x.isNaN then some x else none
  | .bounds _ | .interval _ => none

/-- The interval with the given bounds; bounds out of order or not numbers are an error. -/
def Interval.of (low high : Binary64) (lowClosed highClosed : Bool) :
    Except Error Interval :=
  match Interval.ofBounds? low high lowClosed highClosed with
  | some r => .ok r
  | none => .error (.illegalInterval low high)

/-- The declared interval. -/
def Samples.toInterval : Samples → Except Error Interval
  | .number x => Interval.of x x true true
  | .bounds [low, high] => Interval.of low high true true
  | .bounds xs => .error (.samplesPair xs)
  | .interval r => .ok r

end RasterCategories
