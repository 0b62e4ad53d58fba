import RasterCategories.NanOrdinal
import RasterCategories.Interval.Basic
import RasterCategories.Text.Quoted
/-!
# One side of a category

A category lives in two domains, samples and real values, and shows one side in each. A side is either
an interval of numbers or a single NaN, told apart from other NaNs by its bits.

* `Side.contains`: membership.
* `Side.label`: the written form of the interval or of the NaN.
-/

namespace RasterCategories

/-- A category as one domain sees it. -/
structure Side where
  /-- The name, the same on both sides. -/
  name : String
  /-- The least value, or the NaN that keys the side. -/
  low : Binary64
  /-- The greatest value, or the NaN that keys the side. -/
  high : Binary64
  /-- The declared interval, absent on a side keyed by a NaN. -/
  interval : Option Interval
  /-- The units of the values, for information only. -/
  units : Option String
  /-- Whether the side was computed from the other one. -/
  converted : Bool
deriving DecidableEq

namespace Side

/-- Whether a value lies between the bounds, or is the NaN that keys the side. -/
def contains (s : Side) (x : Binary64) : Bool :=
  (s.low ≤ x ∧ x ≤ s.high) ∨ x = s.low

/-- The interval, or the ordinal or the bits of the NaN. -/
def label (s : Side) : String :=
  match s.interval with
  | some interval => interval.text
  | none =>
    match s.low.ordinal? with
    | some ordinal => "NaN #" ++ toString ordinal
    | none =>
      "NaN (0x" ++ (String.ofList (Text.hexDigits 16 s.low.pattern)).toUpper ++ ")"

/-- The side with its kind and quoted name. -/
def describe (s : Side) : String :=
  (if s.converted then "ConvertedCategory(" else "Category(")
    ++ Text.quote s.name ++ ", " ++ s.label ++ ")"

end Side

end RasterCategories
