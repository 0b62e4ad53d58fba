import RasterCategories.Binary64.Neighbour
import RasterCategories.Decimal.Notation
/-!
# Intervals of numbers

An interval has two bounds, each of which belongs to it or not. An excluded bound is stepped to its
neighbour, so that membership is one pair of comparisons.

* `Interval.contains`: membership.
* `Interval.hull`: the smallest interval that covers two intervals.
* `Interval.text`: the written form.
-/

namespace RasterCategories

/-- An interval of numbers. The bounds are in order, hence neither is NaN. -/
structure Interval where
  /-- The declared lower bound. -/
  low : Binary64
  /-- The declared upper bound. -/
  high : Binary64
  /-- Whether the lower bound belongs to the interval. -/
  lowClosed : Bool
  /-- Whether the upper bound belongs to the interval. -/
  highClosed : Bool
  /-- The bounds are in order. -/
  ordered : low ≤ high
deriving DecidableEq

namespace Interval

/-- The interval with the given bounds, if they are in order. -/
def ofBounds? (low high : Binary64) (lowClosed highClosed : Bool) : Option Interval :=
  if h : low ≤ high then some ⟨low, high, lowClosed, highClosed, h⟩ else none

/-- The least number inside the interval, unless it is empty. -/
def least (r : Interval) : Binary64 := if r.lowClosed then r.low else r.low.nextUp

/-- The greatest number inside the interval, unless it is empty. -/
def greatest (r : Interval) : Binary64 := if r.highClosed then r.high else r.high.nextDown

/-- Whether the interval holds no number. -/
def isEmpty (r : Interval) : Bool := r.greatest < r.least

/-- Whether a number lies in the interval. -/
def contains (r : Interval) (x : Binary64) : Bool := r.least ≤ x ∧ x ≤ r.greatest

/-- The distance of the declared bounds. -/
def extent (r : Interval) : Binary64 := r.high - r.low

/-- Whether the second interval reaches at least as far down: its lower bound is less, or equal and
included. -/
def ReachesLower (r s : Interval) : Prop :=
  s.low < r.low ∨ s.low.EqualTo r.low ∧ s.lowClosed = true

/-- Whether the second interval reaches at least as far up: its upper bound is greater, or equal and
included. -/
def ReachesHigher (r s : Interval) : Prop :=
  r.high < s.high ∨ s.high.EqualTo r.high ∧ s.highClosed = true

instance (r s : Interval) : Decidable (r.ReachesLower s) :=
  inferInstanceAs (Decidable (_ ∨ _))

instance (r s : Interval) : Decidable (r.ReachesHigher s) :=
  inferInstanceAs (Decidable (_ ∨ _))

/-- The interval whose lower bound the hull takes. -/
def lower (r s : Interval) : Interval := if r.ReachesLower s then s else r

/-- The interval whose upper bound the hull takes. -/
def upper (r s : Interval) : Interval := if r.ReachesHigher s then s else r

theorem lower_low_le (r s : Interval) : (r.lower s).low ≤ r.low := by
  unfold lower
  split
  · next h =>
    rcases h with h | ⟨h, _⟩
    · exact Binary64.le_of_lt h
    · exact ⟨h.1, h.2.1, Int.le_of_eq h.2.2⟩
  · exact Binary64.le_refl r.ordered.1

theorem le_upper_high (r s : Interval) : r.high ≤ (r.upper s).high := by
  unfold upper
  split
  · next h =>
    rcases h with h | ⟨h, _⟩
    · exact Binary64.le_of_lt h
    · exact ⟨h.2.1, h.1, Int.le_of_eq h.2.2.symm⟩
  · exact Binary64.le_refl r.ordered.2.1

/-- The smallest interval that covers both intervals and any gap between them. -/
def hull (r s : Interval) : Interval where
  low := (r.lower s).low
  high := (r.upper s).high
  lowClosed := (r.lower s).lowClosed
  highClosed := (r.upper s).highClosed
  ordered := Binary64.le_trans (r.lower_low_le s)
    (Binary64.le_trans r.ordered (r.le_upper_high s))

/-- Equality of the declared bounds as numbers, the two zeros being equal. -/
def EqualTo (r s : Interval) : Prop :=
  r.low.EqualTo s.low ∧ r.high.EqualTo s.high
    ∧ r.lowClosed = s.lowClosed ∧ r.highClosed = s.highClosed

instance (r s : Interval) : Decidable (r.EqualTo s) :=
  inferInstanceAs (Decidable (_ ∧ _))

/-- The written form: square brackets for included bounds, round ones for excluded bounds, and one
number if the bounds are equal. -/
def text (r : Interval) : String :=
  let opening := if r.lowClosed then "[" else "("
  let closing := if r.highClosed then "]" else ")"
  let bounds :=
    if r.low.EqualTo r.high then r.low.boundText
    else r.low.boundText ++ " … " ++ r.high.boundText
  opening ++ bounds ++ closing

end Interval

end RasterCategories
