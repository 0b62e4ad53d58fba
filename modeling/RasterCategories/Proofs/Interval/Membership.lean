import RasterCategories.Interval.Samples
import RasterCategories.Proofs.Binary64.Neighbour
/-!
# Membership in an interval

An excluded bound is stepped to its neighbour, so membership is what the declared bounds say, as long as the bound
has a neighbour. An infinity has none outward. An interval that consists of one infinity therefore contains it as
soon as the bound on its own side is included, although the other bound excludes it.

* `Interval.Declares`: membership as the bounds declare it.
* `Interval.Retains`: the infinity that is excluded and contained all the same.
* `Interval.contains_iff_declares`: membership, and the intervals that are empty.
* `Interval.contains_excluded_infinity`: infinity in an interval that excludes it.
-/

namespace RasterCategories.Interval

variable {r : Interval} {x : Binary64}

/-! ### Bounds -/

theorem isNaN_least (r : Interval) : r.least.isNaN = false := by
  unfold least
  split
  · exact r.ordered.1
  · rw [Binary64.isNaN_nextUp]
    exact r.ordered.1

theorem isNaN_greatest (r : Interval) : r.greatest.isNaN = false := by
  unfold greatest
  split
  · exact r.ordered.2.1
  · rw [Binary64.isNaN_nextDown]
    exact r.ordered.2.1

/-- The bounds of an interval that is not empty are in order. -/
theorem least_le_greatest (h : r.isEmpty = false) : r.least ≤ r.greatest := by
  rw [isEmpty, decide_eq_false_iff_not] at h
  exact Binary64.le_of_not_lt r.isNaN_greatest r.isNaN_least h

theorem contains_iff : r.contains x = true ↔ r.least ≤ x ∧ x ≤ r.greatest := by
  rw [contains, decide_eq_true_eq]

/-- An interval is empty if it contains nothing. -/
theorem isEmpty_iff : r.isEmpty = true ↔ ∀ x, r.contains x = false := by
  constructor
  · intro h x
    rw [isEmpty, decide_eq_true_eq] at h
    rw [Bool.eq_false_iff, ne_eq, contains_iff]
    rintro ⟨hleast, hgreatest⟩
    have hle := (Binary64.le_trans hleast hgreatest).2.2
    have hlt := h.2.2
    omega
  · intro h
    by_contra hempty
    have hle := least_le_greatest (Bool.eq_false_iff.mpr hempty)
    have hleast : r.contains r.least = true := contains_iff.mpr ⟨Binary64.le_refl r.isNaN_least, hle⟩
    rw [h] at hleast
    cases hleast

/-! ### Declared bounds -/

/-- Membership as the bounds declare it: above the lower bound, or equal to it if it is included, and below the upper
bound, or equal to it if it is included. -/
def Declares (r : Interval) (x : Binary64) : Prop :=
  (r.low < x ∨ r.lowClosed = true ∧ r.low.EqualTo x) ∧
    (x < r.high ∨ r.highClosed = true ∧ x.EqualTo r.high)

instance (r : Interval) (x : Binary64) : Decidable (r.Declares x) :=
  inferInstanceAs (Decidable (_ ∧ _))

/-- The interval runs from an infinity to itself. The bound that faces the numbers excludes this infinity, and the
other bound includes it. -/
def Retains (r : Interval) (x : Binary64) : Prop :=
  x = .infinity ∧ r.low = .infinity ∧ r.lowClosed = false ∧ r.highClosed = true ∨
    x = .negInfinity ∧ r.high = .negInfinity ∧ r.highClosed = false ∧ r.lowClosed = true

/-- A number reaches the least number of an interval if the lower bound lets it in, or if both are infinity. -/
theorem least_le_iff : r.least ≤ x ↔
    (r.low < x ∨ r.lowClosed = true ∧ r.low.EqualTo x) ∨
      r.lowClosed = false ∧ r.low = .infinity ∧ x = .infinity := by
  unfold least
  cases r.lowClosed with
  | true => simp [Binary64.le_iff_lt_or_equalTo]
  | false => simp [Binary64.nextUp_le_iff]

/-- The greatest number of an interval reaches a number if the upper bound lets it in, or if both are negative
infinity. -/
theorem le_greatest_iff : x ≤ r.greatest ↔
    (x < r.high ∨ r.highClosed = true ∧ x.EqualTo r.high) ∨
      r.highClosed = false ∧ r.high = .negInfinity ∧ x = .negInfinity := by
  unfold greatest
  cases r.highClosed with
  | true => simp [Binary64.le_iff_lt_or_equalTo]
  | false => simp [Binary64.le_nextDown_iff]

/-- An interval contains what its bounds declare, and an infinity that it retains. It is empty if it contains
nothing. -/
theorem contains_iff_declares (r : Interval) (x : Binary64) :
    (r.contains x = true ↔ r.Declares x ∨ r.Retains x) ∧ (r.isEmpty = true ↔ ∀ y, r.contains y = false) := by
  refine ⟨?_, isEmpty_iff⟩
  rw [contains_iff, least_le_iff, le_greatest_iff]
  have hordered := Binary64.le_iff_lt_or_equalTo.mp r.ordered
  constructor
  · rintro ⟨hlow | ⟨hopen, hlow, rfl⟩, hhigh | ⟨hopen', hhigh, hx⟩⟩
    · exact Or.inl ⟨hlow, hhigh⟩
    -- Negative infinity is above nothing, so it is the included lower bound.
    · subst hx
      have hclosed := (hlow.resolve_left Binary64.not_lt_negInfinity).1
      exact Or.inr (Or.inr ⟨rfl, hhigh, hopen', hclosed⟩)
    · have hclosed := (hhigh.resolve_left Binary64.not_infinity_lt).1
      exact Or.inr (Or.inl ⟨rfl, hlow, hopen, hclosed⟩)
    · cases hx
  · rintro (⟨hlow, hhigh⟩ | ⟨rfl, hlow, hopen, hclosed⟩ | ⟨rfl, hhigh, hopen, hclosed⟩)
    · exact ⟨Or.inl hlow, Or.inl hhigh⟩
    · rw [hlow] at hordered
      exact ⟨Or.inr ⟨hopen, hlow, rfl⟩, Or.inl (Or.inr ⟨hclosed, hordered.resolve_left Binary64.not_infinity_lt⟩)⟩
    · rw [hhigh] at hordered
      exact ⟨Or.inl (Or.inr ⟨hclosed, hordered.resolve_left Binary64.not_lt_negInfinity⟩),
        Or.inr ⟨hopen, hhigh, rfl⟩⟩

/-- Infinity lies in the interval from infinity to infinity that excludes its lower bound, and the interval is not
empty. -/
theorem contains_excluded_infinity :
    ∃ r : Interval, Interval.of .infinity .infinity false true = .ok r ∧ r.contains .infinity = true
      ∧ ¬ r.Declares .infinity ∧ r.isEmpty = false := by
  have hle : Binary64.infinity ≤ .infinity := Binary64.le_refl Binary64.isNaN_infinity
  refine ⟨⟨.infinity, .infinity, false, true, hle⟩, ?_, contains_iff.mpr ⟨hle, hle⟩, ?_, ?_⟩
  · simp [Interval.of, ofBounds?, hle]
  -- Infinity is neither above the excluded bound nor equal to an included one.
  · rintro ⟨hlt | ⟨hclosed, -⟩, -⟩
    · exact Binary64.not_infinity_lt hlt
    · cases hclosed
  · exact decide_eq_false Binary64.not_infinity_lt

end RasterCategories.Interval
