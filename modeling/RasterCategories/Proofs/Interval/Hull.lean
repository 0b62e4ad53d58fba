import RasterCategories.Proofs.Interval.Membership
/-!
# Hulls of intervals

The hull takes each bound from one of two intervals, whichever reaches further by the declared bounds. Stepping the
excluded bounds to their neighbours keeps them in order, so the interval that is taken also has the lesser least
number, or the greater greatest one. The hull of many intervals thus reaches a number exactly if one of them does.

* `Interval.least_hull_le_iff` and `Interval.le_greatest_hull_iff`: the hull of two intervals.
* `Interval.least_foldl_hull_le_iff` and `Interval.le_greatest_foldl_hull_iff`: the hull of many.
-/

namespace RasterCategories.Interval

variable {r s : Interval} {x : Binary64}

/-! ### The lower bound -/

theorem low_le_least (r : Interval) : r.low ≤ r.least := by
  unfold least
  split
  · exact Binary64.le_refl r.ordered.1
  · exact Binary64.le_nextUp r.ordered.1

/-- The interval that reaches lower has the lesser least number. -/
theorem ReachesLower.least_le (h : r.ReachesLower s) : s.least ≤ r.least :=
  Binary64.le_trans (least_le_iff.mpr (Or.inl (h.imp_right And.symm))) r.low_le_least

/-- Otherwise the other one has it. -/
theorem least_le_of_not_reachesLower (h : ¬ r.ReachesLower s) : r.least ≤ s.least := by
  have hle : r.low ≤ s.low :=
    Binary64.le_of_not_lt s.ordered.1 r.ordered.1 fun hlt => h (Or.inl hlt)
  rcases Binary64.le_iff_lt_or_equalTo.mp hle with hlt | heq
  · exact Binary64.le_trans (least_le_iff.mpr (Or.inl (Or.inl hlt))) s.low_le_least
  -- Equal lower bounds are left only if the second one is excluded.
  · have hopen : s.lowClosed = false := by
      rw [Bool.eq_false_iff]
      exact fun hclosed => h (Or.inr ⟨⟨heq.2.1, heq.1, heq.2.2.symm⟩, hclosed⟩)
    unfold least
    rw [hopen, if_neg Bool.false_ne_true]
    split
    · exact Binary64.le_trans hle (Binary64.le_nextUp s.ordered.1)
    · exact Binary64.nextUp_le_nextUp hle

/-- The hull of two intervals reaches down to a number if one of them does. -/
theorem least_hull_le_iff : (r.hull s).least ≤ x ↔ r.least ≤ x ∨ s.least ≤ x := by
  show (r.lower s).least ≤ x ↔ _
  unfold lower
  split
  · next h =>
    have hle := h.least_le
    exact ⟨Or.inr, fun hx => hx.elim (Binary64.le_trans hle) id⟩
  · next h =>
    have hle := least_le_of_not_reachesLower h
    exact ⟨Or.inl, fun hx => hx.elim id (Binary64.le_trans hle)⟩

/-- The hull of intervals reaches down to a number if one of them does. -/
theorem least_foldl_hull_le_iff {rs : List Interval} :
    (rs.foldl hull r).least ≤ x ↔ ∃ s ∈ r :: rs, s.least ≤ x := by
  induction rs generalizing r with
  | nil => simp
  | cons s rs ih =>
    rw [List.foldl_cons, ih]
    simp [least_hull_le_iff, or_assoc]

/-! ### The upper bound -/

theorem greatest_le_high (r : Interval) : r.greatest ≤ r.high := by
  unfold greatest
  split
  · exact Binary64.le_refl r.ordered.2.1
  · exact Binary64.nextDown_le r.ordered.2.1

/-- The interval that reaches higher has the greater greatest number. -/
theorem ReachesHigher.le_greatest (h : r.ReachesHigher s) : r.greatest ≤ s.greatest := by
  have hreach : r.high < s.high ∨ s.highClosed = true ∧ r.high.EqualTo s.high :=
    h.imp_right fun h => ⟨h.2, h.1.2.1, h.1.1, h.1.2.2.symm⟩
  exact Binary64.le_trans r.greatest_le_high (le_greatest_iff.mpr (Or.inl hreach))

theorem le_greatest_of_not_reachesHigher (h : ¬ r.ReachesHigher s) : s.greatest ≤ r.greatest := by
  have hle : s.high ≤ r.high :=
    Binary64.le_of_not_lt r.ordered.2.1 s.ordered.2.1 fun hlt => h (Or.inl hlt)
  rcases Binary64.le_iff_lt_or_equalTo.mp hle with hlt | heq
  · exact Binary64.le_trans s.greatest_le_high (le_greatest_iff.mpr (Or.inl (Or.inl hlt)))
  · have hopen : s.highClosed = false := by
      rw [Bool.eq_false_iff]
      exact fun hclosed => h (Or.inr ⟨heq, hclosed⟩)
    unfold greatest
    rw [hopen, if_neg Bool.false_ne_true]
    split
    · exact Binary64.le_trans (Binary64.nextDown_le s.ordered.2.1) hle
    · exact Binary64.nextDown_le_nextDown hle

/-- The hull of two intervals reaches up to a number if one of them does. -/
theorem le_greatest_hull_iff : x ≤ (r.hull s).greatest ↔ x ≤ r.greatest ∨ x ≤ s.greatest := by
  show x ≤ (r.upper s).greatest ↔ _
  unfold upper
  split
  · next h =>
    have hle := h.le_greatest
    exact ⟨Or.inr, fun hx => hx.elim (Binary64.le_trans · hle) id⟩
  · next h =>
    have hle := le_greatest_of_not_reachesHigher h
    exact ⟨Or.inl, fun hx => hx.elim id (Binary64.le_trans · hle)⟩

/-- The hull of intervals reaches up to a number if one of them does. -/
theorem le_greatest_foldl_hull_iff {rs : List Interval} :
    x ≤ (rs.foldl hull r).greatest ↔ ∃ s ∈ r :: rs, x ≤ s.greatest := by
  induction rs generalizing r with
  | nil => simp
  | cons s rs ih =>
    rw [List.foldl_cons, ih]
    simp [le_greatest_hull_iff, or_assoc]

end RasterCategories.Interval
