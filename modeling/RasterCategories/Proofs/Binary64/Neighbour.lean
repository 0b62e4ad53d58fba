import RasterCategories.Binary64.Neighbour
import RasterCategories.Proofs.Binary64.Difference
/-!
# Neighbours and comparisons

The upper neighbour of a number is one place away, except that the step from negative zero passes over positive zero
and that infinity stays where it is. So a number reaches the upper neighbour of another one exactly if it is above
that one, and infinity, which is above nothing, reaches its own. Downward everything is mirrored.

* `Binary64.place_nextUp`: where the upper neighbour is.
* `Binary64.nextDown_eq`: a step down is a step up between the opposites.
* `Binary64.nextUp_le_iff` and `Binary64.le_nextDown_iff`: what reaches the neighbours.
-/

namespace RasterCategories.Binary64

variable {x y : Binary64}

/-! ### Upward -/

theorem isNaN_infinity : infinity.isNaN = false := rfl

@[simp]
theorem place_infinity : infinity.place = BinaryFormat.double.infinity := rfl

/-- No number is above infinity. -/
theorem place_le_infinity (hx : x.isNaN = false) : x.place ≤ infinity.place := by
  have hle := isNaN_eq_false_iff.mp hx
  rw [place_infinity]
  simp only [place, hx, Bool.false_eq_true, if_false]
  split <;> omega

theorem le_infinity (hx : x.isNaN = false) : x ≤ infinity :=
  le_iff_place.mpr ⟨isNaN_eq_false_iff_place.mp hx, isNaN_eq_false_iff_place.mp isNaN_infinity,
    Or.inl (place_le_infinity hx)⟩

theorem not_infinity_lt : ¬ infinity < x := by
  rw [lt_iff_place]
  rintro ⟨hx, hlt, -⟩
  have hle := place_le_infinity (isNaN_eq_false_iff_place.mpr hx)
  omega

/-- The place of a number with the given sign and unsigned pattern. -/
theorem place_ofUnsigned {negative : Bool} {n : Nat} (h : n ≤ BinaryFormat.double.infinity) :
    (ofUnsigned negative n).place = if negative then -1 - (n : Int) else n := by
  have hlt : n < 2 ^ 63 := h.trans_lt infinity_lt
  rw [place, isNaN_ofUnsigned negative h, isNegative_ofUnsigned hlt, unsigned_ofUnsigned hlt]
  rfl

/-- There is nothing after infinity. -/
theorem nextUp_infinity : infinity.nextUp = infinity := rfl

/-- The step up from a number goes one place further, and from negative zero it passes over positive zero. -/
theorem place_nextUp (hx : x.isNaN = false) (hinf : x ≠ infinity) :
    x.nextUp.place = if x.place = -1 then 1 else x.place + 1 := by
  have hle := isNaN_eq_false_iff.mp hx
  have hplace : x.place = if x.isNegative then -1 - (x.unsigned : Int) else x.unsigned := by
    simp only [place, hx, Bool.false_eq_true, if_false]
  rw [← place_inj.ne, place_infinity] at hinf
  unfold nextUp
  rw [if_neg (by rw [hx]; decide)]
  split
  · next hzero =>
    rw [place_ofUnsigned (by decide)]
    rcases isZero_iff_place.mp hzero with h | h <;> rw [h] <;> rfl
  · next hzero =>
    rw [isZero_iff_place] at hzero
    split
    -- The unsigned pattern of a negative number counts its places down.
    · next hnegative =>
      rw [if_pos hnegative] at hplace
      rw [place_ofUnsigned (by omega), if_pos rfl]
      omega
    · next hpositive =>
      rw [if_neg hpositive] at hplace
      rw [if_neg (by rw [isInfinite, beq_iff_eq]; omega), place_ofUnsigned (by omega),
        if_neg Bool.false_ne_true]
      omega

@[simp]
theorem isNaN_nextUp (x : Binary64) : x.nextUp.isNaN = x.isNaN := by
  cases hx : x.isNaN with
  | true => rw [nextUp, if_pos hx, hx]
  | false =>
    by_cases hinf : x = infinity
    · rw [hinf, nextUp_infinity, isNaN_infinity]
    · have hle := place_le_infinity hx
      have hlt := isNaN_eq_false_iff_place.mp isNaN_infinity
      have hne := place_inj.not.mpr hinf
      rw [isNaN_eq_false_iff_place, place_nextUp hx hinf]
      omega

/-- A number reaches the upper neighbour of another one if it is above it, or if both are infinity. -/
theorem nextUp_le_iff : x.nextUp ≤ y ↔ x < y ∨ x = infinity ∧ y = infinity := by
  by_cases hnumbers : x.isNaN = false ∧ y.isNaN = false
  · obtain ⟨hx, hy⟩ := hnumbers
    have hle := place_le_infinity hy
    have hplace := isNaN_eq_false_iff_place.mp hy
    by_cases hinf : x = infinity
    · subst hinf
      rw [nextUp_infinity, le_iff_place, lt_iff_place, ← place_inj (x := y), eq_self, true_and]
      have hinfinity : infinity.place = 2047 * 2 ^ 52 := rfl
      omega
    · have hup := place_nextUp hx hinf
      have hnumber := isNaN_eq_false_iff_place.mp ((isNaN_nextUp x).trans hx)
      rw [le_iff_place, lt_iff_place]
      simp only [hinf, false_and, or_false]
      omega
  -- Nothing is compared with a NaN, and infinity is none.
  · refine iff_of_false (fun h => hnumbers ⟨(isNaN_nextUp x).symm.trans h.1, h.2.1⟩) ?_
    rintro (h | ⟨rfl, rfl⟩)
    · exact hnumbers ⟨h.1, h.2.1⟩
    · exact hnumbers ⟨isNaN_infinity, isNaN_infinity⟩

/-- A number is below its upper neighbour, unless it is infinity. -/
theorem lt_nextUp (hx : x.isNaN = false) (hinf : x ≠ infinity) : x < x.nextUp :=
  (nextUp_le_iff.mp (le_refl ((isNaN_nextUp x).trans hx))).resolve_right fun h => hinf h.1

theorem le_nextUp (hx : x.isNaN = false) : x ≤ x.nextUp := by
  by_cases hinf : x = infinity
  · rw [hinf, nextUp_infinity]
    exact le_refl isNaN_infinity
  · exact le_of_lt (lt_nextUp hx hinf)

/-- A step up keeps numbers in order. -/
theorem nextUp_le_nextUp (h : x ≤ y) : x.nextUp ≤ y.nextUp := by
  by_cases hinf : y = infinity
  · rw [hinf, nextUp_infinity]
    exact le_infinity ((isNaN_nextUp x).trans h.1)
  · have hlt := lt_nextUp h.2.1 hinf
    exact nextUp_le_iff.mpr (Or.inl ⟨h.1, hlt.2.1, h.2.2.trans_lt hlt.2.2⟩)

/-! ### Downward -/

/-- Opposites have opposite signs and the same unsigned pattern. -/
theorem neg_ofUnsigned {negative : Bool} {n : Nat} (h : n < 2 ^ 63) :
    -ofUnsigned negative n = ofUnsigned (!negative) n := by
  apply ext_of_unsigned
  · rw [isNegative_neg, isNegative_ofUnsigned h, isNegative_ofUnsigned h]
  · rw [unsigned_neg, unsigned_ofUnsigned h, unsigned_ofUnsigned h]

/-- The opposites of numbers in order are in the reverse order. -/
theorem neg_le_neg_iff : -x ≤ -y ↔ y ≤ x := by
  rw [le_iff, le_iff, isNaN_neg, isNaN_neg, value_neg, value_neg, Int.neg_le_neg_iff]
  tauto

theorem neg_lt_neg_iff : -x < -y ↔ y < x := by
  rw [lt_iff, lt_iff, isNaN_neg, isNaN_neg, value_neg, value_neg, Int.neg_lt_neg_iff]
  tauto

theorem neg_eq_iff : -x = y ↔ x = -y := by
  constructor <;> rintro rfl
  · exact (neg_neg x).symm
  · exact neg_neg y

@[simp]
theorem isZero_neg (x : Binary64) : (-x).isZero = x.isZero := by
  rw [isZero, isZero, unsigned_neg]

@[simp]
theorem isInfinite_neg (x : Binary64) : (-x).isInfinite = x.isInfinite := by
  rw [isInfinite, isInfinite, unsigned_neg]

/-- A step down is a step up between the opposites. -/
theorem nextDown_eq (x : Binary64) : x.nextDown = -(-x).nextUp := by
  have hinf := infinity_lt
  unfold nextDown nextUp
  simp only [isNaN_neg, isZero_neg, isInfinite_neg, isNegative_neg, unsigned_neg]
  cases hnan : x.isNaN with
  | true => exact (neg_neg x).symm
  | false =>
    have hle := isNaN_eq_false_iff.mp hnan
    cases hzero : x.isZero with
    | true => exact (neg_ofUnsigned (by decide) : -ofUnsigned false 1 = ofUnsigned true 1).symm
    | false =>
      cases hnegative : x.isNegative with
      | false =>
        have hopposite : -ofUnsigned true (x.unsigned - 1) = ofUnsigned false (x.unsigned - 1) :=
          neg_ofUnsigned (by omega)
        exact hopposite.symm
      | true =>
        cases hinfinite : x.isInfinite with
        | true => exact (neg_neg x).symm
        | false =>
          rw [isInfinite, beq_eq_false_iff_ne] at hinfinite
          have hopposite : -ofUnsigned false (x.unsigned + 1) = ofUnsigned true (x.unsigned + 1) :=
            neg_ofUnsigned (by omega)
          exact hopposite.symm

@[simp]
theorem isNaN_nextDown (x : Binary64) : x.nextDown.isNaN = x.isNaN := by
  rw [nextDown_eq, isNaN_neg, isNaN_nextUp, isNaN_neg]

theorem neg_infinity : -infinity = negInfinity := rfl

theorem not_lt_negInfinity : ¬ x < negInfinity := by
  rw [← neg_infinity, ← neg_neg x, neg_lt_neg_iff]
  exact not_infinity_lt

/-- The lower neighbour of a number reaches another one if that one is below it, or if both are negative infinity. -/
theorem le_nextDown_iff : y ≤ x.nextDown ↔ y < x ∨ x = negInfinity ∧ y = negInfinity := by
  rw [nextDown_eq, ← neg_le_neg_iff, neg_neg, nextUp_le_iff, neg_lt_neg_iff, neg_eq_iff, neg_eq_iff, neg_infinity]

theorem nextDown_le (hx : x.isNaN = false) : x.nextDown ≤ x := by
  rw [nextDown_eq, ← neg_le_neg_iff, neg_neg]
  exact le_nextUp ((isNaN_neg x).trans hx)

theorem nextDown_le_nextDown (h : x ≤ y) : x.nextDown ≤ y.nextDown := by
  rw [nextDown_eq, nextDown_eq, neg_le_neg_iff]
  exact nextUp_le_nextUp (neg_le_neg_iff.mpr h)

end RasterCategories.Binary64
