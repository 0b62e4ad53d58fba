import RasterCategories.Proofs.Binary64.Order
/-!
# Laws of the total order

Comparing patterns is comparing their places, so the comparison is a total order in which a pattern is equal to
itself alone. It agrees with IEEE 754 wherever that decides, tells the two zeros apart, and puts the NaNs last. The
signed 64-bit keys, on which tables of numbers are searched, order numbers in the same way.

* `Binary64.compare_laws`: the laws together.
-/

namespace RasterCategories.Binary64

variable {x y : Binary64}

theorem compare_eq_compareOn : compare = compareOn place :=
  funext fun x => funext fun y => compare_eq x y

instance : Std.TransCmp compare := by
  rw [compare_eq_compareOn]
  infer_instance

instance : Std.LawfulEqCmp compare where
  eq_of_compare {x y} h := by
    rw [compare_eq, Int.compare_eq_eq] at h
    exact place_injective h

/-- What is below for IEEE 754 is below. -/
theorem compare_of_lt (h : x < y) : x.compare y = .lt :=
  compare_eq_lt_iff.mpr (lt_iff_place.mp h).2.1

/-- Every number is below every NaN. -/
theorem compare_of_isNaN (hx : x.isNaN = false) (hy : y.isNaN = true) : x.compare y = .lt := by
  rw [isNaN_eq_false_iff_place] at hx
  rw [isNaN_iff_place] at hy
  exact compare_eq_lt_iff.mpr (by omega)

/-- NaNs are compared by their signed patterns. -/
theorem compare_signedBits (hx : x.isNaN = true) (hy : y.isNaN = true) :
    x.compare y = Ord.compare x.signedBits y.signedBits := by
  rw [compare, rank, rank, if_pos hx, if_pos hy]
  rfl

/-- The signed keys of numbers are ordered as the numbers. -/
theorem orderKey_lt_iff (hx : x.isNaN = false) (hy : y.isNaN = false) :
    x.orderKey.toInt < y.orderKey.toInt ↔ x.compare y = .lt := by
  rw [toInt_orderKey hx, toInt_orderKey hy, compare_eq_lt_iff]

/-- The comparison is antisymmetric and transitive, and only a pattern itself is equal to it. It follows IEEE 754,
has negative zero below positive zero, numbers below NaNs, and NaNs in the order of their signed patterns. The
signed keys order numbers in the same way. -/
theorem compare_laws :
    (∀ a b : Binary64, b.compare a = (a.compare b).swap)
      ∧ (∀ a b c : Binary64, a.compare b ≠ .gt → b.compare c ≠ .gt → a.compare c ≠ .gt)
      ∧ (∀ a b : Binary64, a.compare b = .eq ↔ a.bits = b.bits)
      ∧ (∀ a b : Binary64, a < b → a.compare b = .lt)
      ∧ negZero.compare zero = .lt
      ∧ (∀ a b : Binary64, a.isNaN = false → b.isNaN = true → a.compare b = .lt)
      ∧ (∀ a b : Binary64, a.isNaN = true → b.isNaN = true →
          a.compare b = Ord.compare a.signedBits b.signedBits)
      ∧ ∀ a b : Binary64, a.isNaN = false → b.isNaN = false →
          (a.orderKey.toInt < b.orderKey.toInt ↔ a.compare b = .lt) := by
  refine ⟨fun a b => Std.OrientedCmp.eq_swap, fun a b c hab hbc => ?_, fun a b => ?_, fun a b => compare_of_lt,
    by decide, fun a b => compare_of_isNaN, fun a b => compare_signedBits, fun a b => orderKey_lt_iff⟩
  · rw [ne_eq, ← Ordering.isLE_iff_ne_gt] at *
    exact Std.TransCmp.isLE_trans hab hbc
  · rw [Std.LawfulEqCmp.compare_eq_iff_eq]
    exact ⟨congrArg bits, fun h => congrArg Binary64.mk h⟩

/-- Negative infinity comes before negative zero, which comes before the NaN of the negative sign, which comes before
that of the positive sign. The keys of numbers tell the zeros apart, which IEEE 754 does not. -/
theorem compare_laws_zeros :
    negInfinity < negZero ∧ negInfinity.compare negZero = .lt
      ∧ negZero.compare (ofPattern 0xFFF8000000000000) = .lt
      ∧ (ofPattern 0xFFF8000000000000).compare nan = .lt ∧ negInfinity.compare nan ≠ .gt
      ∧ ¬ negZero < zero ∧ negZero.orderKey.toInt < zero.orderKey.toInt := by
  obtain ⟨-, htrans, -, hlt, hzeros, hnumber, hnans, hkeys⟩ := compare_laws
  have hbelow : negInfinity < negZero := lt_iff_place.mpr (by decide)
  have hfirst := hlt _ _ hbelow
  have hsecond := hnumber negZero (ofPattern 0xFFF8000000000000) (by decide) (by decide)
  have hthird : (ofPattern 0xFFF8000000000000).compare nan = .lt :=
    (hnans _ _ (by decide) (by decide)).trans (by decide)
  have hlast := htrans _ _ _ (by rw [hsecond]; decide) (by rw [hthird]; decide)
  exact ⟨hbelow, hfirst, hsecond, hthird, htrans _ _ _ (by rw [hfirst]; decide) hlast, by decide,
    (hkeys _ _ (by decide) (by decide)).mpr hzeros⟩

end RasterCategories.Binary64
