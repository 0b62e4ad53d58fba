import RasterCategories.Proofs.Binary64.Monotone
/-!
# Differences are monotone

The opposite of a number has the opposite value, so a difference is rounded as a sum is: it grows with the number
that is diminished and falls with the number that is taken away, infinite operands included. A comparison of two
distances, each of which is rounded, is therefore decided once for all numbers on either side.

* `Binary64.value_neg`: the value of the opposite.
* `Binary64.sub_spec`: the value of a difference with a finite number.
* `Binary64.sub_le_sub_left` and `Binary64.sub_le_sub_right`: differences are monotone.
* `Binary64.closer_mono`: a number that comes nearer to a bound above and leaves a bound below stays closer to the
  bound above.
-/

namespace RasterCategories.Binary64

variable {x y c low high : Binary64}

/-! ### Opposites -/

@[simp]
theorem unsigned_neg (x : Binary64) : (-x).unsigned = x.unsigned := by
  show (neg x).unsigned = _
  rw [unsigned, pattern, neg, BitVec.toNat_xor, Nat.xor_mod_two_pow]
  exact Nat.xor_zero _

@[simp]
theorem isNegative_neg (x : Binary64) : (-x).isNegative = !x.isNegative := by
  have hmsb : ∀ y : Binary64, y.isNegative = y.bits.msb := fun y => (BitVec.msb_eq_decide y.bits).symm
  rw [hmsb, hmsb]
  show (x.bits ^^^ 0x8000000000000000#64).msb = _
  rw [BitVec.msb_xor]
  exact Bool.xor_true _

@[simp]
theorem isNaN_neg (x : Binary64) : (-x).isNaN = x.isNaN := by
  rw [isNaN, isNaN, unsigned_neg]

@[simp]
theorem isFinite_neg (x : Binary64) : (-x).isFinite = x.isFinite := by
  rw [isFinite, isFinite, unsigned_neg]

@[simp]
theorem magnitude_neg (x : Binary64) : (-x).magnitude = x.magnitude := by
  rw [magnitude, magnitude, unsigned_neg]

/-- The opposite has the opposite value. -/
@[simp]
theorem value_neg (x : Binary64) : (-x).value = -x.value := by
  unfold value
  rw [magnitude_neg, isNegative_neg]
  cases x.isNegative <;> simp

/-! ### Differences -/

/-- A number is finite if it is neither NaN nor infinite. -/
theorem isFinite_of_not_isInfinite (hx : x.isNaN = false) (h : x.isInfinite = false) : x.isFinite = true := by
  rw [isNaN_eq_false_iff] at hx
  rw [isInfinite, beq_eq_false_iff_ne] at h
  exact decide_eq_true (by omega)

/-- What lies strictly between two numbers is finite. -/
theorem isFinite_of_place (hlow : low.isNaN = false) (hhigh : high.isNaN = false) (h : low.place < x.place)
    (h' : x.place < high.place) : x.isFinite = true := by
  have hx : x.isNaN = false := by
    rw [isNaN_eq_false_iff_place] at hhigh ⊢
    omega
  have hinf := isNaN_eq_false_iff.mp hlow
  have hinf' := isNaN_eq_false_iff.mp hhigh
  simp only [place, hx, hlow, hhigh, Bool.false_eq_true, if_false] at h h'
  refine decide_eq_true ?_
  cases hs : x.isNegative <;> simp only [hs, Bool.false_eq_true, if_false, if_true] at h h'
  · split at h' <;> omega
  · split at h <;> omega

/-- A difference of numbers is the sum with the opposite. -/
theorem sub_eq_add_neg (hx : x.isNaN = false) (hy : y.isNaN = false) : x - y = x + -y := by
  show sub x y = _
  simp [sub, hx, hy]

/-- A finite number added to an infinite one gives the infinite one. -/
theorem add_of_isInfinite (hx : x.isFinite = true) (hc : c.isInfinite = true) : x + c = c := by
  show add x c = c
  have hnan : c.isNaN = false := isNaN_eq_false_iff.mpr (eq_of_beq hc).le
  simp [add, isNaN_of_isFinite hx, hnan, isInfinite_of_isFinite hx, hc]

/-- The difference of a number and a finite one. -/
theorem sub_spec (hx : x.isNaN = false) (hc : c.isFinite = true) :
    (x - c).isNaN = false ∧
      (x - c).value = if x.isInfinite then x.value else rounded (x.value - c.value) 1 := by
  have hsum := add_spec hx (show (-c).isFinite = true by rw [isFinite_neg]; exact hc)
  rw [value_neg] at hsum
  rw [sub_eq_add_neg hx (isNaN_of_isFinite hc)]
  exact hsum

/-- Taking away less leaves more. -/
theorem sub_le_sub_left (hc : c.isNaN = false) (hx : x.isFinite = true) (hy : y.isFinite = true) (h : x ≤ y) :
    c - y ≤ c - x := by
  obtain ⟨hnanx, hvaluex⟩ := sub_spec hc hx
  obtain ⟨hnany, hvaluey⟩ := sub_spec hc hy
  refine ⟨hnany, hnanx, ?_⟩
  rw [hvaluex, hvaluey]
  have hle := h.2.2
  exact extended_mono 1 (le_refl hc) (by omega)

/-- What is greater exceeds the same number by more. -/
theorem sub_le_sub_right (hc : c.isNaN = false) (hx : x.isFinite = true) (hy : y.isFinite = true) (h : x ≤ y) :
    x - c ≤ y - c := by
  rw [sub_eq_add_neg h.1 hc, sub_eq_add_neg h.2.1 hc]
  cases hinfinite : (-c).isInfinite with
  | false =>
    have hnan : (-c).isNaN = false := by rw [isNaN_neg]; exact hc
    exact add_le_add_right h (isFinite_of_not_isInfinite hnan hinfinite)
  | true =>
    rw [add_of_isInfinite hx hinfinite, add_of_isInfinite hy hinfinite]
    exact le_refl (by rw [isNaN_neg]; exact hc)

/-- A number that comes nearer to a bound above and leaves a bound below stays closer to the bound above. -/
theorem closer_mono (hlow : low.isNaN = false) (hhigh : high.isNaN = false) (hx : x.isFinite = true)
    (hy : y.isFinite = true) (h : x ≤ y) (hcloser : low - x < x - high) : low - y < y - high := by
  have hleft := sub_le_sub_left hlow hx hy h
  have hright := sub_le_sub_right hhigh hx hy h
  refine ⟨hleft.1, hright.2.1, ?_⟩
  calc (low - y).value ≤ (low - x).value := hleft.2.2
    _ < (x - high).value := hcloser.2.2
    _ ≤ (y - high).value := hright.2.2

end RasterCategories.Binary64
