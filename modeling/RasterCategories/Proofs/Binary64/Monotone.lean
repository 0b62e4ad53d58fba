import Mathlib.Algebra.Order.Ring.Int
import RasterCategories.Transform.Parameters
import RasterCategories.Proofs.Binary64.Order
/-!
# Rounded arithmetic is monotone

Rounding keeps the order of exact results, and so do a product with a constant and a sum with a constant,
overflow and infinite operands included. A linear function therefore keeps the order of its arguments or
reverses it, although it rounds twice.

* `BinaryFormat.nearest_mono`: rounding to nearest is monotone.
* `Binary64.add_le_add_right`, `Binary64.mul_le_mul_right` and `Binary64.mul_le_mul_right_of_neg`: the two
  operations with a finite constant.
* `Linear.eval_between`: a linear function takes an interval into the interval between its values at the
  bounds.
-/

namespace RasterCategories

/-! ### Rounding -/

/-- Rounding a quotient is monotone in the dividend. -/
theorem roundDiv_mono {m n : Nat} (den : Nat) (h : m ≤ n) : roundDiv m den ≤ roundDiv n den := by
  have hdiv : m / den ≤ n / den := Nat.div_le_div_right h
  rcases Nat.lt_or_eq_of_le hdiv with hlt | heq
  · calc roundDiv m den ≤ m / den + 1 := roundDiv_le_div_add_one m den
      _ ≤ n / den := hlt
      _ ≤ roundDiv n den := div_le_roundDiv n den
  -- With equal quotients the rests decide.
  · have hm := Nat.div_add_mod m den
    have hn := Nat.div_add_mod n den
    rw [← heq] at hn
    have hrest : m % den ≤ n % den := by omega
    unfold roundDiv
    dsimp only
    rw [← heq]
    split_ifs <;> omega

namespace BinaryFormat

variable {f : BinaryFormat}

/-- A rounded significand has at most one bit more than the fraction. -/
theorem significand_le (m den : Nat) :
    roundDiv m (den * 2 ^ ((m / den).log2 - f.fractionBits)) ≤ 2 ^ f.fractionBits * 2 := by
  have hself := Nat.lt_log2_self (n := m / den)
  have hquotient : m / (den * 2 ^ ((m / den).log2 - f.fractionBits)) < 2 ^ f.fractionBits * 2 := by
    rw [← Nat.div_div_eq_div_mul, Nat.div_lt_iff_lt_mul (Nat.two_pow_pos _)]
    calc m / den < 2 ^ ((m / den).log2 + 1) := hself
      _ ≤ 2 ^ (f.fractionBits + 1 + ((m / den).log2 - f.fractionBits)) :=
        Nat.pow_le_pow_right (by omega) (by omega)
      _ = 2 ^ f.fractionBits * 2 * 2 ^ ((m / den).log2 - f.fractionBits) := by rw [Nat.pow_add, Nat.pow_succ]
  have hround := roundDiv_le_div_add_one m (den * 2 ^ ((m / den).log2 - f.fractionBits))
  omega

/-- A significand that loses bits keeps its leading one. -/
theorem le_significand {m den : Nat} (hne : m / den ≠ 0) (h : f.fractionBits ≤ (m / den).log2) :
    2 ^ f.fractionBits ≤ roundDiv m (den * 2 ^ ((m / den).log2 - f.fractionBits)) := by
  have hself := Nat.log2_self_le hne
  have hquotient : 2 ^ f.fractionBits ≤ m / (den * 2 ^ ((m / den).log2 - f.fractionBits)) := by
    rw [← Nat.div_div_eq_div_mul, Nat.le_div_iff_mul_le (Nat.two_pow_pos _), ← Nat.pow_add]
    rwa [show f.fractionBits + ((m / den).log2 - f.fractionBits) = (m / den).log2 by omega]
  exact hquotient.trans (div_le_roundDiv _ _)

/-- Rounding to nearest is monotone. -/
theorem nearest_mono {m n : Nat} (den : Nat) (h : m ≤ n) : f.nearest m den ≤ f.nearest n den := by
  unfold nearest
  dsimp only
  refine min_le_min_right _ ?_
  have hdiv : m / den ≤ n / den := Nat.div_le_div_right h
  have hupper := significand_le (f := f) m den
  have hlower := @le_significand f n den
  generalize hs : (m / den).log2 - f.fractionBits = s at hupper ⊢
  generalize ht : (n / den).log2 - f.fractionBits = t at hlower ⊢
  have hst : s ≤ t := by
    -- The logarithm is monotone from one on; at zero there is nothing to shift.
    rcases Nat.eq_zero_or_pos (m / den) with hzero | hpos
    · simp [hzero] at hs
      omega
    · have hlog : (m / den).log2 ≤ (n / den).log2 :=
        (Nat.le_log2 (by omega)).mpr ((Nat.log2_self_le (by omega)).trans hdiv)
      omega
  rcases Nat.lt_or_eq_of_le hst with hlt | rfl
  -- The patterns of a higher binade lie above those of a lower one.
  · have hne : n / den ≠ 0 := by
      intro hzero
      simp [hzero] at ht
      omega
    have hlower := hlower hne (by omega)
    -- The bit that a rounded significand may have too many carries into the exponent field.
    have hbinade := Nat.mul_le_mul_right (2 ^ f.fractionBits) (show s + 1 ≤ t from hlt)
    rw [Nat.succ_mul] at hbinade
    omega
  · exact Nat.add_le_add_left (roundDiv_mono _ h) _

@[simp]
theorem nearest_zero (den : Nat) : f.nearest 0 den = 0 := by
  simp [nearest, roundDiv]

end BinaryFormat

namespace Binary64

variable {x y c : Binary64} {m n : Int}

/-! ### Values -/

/-- The value of a rounded quotient of least subnormals. -/
def rounded (n : Int) (den : Nat) : Int :=
  n.sign * (BinaryFormat.double.magnitude (BinaryFormat.double.nearest n.natAbs den) : Int)

/-- The value of positive infinity. -/
def top : Int := (BinaryFormat.double.magnitude BinaryFormat.double.infinity : Int)

theorem top_nonneg : 0 ≤ top := Int.natCast_nonneg _

theorem magnitude_nearest_le_top (n den : Nat) :
    (BinaryFormat.double.magnitude (BinaryFormat.double.nearest n den) : Int) ≤ top :=
  Int.ofNat_le.mpr (BinaryFormat.magnitude_le_magnitude_iff.mpr (BinaryFormat.nearest_le_infinity _ _ _))

theorem rounded_bounds (n : Int) (den : Nat) : -top ≤ rounded n den ∧ rounded n den ≤ top := by
  have h := magnitude_nearest_le_top n.natAbs den
  unfold rounded
  rcases lt_trichotomy n 0 with hn | rfl | hn
  · rw [Int.sign_eq_neg_one_of_neg hn]
    omega
  · have htop := top_nonneg
    rw [Int.sign_zero, zero_mul]
    omega
  · rw [Int.sign_eq_one_of_pos hn]
    omega

theorem rounded_mono (den : Nat) (h : m ≤ n) : rounded m den ≤ rounded n den := by
  have hle : ∀ {p q : Nat}, p ≤ q →
      (BinaryFormat.double.magnitude (BinaryFormat.double.nearest p den) : Int) ≤
        BinaryFormat.double.magnitude (BinaryFormat.double.nearest q den) := fun hpq =>
    Int.ofNat_le.mpr (BinaryFormat.magnitude_le_magnitude_iff.mpr (BinaryFormat.nearest_mono den hpq))
  unfold rounded
  -- Of two negative numbers the lesser one has the greater magnitude.
  rcases lt_trichotomy m 0 with hm | rfl | hm
  · rw [Int.sign_eq_neg_one_of_neg hm]
    rcases lt_trichotomy n 0 with hn | rfl | hn
    · rw [Int.sign_eq_neg_one_of_neg hn]
      have := hle (show n.natAbs ≤ m.natAbs by omega)
      omega
    · simp
    · rw [Int.sign_eq_one_of_pos hn]
      omega
  · rcases Int.lt_or_eq_of_le h with hn | rfl
    · rw [Int.sign_eq_one_of_pos hn]
      simp
    · exact le_rfl
  · rw [Int.sign_eq_one_of_pos hm, Int.sign_eq_one_of_pos (by omega)]
    have := hle (show m.natAbs ≤ n.natAbs by omega)
    omega

theorem rounded_neg (n : Int) (den : Nat) : rounded (-n) den = -rounded n den := by
  rw [rounded, rounded, Int.sign_neg, Int.natAbs_neg, Int.neg_mul]

/-- Rounding treats both signs alike. -/
theorem rounded_signed (negative : Bool) (k den : Nat) :
    rounded (if negative then -(k : Int) else k) den =
      if negative then -(BinaryFormat.double.magnitude (BinaryFormat.double.nearest k den) : Int)
      else BinaryFormat.double.magnitude (BinaryFormat.double.nearest k den) := by
  rcases Nat.eq_zero_or_pos k with rfl | hk
  · simp [rounded]
  · unfold rounded
    cases negative <;> simp only [Bool.false_eq_true, if_false, if_true]
    · rw [Int.sign_eq_one_of_pos (by omega), Int.natAbs_natCast, one_mul]
    · rw [Int.sign_eq_neg_one_of_neg (by omega), Int.natAbs_neg, Int.natAbs_natCast, neg_one_mul]

theorem isNaN_ofUnsigned (negative : Bool) {p : Nat} (h : p ≤ BinaryFormat.double.infinity) :
    (ofUnsigned negative p).isNaN = false := by
  have hinf := infinity_lt
  rw [isNaN_eq_false_iff, unsigned_ofUnsigned (by omega)]
  exact h

theorem value_ofUnsigned (negative : Bool) {p : Nat} (h : p ≤ BinaryFormat.double.infinity) :
    (ofUnsigned negative p).value =
      if negative then -(BinaryFormat.double.magnitude p : Int)
      else BinaryFormat.double.magnitude p := by
  have hinf := infinity_lt
  rw [value, magnitude, isNegative_ofUnsigned (by omega), unsigned_ofUnsigned (by omega)]

theorem isNaN_ofRatio (negative : Bool) (k den : Nat) : (ofRatio negative k den).isNaN = false :=
  isNaN_ofUnsigned negative (BinaryFormat.nearest_le_infinity _ k den)

theorem value_ofRatio (negative : Bool) (k den : Nat) :
    (ofRatio negative k den).value = rounded (if negative then -(k : Int) else k) den := by
  rw [rounded_signed, ofRatio, value_ofUnsigned negative (BinaryFormat.nearest_le_infinity _ k den)]

theorem isNaN_of_isFinite (h : c.isFinite = true) : c.isNaN = false := by
  rw [isNaN_eq_false_iff]
  exact (of_decide_eq_true h).le

theorem isInfinite_of_isFinite (h : c.isFinite = true) : c.isInfinite = false := by
  have hlt : c.unsigned < BinaryFormat.double.infinity := of_decide_eq_true h
  rw [isInfinite, beq_eq_false_iff_ne]
  omega

theorem value_bounds (hx : x.isNaN = false) : -top ≤ x.value ∧ x.value ≤ top := by
  have hle : (x.magnitude : Int) ≤ top :=
    Int.ofNat_le.mpr (BinaryFormat.magnitude_le_magnitude_iff.mpr (isNaN_eq_false_iff.mp hx))
  unfold value
  split <;> omega

/-- The infinities are the numbers with the extreme values. -/
theorem isInfinite_iff_value (hx : x.isNaN = false) :
    x.isInfinite = true ↔ x.value = top ∨ x.value = -top := by
  have hle := isNaN_eq_false_iff.mp hx
  have hlt : x.unsigned < BinaryFormat.double.infinity → (x.magnitude : Int) < top := fun h =>
    Int.ofNat_lt.mpr (BinaryFormat.magnitude_lt_magnitude h)
  have heq : x.unsigned = BinaryFormat.double.infinity → (x.magnitude : Int) = top := fun h => by
    rw [magnitude, h, top]
  rw [isInfinite, beq_iff_eq]
  unfold value
  split <;> omega

/-- The sign of a number other than zero is that of its value. -/
theorem sign_value (h : c.isZero = false) : c.value.sign = if c.isNegative then -1 else 1 := by
  have hne : c.magnitude ≠ 0 := by
    rw [Ne, magnitude_eq_zero_iff]
    simpa [isZero] using h
  unfold value
  split
  · exact Int.sign_eq_neg_one_of_neg (by omega)
  · exact Int.sign_eq_one_of_pos (by omega)

/-- Infinities keep their value and other numbers are rounded: both together are monotone. -/
theorem extended_mono (den : Nat) (h : x ≤ y) (hmn : m ≤ n) :
    (if x.isInfinite then x.value else rounded m den) ≤
      if y.isInfinite then y.value else rounded n den := by
  obtain ⟨hx, hy, hle⟩ := h
  have hmono := rounded_mono den hmn
  have hboundm := rounded_bounds m den
  have hboundn := rounded_bounds n den
  have hboundx := value_bounds hx
  have hboundy := value_bounds hy
  -- No finite value is as great as that of an infinity, and no rounded one is greater.
  split
  · next hinf =>
    have hextreme := (isInfinite_iff_value hx).mp hinf
    split
    · exact hle
    · next hfinite =>
      have := mt (isInfinite_iff_value hy).mpr hfinite
      omega
  · next hfinite =>
    have hinner := mt (isInfinite_iff_value hx).mpr hfinite
    split
    · next hinf =>
      have := (isInfinite_iff_value hy).mp hinf
      omega
    · exact hmono

/-! ### Sums and products with a constant -/

/-- A sum with a finite constant is no NaN, and its value is the rounded exact sum unless the other number is
infinite. -/
theorem add_spec (hx : x.isNaN = false) (hc : c.isFinite = true) :
    (x + c).isNaN = false ∧
      (x + c).value = if x.isInfinite then x.value else rounded (x.value + c.value) 1 := by
  show (add x c).isNaN = false ∧ (add x c).value = _
  have hcinf := isInfinite_of_isFinite hc
  unfold add
  simp only [hx, isNaN_of_isFinite hc, hcinf, Bool.or_self, Bool.false_and, Bool.false_eq_true,
    if_false]
  split
  · exact ⟨hx, rfl⟩
  -- An exact sum of zero is one of the two zeros, whose values are equal.
  · split
    · next hsum =>
      rw [hsum]
      split <;> exact ⟨by decide, by decide +kernel⟩
    · refine ⟨isNaN_ofRatio _ _ _, ?_⟩
      rw [value_ofRatio]
      congr 1
      simp only [decide_eq_true_eq]
      split <;> omega

/-- A product with a finite constant other than zero is no NaN, and its value is the rounded exact product
unless the other number is infinite. -/
theorem mul_spec (hx : x.isNaN = false) (hc : c.isFinite = true) (hzero : c.isZero = false) :
    (x * c).isNaN = false ∧
      (x * c).value =
        if x.isInfinite then x.value * c.value.sign else rounded (x.value * c.value) unit := by
  show (mul x c).isNaN = false ∧ (mul x c).value = _
  have hcinf := isInfinite_of_isFinite hc
  unfold mul
  simp only [hx, isNaN_of_isFinite hc, hcinf, hzero, Bool.or_self, Bool.or_false, Bool.false_eq_true,
    if_false]
  split
  · next hinf =>
    have hunsigned : x.unsigned = BinaryFormat.double.infinity := eq_of_beq hinf
    have hnonzero : x.isZero = false := by
      rw [isZero, hunsigned]
      decide
    -- The product of an infinity with zero is undefined, but the constant is not zero.
    rw [if_neg (by simp [hnonzero])]
    refine ⟨isNaN_ofUnsigned _ le_rfl, ?_⟩
    rw [value_ofUnsigned _ le_rfl, ← hunsigned, sign_value hzero, value, magnitude]
    generalize BinaryFormat.double.magnitude x.unsigned = k
    cases x.isNegative <;> cases c.isNegative <;> simp
  · refine ⟨isNaN_ofRatio _ _ _, ?_⟩
    rw [value_ofRatio]
    congr 1
    unfold value
    cases x.isNegative <;> cases c.isNegative <;> simp

/-- Adding a finite constant keeps the order. -/
theorem add_le_add_right (h : x ≤ y) (hc : c.isFinite = true) : x + c ≤ y + c := by
  obtain ⟨hx, hvaluex⟩ := add_spec h.1 hc
  obtain ⟨hy, hvaluey⟩ := add_spec h.2.1 hc
  refine ⟨hx, hy, ?_⟩
  rw [hvaluex, hvaluey]
  exact extended_mono 1 h (Int.add_le_add_right h.2.2 _)

/-- Multiplying by a positive finite constant keeps the order. -/
theorem mul_le_mul_right (h : x ≤ y) (hc : c.isFinite = true) (hzero : c.isZero = false)
    (hpos : c.isNegative = false) : x * c ≤ y * c := by
  obtain ⟨hx, hvaluex⟩ := mul_spec h.1 hc hzero
  obtain ⟨hy, hvaluey⟩ := mul_spec h.2.1 hc hzero
  refine ⟨hx, hy, ?_⟩
  have hsign := sign_value hzero
  rw [hpos, if_neg Bool.false_ne_true] at hsign
  rw [hvaluex, hvaluey, hsign, mul_one, mul_one]
  exact extended_mono unit h (Int.mul_le_mul_of_nonneg_right h.2.2 (Int.sign_eq_one_iff_pos.mp hsign).le)

/-- Multiplying by a negative finite constant reverses the order. -/
theorem mul_le_mul_right_of_neg (h : x ≤ y) (hc : c.isFinite = true) (hzero : c.isZero = false)
    (hneg : c.isNegative = true) : y * c ≤ x * c := by
  obtain ⟨hx, hvaluex⟩ := mul_spec h.1 hc hzero
  obtain ⟨hy, hvaluey⟩ := mul_spec h.2.1 hc hzero
  refine ⟨hy, hx, ?_⟩
  have hsign := sign_value hzero
  rw [hneg, if_pos rfl] at hsign
  have hvalue := Int.sign_eq_neg_one_iff_neg.mp hsign
  -- The products with the opposite constant are in order, and rounding is odd.
  have hopposite := extended_mono unit h
    (Int.mul_le_mul_of_nonneg_right h.2.2 (show 0 ≤ -c.value by omega))
  simp only [Int.mul_neg, rounded_neg] at hopposite
  rw [hvaluex, hvaluey, hsign, Int.mul_neg_one, Int.mul_neg_one]
  split_ifs at hopposite ⊢ <;> omega

end Binary64

namespace Linear

open Binary64

variable {low high x : Binary64}

/-- Between two bounds, the values of a linear function lie between its values at the bounds. -/
theorem eval_between (p : Linear) (hlow : low ≤ x) (hhigh : x ≤ high) :
    (p.eval low ≤ p.eval x ∧ p.eval x ≤ p.eval high) ∨
      (p.eval high ≤ p.eval x ∧ p.eval x ≤ p.eval low) := by
  unfold eval
  cases hs : p.scale.isNegative with
  | false =>
    left
    exact ⟨add_le_add_right (mul_le_mul_right hlow p.scale_finite p.scale_ne_zero hs) p.offset_finite,
      add_le_add_right (mul_le_mul_right hhigh p.scale_finite p.scale_ne_zero hs) p.offset_finite⟩
  | true =>
    right
    exact ⟨add_le_add_right (mul_le_mul_right_of_neg hhigh p.scale_finite p.scale_ne_zero hs)
        p.offset_finite,
      add_le_add_right (mul_le_mul_right_of_neg hlow p.scale_finite p.scale_ne_zero hs)
        p.offset_finite⟩

/-- A linear function gives a number for a number. -/
theorem isNaN_eval (p : Linear) (hx : x.isNaN = false) : (p.eval x).isNaN = false :=
  (add_spec (mul_spec hx p.scale_finite p.scale_ne_zero).1 p.offset_finite).1

end Linear

end RasterCategories
