import RasterCategories.Proofs.Binary64.Difference
/-!
# Where quotients overflow

Rounding to nearest gives infinity from half a step above the largest finite number on, the half step included,
since the tie goes to the even pattern. A quotient of finite numbers is finite exactly if its exact value lies below
that bound.

* `BinaryFormat.nearest_lt_infinity_iff`: the bound, for any format.
* `Binary64.two_pow_eq_unit`, `Binary64.magnitude_one` and `Binary64.magnitude_infinity`: powers of two.
* `Binary64.isFinite_div_iff`: finite quotients.
* `Binary64.isFinite_one_div_iff` and `Binary64.isZero_one_div`: reciprocals, which never vanish.
-/

namespace RasterCategories

/-- A quotient is rounded to less than an even number if it is less by more than a half. -/
theorem roundDiv_lt_iff {num den k : Nat} (hden : 0 < den) (hk : k % 2 = 0) :
    roundDiv num den < k ↔ 2 * num < (2 * k - 1) * den := by
  have hdivision := Nat.div_add_mod num den
  have hrest := Nat.mod_lt num hden
  rw [Nat.sub_one_mul, Nat.mul_assoc]
  rcases Nat.lt_trichotomy (num / den + 1) k with hlt | heq | hgt
  · have hround := roundDiv_le_div_add_one num den
    have hmul := Nat.mul_le_mul_left den (show num / den + 2 ≤ k from hlt)
    rw [Nat.mul_add, Nat.mul_comm den k] at hmul
    exact iff_of_true (by omega) (by omega)
  -- The number below is odd, so a half goes up.
  · have hmul : k * den = den * (num / den) + den := by rw [← heq, Nat.add_mul, Nat.mul_comm, Nat.one_mul]
    unfold roundDiv
    dsimp only
    split_ifs <;> omega
  · have hround := div_le_roundDiv num den
    have hmul := Nat.mul_le_mul_left den (show k ≤ num / den by omega)
    rw [Nat.mul_comm den k] at hmul
    exact iff_of_false (by omega) (by omega)

namespace BinaryFormat

variable {f : BinaryFormat} {num den : Nat}

/-- A quotient is rounded to a finite number if it is less than the largest one and half a step. -/
theorem nearest_lt_infinity_iff (hf : 3 ≤ 2 ^ f.exponentBits) (hden : 0 < den) :
    f.nearest num den < f.infinity ↔
      2 * num < (2 ^ (f.fractionBits + 2) - 1) * (den * 2 ^ (2 ^ f.exponentBits - 3)) := by
  have hupper := significand_le (f := f) num den
  have hlower := @le_significand f num den
  have hunder := Nat.lt_log2_self (n := num / den)
  have hself := @Nat.log2_self_le (num / den)
  have hwidth : 2 ^ (f.fractionBits + 2) = 2 * (2 ^ f.fractionBits * 2) := by
    rw [Nat.pow_add, Nat.mul_comm 2, Nat.mul_assoc]
  have hpos : 0 < 2 ^ f.fractionBits := Nat.two_pow_pos _
  have hinfinity : f.infinity = (2 ^ f.exponentBits - 3) * 2 ^ f.fractionBits + 2 ^ f.fractionBits * 2 := by
    rw [infinity, Nat.mul_comm _ 2, ← Nat.add_mul]
    congr 1
    omega
  unfold nearest
  dsimp only
  rw [inf_lt_right, not_le, hinfinity, hwidth, Nat.sub_one_mul, Nat.mul_assoc 2]
  generalize 2 ^ f.exponentBits - 3 = last
  generalize hs : (num / den).log2 - f.fractionBits = shift at hupper hlower ⊢
  -- The exact bound in counts of the last bit of the greatest binade.
  have hcount : ∀ k, den * 2 ^ (f.fractionBits + k) = 2 ^ f.fractionBits * (den * 2 ^ k) := fun k => by
    rw [Nat.pow_add, Nat.mul_left_comm]
  rcases Nat.lt_trichotomy shift last with hlt | rfl | hgt
  · have hshift := Nat.mul_le_mul_right (2 ^ f.fractionBits) (show shift + 1 ≤ last from hlt)
    rw [Nat.succ_mul] at hshift
    have hnum : num < den * 2 ^ (f.fractionBits + last) := by
      rw [Nat.mul_comm, ← Nat.div_lt_iff_lt_mul hden]
      exact hunder.trans_le (Nat.pow_le_pow_right (by omega) (by omega))
    rw [hcount] at hnum
    have hone := Nat.le_mul_of_pos_left (den * 2 ^ last) hpos
    refine iff_of_true (by omega) ?_
    rw [Nat.mul_assoc, Nat.mul_left_comm _ 2]
    omega
  · rw [Nat.add_lt_add_iff_left, roundDiv_lt_iff (Nat.mul_pos hden (Nat.two_pow_pos _)) (by omega),
      Nat.sub_one_mul, Nat.mul_assoc 2]
  · have hne : num / den ≠ 0 := by
      intro hzero
      simp [hzero] at hs
      omega
    have hleading := hlower hne (by omega)
    have hshift := Nat.mul_le_mul_right (2 ^ f.fractionBits) (show last + 1 ≤ shift from hgt)
    rw [Nat.succ_mul] at hshift
    have hnum : den * 2 ^ (f.fractionBits + (last + 1)) ≤ num := by
      rw [Nat.mul_comm, ← Nat.le_div_iff_mul_le hden]
      exact (Nat.pow_le_pow_right (by omega) (by omega)).trans (hself hne)
    rw [hcount, Nat.pow_succ, ← Nat.mul_assoc den, ← Nat.mul_assoc] at hnum
    refine iff_of_false (by omega) ?_
    rw [Nat.mul_assoc, Nat.mul_left_comm _ 2]
    omega

/-- A pattern without a fraction stands for a power of two. -/
theorem magnitude_mul_two_pow {exponent : Nat} (k : Nat) (h : f.fractionBits + k = exponent) :
    f.magnitude ((k + 1) * 2 ^ f.fractionBits) = 2 ^ exponent := by
  have hpos : 0 < 2 ^ f.fractionBits := Nat.two_pow_pos _
  rw [magnitude, if_neg (by rw [Nat.succ_mul]; omega), Nat.mul_mod_left, Nat.mul_div_cancel _ hpos, Nat.add_zero,
    Nat.add_sub_cancel, ← h, Nat.pow_add]

/-- A quotient from one on is not rounded to zero. -/
theorem nearest_pos (hinfinity : 0 < f.infinity) (hden : 0 < den) (h : den ≤ num) : 0 < f.nearest num den := by
  have hquotient : 0 < num / den := Nat.div_pos h hden
  have hself := Nat.log2_self_le hquotient.ne'
  have hshift : 2 ^ ((num / den).log2 - f.fractionBits) ≤ num / den :=
    (Nat.pow_le_pow_right (by omega) (Nat.sub_le _ _)).trans hself
  have hsignificand : 0 < num / (den * 2 ^ ((num / den).log2 - f.fractionBits)) := by
    rw [← Nat.div_div_eq_div_mul]
    exact Nat.div_pos hshift (Nat.two_pow_pos _)
  have hround := div_le_roundDiv num (den * 2 ^ ((num / den).log2 - f.fractionBits))
  exact lt_min (by omega) hinfinity

end BinaryFormat

namespace Binary64

variable {x y : Binary64}

theorem two_pow_eq_unit {n : Nat} (h : n = 1074) : 2 ^ n = unit := by
  rw [h, unit]

theorem two_pow_mul_two_pow {m n : Nat} (h : m + n = 1074) : 2 ^ m * 2 ^ n = unit := by
  rw [← Nat.pow_add, two_pow_eq_unit h]

theorem two_pow_mul_unit {k n : Nat} (h : n = k + 1074) : 2 ^ k * unit = 2 ^ n := by
  rw [h, Nat.pow_add, unit]

theorem unit_pos : 0 < unit := lt_of_lt_of_eq (Nat.two_pow_pos _) (two_pow_eq_unit rfl)

theorem magnitude_one : one.magnitude = unit :=
  (BinaryFormat.magnitude_mul_two_pow (f := .double) 1022 rfl).trans (two_pow_eq_unit rfl)

/-- Infinity reads as the power of two after the largest finite number. -/
theorem magnitude_infinity {n : Nat} (h : n = 2098) :
    BinaryFormat.double.magnitude BinaryFormat.double.infinity = 2 ^ n :=
  BinaryFormat.magnitude_mul_two_pow 2046 h.symm

/-- The finite numbers reach less far above one than the least subnormal lies below it. -/
theorem magnitude_le (h : x.isFinite = true) : x.magnitude ≤ unit * unit := by
  obtain ⟨n, hn⟩ : ∃ n, n = 1074 := ⟨_, rfl⟩
  calc x.magnitude ≤ BinaryFormat.double.magnitude BinaryFormat.double.infinity :=
        (BinaryFormat.magnitude_lt_magnitude (of_decide_eq_true h)).le
    _ = 2 ^ (n + 1024) := magnitude_infinity (by omega)
    _ ≤ 2 ^ (n + n) := Nat.pow_le_pow_right (by decide) (by omega)
    _ = unit * unit := by rw [Nat.pow_add, two_pow_eq_unit hn]

/-- A finite number that is not zero has a magnitude. -/
theorem magnitude_pos (h : x.isZero = false) : 0 < x.magnitude := by
  rw [Nat.pos_iff_ne_zero, Ne, magnitude_eq_zero_iff]
  simpa [isZero] using h

theorem isFinite_ofRatio_iff {negative : Bool} {num den : Nat} :
    (ofRatio negative num den).isFinite = true ↔
      BinaryFormat.double.nearest num den < BinaryFormat.double.infinity := by
  have hle := BinaryFormat.nearest_le_infinity .double num den
  have hinf := infinity_lt
  rw [isFinite, decide_eq_true_eq, ofRatio, unsigned_ofUnsigned (by omega)]

/-- The quotient of two finite numbers is rounded once, unless the divisor is zero. -/
theorem div_eq (hx : x.isFinite = true) (hy : y.isFinite = true) (hzero : y.isZero = false) :
    x / y = ofRatio (x.isNegative != y.isNegative) (x.magnitude * unit) y.magnitude := by
  show div x y = _
  simp [div, isNaN_of_isFinite hx, isNaN_of_isFinite hy, isInfinite_of_isFinite hx, isInfinite_of_isFinite hy,
    hzero]

/-- The quotient of two finite numbers is finite if its exact value is less than `2 ^ 1024 - 2 ^ 970`. -/
theorem isFinite_div_iff (hx : x.isFinite = true) (hy : y.isFinite = true) (hzero : y.isZero = false) :
    (x / y).isFinite = true ↔ 2 * x.magnitude < (2 ^ 54 - 1) * (y.magnitude * 2 ^ 971) := by
  have hlast : y.magnitude * 2 ^ (2 ^ BinaryFormat.double.exponentBits - 3) = y.magnitude * 2 ^ 971 * unit := by
    rw [Nat.mul_assoc, two_pow_mul_unit (k := 971) (n := 2 ^ BinaryFormat.double.exponentBits - 3) rfl]
  rw [div_eq hx hy hzero, isFinite_ofRatio_iff,
    BinaryFormat.nearest_lt_infinity_iff (by decide) (magnitude_pos hzero), hlast, ← Nat.mul_assoc,
    ← Nat.mul_assoc, Nat.mul_lt_mul_right unit_pos]
  rfl

/-- The reciprocal of a finite number is finite if the number is greater than `2 ^ -1024`. -/
theorem isFinite_one_div_iff (hy : y.isFinite = true) (hzero : y.isZero = false) :
    (one / y).isFinite = true ↔ 2 ^ 50 < y.magnitude := by
  have hpos : 0 < 2 ^ 971 := Nat.two_pow_pos 971
  rw [isFinite_div_iff (by decide) hy hzero, magnitude_one, ← two_pow_mul_two_pow (m := 103) (n := 971) rfl]
  generalize 2 ^ 971 = last at hpos
  rw [← Nat.mul_assoc, ← Nat.mul_assoc, Nat.mul_lt_mul_right hpos]
  omega

/-- The reciprocal of a finite number is not zero. -/
theorem isZero_one_div (hy : y.isFinite = true) (hzero : y.isZero = false) : (one / y).isZero = false := by
  have hpos := magnitude_pos hzero
  have hnearest := BinaryFormat.nearest_pos (f := .double) (by decide) hpos (magnitude_le hy)
  have hle := BinaryFormat.nearest_le_infinity .double (unit * unit) y.magnitude
  have hinf := infinity_lt
  rw [div_eq (by decide) hy hzero, magnitude_one, isZero, beq_eq_false_iff_ne, ofRatio,
    unsigned_ofUnsigned (by omega)]
  omega

end Binary64

end RasterCategories
