import Mathlib.Data.Nat.Basic
import RasterCategories.Proofs.Binary64.Overflow
/-!
# Logarithms of bases

The natural logarithm is computed in fixed point, from the exponent of two and a series for the rest. Its fraction is
far longer than that of a number, so the logarithm of a number next to one does not vanish, and the logarithm of a
number just below two does not reach that of two. Only one has the logarithm zero.

* `BinaryFormat.two_pow_dvd_magnitude`: the last bit of a number.
* `FixedPoint.logNearOne_lt_logTwo` and `FixedPoint.logNearOne_pos`: the logarithms of numbers from one to two.
* `Binary64.logFixed_ne_zero` and `Binary64.natAbs_logFixed_le`: the logarithms of all finite numbers.
* `Binary64.zero_lt_iff`: the positive numbers.
* `Binary64.isFinite_log_div`: a logarithm to any base is finite.
-/

namespace RasterCategories

/-! ### The last bit of a number -/

namespace BinaryFormat

variable {f : BinaryFormat}

/-- A magnitude is a multiple of the last bit of its significand. -/
theorem two_pow_dvd_magnitude (p : Nat) :
    2 ^ ((f.magnitude p).log2 - f.fractionBits) ∣ f.magnitude p := by
  unfold magnitude
  split
  · next hp =>
    have hlog : p.log2 ≤ f.fractionBits := by
      rcases Nat.eq_zero_or_pos p with rfl | hpos
      · simp
      · exact ((Nat.log2_lt hpos.ne').mpr hp).le
    rw [Nat.sub_eq_zero_of_le hlog, Nat.pow_zero]
    exact Nat.one_dvd p
  · have hpos : 0 < 2 ^ f.fractionBits := Nat.two_pow_pos _
    have hmod := Nat.mod_lt p hpos
    generalize p / 2 ^ f.fractionBits - 1 = shift
    -- The first bit of the significand is the implicit one, shifted with all the others.
    have hlog : ((2 ^ f.fractionBits + p % 2 ^ f.fractionBits) * 2 ^ shift).log2 = f.fractionBits + shift := by
      rw [Nat.log2_eq_iff (Nat.mul_pos (by omega) (Nat.two_pow_pos _)).ne', Nat.pow_succ, Nat.pow_add]
      constructor
      · exact Nat.mul_le_mul_right _ (Nat.le_add_right _ _)
      · rw [Nat.mul_right_comm]
        exact Nat.mul_lt_mul_of_pos_right (by omega) (Nat.two_pow_pos _)
    rw [hlog, Nat.add_sub_cancel_left]
    exact Nat.dvd_mul_left _ _

end BinaryFormat

/-! ### The series -/

namespace FixedPoint

variable {p p' q q' m d : Nat}

theorem arctanhSeries_mono (terms index : Nat) (hp : p ≤ p') (hq : q ≤ q') :
    arctanhSeries terms index p q ≤ arctanhSeries terms index p' q' := by
  induction terms generalizing index p p' with
  | zero => exact le_rfl
  | succ terms ih =>
    exact Nat.add_le_add (Nat.div_le_div_right hp)
      (ih (index + 1) (Nat.div_le_div_right (Nat.mul_le_mul hp hq)))

/-- The first term of the series is its argument. -/
theorem arctanhSeries_succ (terms : Nat) :
    arctanhSeries (terms + 1) 0 p q = p + arctanhSeries terms 1 (p * q / one) q := by
  rw [arctanhSeries, Nat.mul_zero, Nat.zero_add, Nat.div_one]

/-- A greater quotient has a greater logarithm, as far as the arguments of the series differ. -/
theorem logNearOne_lt {m' d' : Nat} (h : (m - d) * one / (m + d) < (m' - d') * one / (m' + d')) :
    logNearOne m d < logNearOne m' d' := by
  have hrest := arctanhSeries_mono 55 1
    (Nat.div_le_div_right (c := one) (Nat.mul_le_mul h.le (Nat.div_le_div_right (c := one) (Nat.mul_le_mul h.le h.le))))
    (Nat.div_le_div_right (c := one) (Nat.mul_le_mul h.le h.le))
  unfold logNearOne
  dsimp only
  rw [arctanhSeries_succ, arctanhSeries_succ]
  omega

theorem one_eq : one = 3 * (one / 3) + 1 := by decide

/-- The fraction is far longer than that of a number. -/
theorem two_pow_lt_one : 2 ^ 52 < one / 3 := by decide

/-- A number that is less than two by at least one bit has a lesser logarithm. -/
theorem logNearOne_lt_logTwo {bit : Nat} (hle : d ≤ m) (hlt : m + bit ≤ 2 * d) (hpos : 0 < bit)
    (hbit : d ≤ 2 ^ 52 * bit) : logNearOne m d < logTwo := by
  refine logNearOne_lt ?_
  obtain ⟨e, rfl⟩ := Nat.exists_eq_add_of_le hle
  have hlong := two_pow_lt_one
  have hone := one_eq
  rw [Nat.one_mul, Nat.add_sub_cancel_left, Nat.div_lt_iff_lt_mul (by omega)]
  generalize one / 3 = third at hlong hone ⊢
  -- The bit that is missing to two counts for more than what the division by three leaves.
  have hbits : 2 ^ 52 * bit < third * bit := Nat.mul_lt_mul_of_pos_right hlong hpos
  have hgap : third * (e + bit) ≤ third * d := Nat.mul_le_mul_left _ (by omega)
  rw [Nat.mul_add] at hgap
  rw [hone, Nat.mul_add, Nat.mul_add, Nat.mul_add, Nat.mul_left_comm, Nat.mul_comm e third]
  omega

/-- A number that is greater than one by at least one bit has a positive logarithm. -/
theorem logNearOne_pos {bit : Nat} (hle : d + bit ≤ m) (hlt : m ≤ 2 * d) (hpos : 0 < bit)
    (hbit : d ≤ 2 ^ 52 * bit) : 0 < logNearOne m d := by
  have hbits : 3 * 2 ^ 52 * bit ≤ one * bit := Nat.mul_le_mul_right _ (by decide)
  have hratio : 0 < (m - d) * one / (m + d) := by
    refine Nat.div_pos ?_ (by omega)
    calc m + d ≤ one * bit := by omega
      _ = bit * one := Nat.mul_comm _ _
      _ ≤ (m - d) * one := Nat.mul_le_mul_right _ (by omega)
  unfold logNearOne
  dsimp only
  rw [arctanhSeries_succ]
  omega

theorem logTwo_le : logTwo ≤ one := by decide +kernel

end FixedPoint

/-! ### Logarithms of positive numbers -/

namespace Binary64

open FixedPoint

variable {x y : Binary64}

/-- A magnitude lies between two powers of two, and one last bit below the upper one. -/
theorem magnitude_bits (h : x.isZero = false) :
    2 ^ x.magnitude.log2 ≤ x.magnitude ∧
      x.magnitude + 2 ^ (x.magnitude.log2 - 52) ≤ 2 * 2 ^ x.magnitude.log2 := by
  have hdvd : 2 ^ (x.magnitude.log2 - 52) ∣ x.magnitude := BinaryFormat.two_pow_dvd_magnitude x.unsigned
  have hpower : 2 ^ (x.magnitude.log2 - 52) ∣ 2 ^ (x.magnitude.log2 + 1) := Nat.pow_dvd_pow 2 (by omega)
  have hself := Nat.log2_self_le (magnitude_pos h).ne'
  have hlt := Nat.lt_log2_self (n := x.magnitude)
  have hgap := Nat.le_of_dvd (Nat.sub_pos_of_lt hlt) (Nat.dvd_sub hpower hdvd)
  exact ⟨hself, by omega⟩

/-- Powers of two apart, a magnitude exceeds the power of its first bit by at least its last bit. -/
theorem add_bit_le_magnitude (h : 2 ^ x.magnitude.log2 < x.magnitude) :
    2 ^ x.magnitude.log2 + 2 ^ (x.magnitude.log2 - 52) ≤ x.magnitude := by
  have hdvd : 2 ^ (x.magnitude.log2 - 52) ∣ x.magnitude := BinaryFormat.two_pow_dvd_magnitude x.unsigned
  have hpower : 2 ^ (x.magnitude.log2 - 52) ∣ 2 ^ x.magnitude.log2 := Nat.pow_dvd_pow 2 (by omega)
  have hgap := Nat.le_of_dvd (Nat.sub_pos_of_lt h) (Nat.dvd_sub hdvd hpower)
  omega

theorem two_pow_log2_le : 2 ^ x.magnitude.log2 ≤ 2 ^ 52 * 2 ^ (x.magnitude.log2 - 52) := by
  rw [← Nat.pow_add]
  exact Nat.pow_le_pow_right (by omega) (by omega)

/-- The logarithm of the significand is less than that of two. -/
theorem logNearOne_magnitude_lt (h : x.isZero = false) :
    logNearOne x.magnitude (2 ^ x.magnitude.log2) < logTwo := by
  obtain ⟨hleading, htrailing⟩ := magnitude_bits h
  exact logNearOne_lt_logTwo hleading htrailing (Nat.two_pow_pos _) two_pow_log2_le

/-- Only one has the logarithm zero. -/
theorem logFixed_ne_zero (h : x.isZero = false) (hone : x.magnitude ≠ unit) : x.logFixed ≠ 0 := by
  have hsignificand := logNearOne_magnitude_lt h
  unfold logFixed
  dsimp only
  rcases Nat.lt_trichotomy x.magnitude.log2 1074 with hlt | heq | hgt
  -- Below one, the exponent takes away more than the significand adds.
  · have hnegative := Int.mul_le_mul_of_nonneg_right (show (x.magnitude.log2 : Int) - 1074 ≤ -1 by omega)
      (Int.natCast_nonneg logTwo)
    omega
  -- From one to two the exponent adds nothing, and the significand is greater than one.
  · obtain ⟨hleading, htrailing⟩ := magnitude_bits h
    have hunit : 2 ^ x.magnitude.log2 = unit := by
      unfold unit
      rw [heq]
    have hpositive : 0 < 2 ^ (x.magnitude.log2 - 52) := Nat.two_pow_pos _
    have hbit := add_bit_le_magnitude (lt_of_le_of_ne hleading (hunit ▸ hone.symm))
    have hpos := logNearOne_pos hbit (by omega) hpositive two_pow_log2_le
    rw [heq, show ((1074 : Nat) : Int) - 1074 = 0 from rfl, Int.zero_mul, ← heq]
    omega
  -- From two on, the exponent adds at least the logarithm of two.
  · have hpositive := Int.mul_le_mul_of_nonneg_right (show 1 ≤ (x.magnitude.log2 : Int) - 1074 by omega)
      (Int.natCast_nonneg logTwo)
    omega

/-- A finite number is less than `2 ^ 1024`. -/
theorem log2_magnitude_lt (h : x.isFinite = true) (hzero : x.isZero = false) : x.magnitude.log2 < 2098 := by
  rw [Nat.log2_lt (magnitude_pos hzero).ne']
  calc x.magnitude < BinaryFormat.double.magnitude BinaryFormat.double.infinity :=
        BinaryFormat.magnitude_lt_magnitude (of_decide_eq_true h)
    _ = 2 ^ 2098 := magnitude_infinity rfl

/-- The logarithms of finite numbers are at most `2 ^ 11` in absolute value. -/
theorem natAbs_logFixed_le (h : x.isFinite = true) (hzero : x.isZero = false) :
    x.logFixed.natAbs ≤ 2 ^ 11 * FixedPoint.one := by
  have hsignificand := logNearOne_magnitude_lt hzero
  have htop := log2_magnitude_lt h hzero
  have htwo := logTwo_le
  have hlow := Int.mul_le_mul_of_nonneg_right (show -1074 ≤ (x.magnitude.log2 : Int) - 1074 by omega)
      (Int.natCast_nonneg logTwo)
  have hhigh := Int.mul_le_mul_of_nonneg_right (show (x.magnitude.log2 : Int) - 1074 ≤ 1023 by omega)
      (Int.natCast_nonneg logTwo)
  unfold logFixed
  dsimp only
  omega

/-- The positive numbers are those that are not zero, not negative and not NaN. -/
theorem zero_lt_iff : zero < x ↔ x.isNaN = false ∧ x.isZero = false ∧ x.isNegative = false := by
  have hzero : x.isZero = false ↔ x.magnitude ≠ 0 := by
    rw [Ne, magnitude_eq_zero_iff, isZero, beq_eq_false_iff_ne]
  have hvalue : zero.value = 0 := by decide
  rw [lt_iff, hvalue, hzero, value]
  refine and_iff_right_of_imp (fun _ => by decide) |>.trans (and_congr_right fun _ => ?_)
  split
  · next hnegative => simp [hnegative]
  · next hnegative => simp [hnegative, Nat.pos_iff_ne_zero]

/-- The logarithm of a positive finite number is rounded once. -/
theorem log_eq (hpos : zero < x) (h : x.isFinite = true) : x.log = ofFixed x.logFixed := by
  obtain ⟨hnan, hzero, hsign⟩ := zero_lt_iff.mp hpos
  simp [log, logWith, hnan, hzero, hsign, isInfinite_of_isFinite h]

theorem unsigned_ofFixed (n : Int) :
    (ofFixed n).unsigned = BinaryFormat.double.nearest (n.natAbs * unit) FixedPoint.one :=
  unsigned_ofUnsigned ((BinaryFormat.nearest_le_infinity _ _ _).trans_lt infinity_lt)

/-- The logarithm of a positive finite number is at most `2 ^ 11`. -/
theorem log_le (hpos : zero < x) (h : x.isFinite = true) : x.log.unsigned ≤ (ofInt (2 ^ 11)).unsigned := by
  obtain ⟨_, hzero, _⟩ := zero_lt_iff.mp hpos
  rw [log_eq hpos h, unsigned_ofFixed]
  calc _ ≤ BinaryFormat.double.nearest (2 ^ 11 * FixedPoint.one * unit) FixedPoint.one :=
        BinaryFormat.nearest_mono _ (Nat.mul_le_mul_right _ (natAbs_logFixed_le h hzero))
    _ = _ := by decide +kernel

/-- The logarithm of a base is at least `2 ^ -160`. -/
theorem le_log (hbase : x.IsBase) : (ofFixed 1).unsigned ≤ x.log.unsigned := by
  obtain ⟨hpos, hone, h⟩ := hbase
  obtain ⟨hnan, hzero, hsign⟩ := zero_lt_iff.mp hpos
  have hne : x.magnitude ≠ unit := fun heq => hone ⟨hnan, by decide, by
    rw [value, hsign, heq, ← magnitude_one]
    rfl⟩
  have hlog := logFixed_ne_zero hzero hne
  rw [log_eq hpos h, unsigned_ofFixed, unsigned_ofFixed]
  exact BinaryFormat.nearest_mono _ (Nat.mul_le_mul_right _ (by omega))

/-- The logarithm of a positive number to a base is finite. -/
theorem isFinite_log_div (hpos : zero < x) (h : x.isFinite = true) (hbase : y.IsBase) :
    (x.log / y.log).isFinite = true := by
  have hnum := log_le hpos h
  have hden := le_log hbase
  have hx : x.log.isFinite = true := decide_eq_true (hnum.trans_lt (by decide +kernel))
  have hy : y.log.isFinite = true := decide_eq_true ((log_le hbase.1 hbase.2.2).trans_lt (by decide +kernel))
  have hzero : y.log.isZero = false :=
    beq_eq_false_iff_ne.mpr (Nat.ne_of_gt (Nat.lt_of_lt_of_le (by decide +kernel) hden))
  rw [isFinite_div_iff hx hy hzero]
  -- Even the greatest logarithm divided by the least one is far from the greatest number.
  calc 2 * x.log.magnitude ≤ 2 * (ofInt (2 ^ 11)).magnitude :=
        Nat.mul_le_mul_left _ (BinaryFormat.magnitude_le_magnitude_iff.mpr hnum)
    _ < (2 ^ 54 - 1) * ((ofFixed 1).magnitude * 2 ^ 971) := by decide +kernel
    _ ≤ (2 ^ 54 - 1) * (y.log.magnitude * 2 ^ 971) :=
        Nat.mul_le_mul_left _ (Nat.mul_le_mul_right _ (BinaryFormat.magnitude_le_magnitude_iff.mpr hden))

end Binary64

end RasterCategories
