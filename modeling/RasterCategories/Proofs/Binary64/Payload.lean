import RasterCategories.NanOrdinal
import RasterCategories.Proofs.Binary64.Order
/-!
# Ordinals keep their bits

The NaN of an ordinal is a narrow quiet NaN that was widened. Its payload tells the ordinal, and storing it at
half the width and reading it back gives the same bits.

* `Binary64.isNaN_ofOrdinal` and `Binary64.ofOrdinal_inj`: the NaNs of ordinals differ.
* `Binary64.widen_narrow_ofOrdinal`: they survive narrow storage.
-/

namespace RasterCategories

namespace Binary32

theorem pattern_ofPattern {n : Nat} (h : n < 2 ^ 32) : (ofPattern n).pattern = n := by
  rw [pattern, ofPattern, BitVec.toNat_ofNat, Nat.mod_eq_of_lt h]

/-- A pattern without the sign bit is that of its own number. -/
theorem unsigned_ofPattern {n : Nat} (h : n < 2 ^ 31) :
    (ofPattern n).unsigned = n ∧ (ofPattern n).isNegative = false := by
  have hpattern : (ofPattern n).pattern = n := pattern_ofPattern (by omega)
  rw [unsigned, isNegative, hpattern, decide_eq_false_iff_not]
  omega

/-- A quiet pattern stays as it is. -/
theorem makeQuiet_of_quiet {n : Nat} (h : n / quietBit % 2 ≠ 0) : makeQuiet n = n := if_neg h

end Binary32

namespace Binary64

variable {n : Nat}

/-- The narrow pattern of an ordinal is quiet, and a NaN without sign. -/
theorem quiet_ordinal (h : n ≤ maxOrdinal) :
    BinaryFormat.single.infinity < ordinalBase + n ∧ ordinalBase + n < 2 ^ 31
      ∧ (ordinalBase + n) / Binary32.quietBit % 2 ≠ 0 := by
  have hinf : BinaryFormat.single.infinity = 0x7F800000 := by decide
  rw [maxOrdinal] at h
  rw [hinf, ordinalBase, Binary32.quietBit]
  omega

/-- The NaN of an ordinal has no sign, and its payload is that of the narrow pattern. -/
theorem ofOrdinal_eq (h : n ≤ maxOrdinal) : ofOrdinal n = .ofUnsigned false
    (BinaryFormat.double.infinity + (ordinalBase + n - BinaryFormat.single.infinity) * 2 ^ 29) := by
  obtain ⟨hinfinity, hlt, hquiet⟩ := quiet_ordinal h
  obtain ⟨hunsigned, hnegative⟩ := Binary32.unsigned_ofPattern hlt
  have hnan : (Binary32.ofPattern (ordinalBase + n)).isNaN = true := by
    rw [Binary32.isNaN, hunsigned, decide_eq_true_eq]
    exact hinfinity
  rw [ofOrdinal, Binary32.widen, if_pos hnan, hunsigned, hnegative, Binary32.makeQuiet_of_quiet hquiet]

/-- The payload of the NaN of an ordinal fits below the sign bit. -/
theorem payload_lt (h : n ≤ maxOrdinal) :
    BinaryFormat.double.infinity + (ordinalBase + n - BinaryFormat.single.infinity) * 2 ^ 29 < 2 ^ 63 := by
  have hinf : BinaryFormat.single.infinity = 0x7F800000 := by decide
  have hdouble : BinaryFormat.double.infinity = 0x7FF0000000000000 := by decide
  rw [maxOrdinal] at h
  rw [hinf, hdouble, ordinalBase]
  omega

/-- The pattern of the NaN of an ordinal that fits into the payload. -/
theorem unsigned_ofOrdinal (h : n ≤ maxOrdinal) : (ofOrdinal n).unsigned =
    BinaryFormat.double.infinity + (ordinalBase + n - BinaryFormat.single.infinity) * 2 ^ 29 := by
  rw [ofOrdinal_eq h, unsigned_ofUnsigned (payload_lt h)]

/-- Ordinals that fit into the payload give NaNs. -/
theorem isNaN_ofOrdinal (h : n ≤ maxOrdinal) : (ofOrdinal n).isNaN = true := by
  have hinfinity := (quiet_ordinal h).1
  rw [isNaN, decide_eq_true_eq, unsigned_ofOrdinal h]
  omega

/-- The payload tells ordinals apart. -/
theorem ofOrdinal_inj {m : Nat} (hm : m ≤ maxOrdinal) (hn : n ≤ maxOrdinal) :
    ofOrdinal m = ofOrdinal n ↔ m = n := by
  refine ⟨fun h => ?_, congrArg _⟩
  have hunsigned := congrArg unsigned h
  have hminf := (quiet_ordinal hm).1
  have hninf := (quiet_ordinal hn).1
  rw [unsigned_ofOrdinal hm, unsigned_ofOrdinal hn] at hunsigned
  omega

/-- Narrowing the NaN of an ordinal gives the narrow NaN that was widened. -/
theorem narrow_ofOrdinal (h : n ≤ maxOrdinal) : (ofOrdinal n).narrow = .ofPattern (ordinalBase + n) := by
  obtain ⟨hinfinity, -, hquiet⟩ := quiet_ordinal h
  have hnegative : (ofOrdinal n).isNegative = false := by
    rw [ofOrdinal_eq h, isNegative_ofUnsigned (payload_lt h)]
  -- The payload is a multiple of the bits that narrowing cuts off.
  have hpayload : BinaryFormat.single.infinity
      + ((ofOrdinal n).unsigned - BinaryFormat.double.infinity) / 2 ^ 29 = ordinalBase + n := by
    rw [unsigned_ofOrdinal h, Nat.add_sub_cancel_left, Nat.mul_div_cancel _ (by decide)]
    omega
  rw [narrow, if_pos (isNaN_ofOrdinal h), hnegative, hpayload, Binary32.makeQuiet_of_quiet hquiet]
  rfl

/-- The NaN of an ordinal survives narrow storage. -/
theorem widen_narrow_ofOrdinal (h : n ≤ maxOrdinal) : (ofOrdinal n).narrow.widen = ofOrdinal n := by
  rw [narrow_ofOrdinal h]
  rfl

end Binary64

end RasterCategories
