import RasterCategories.Category.Declaration
import RasterCategories.Proofs.Binary64.Payload
/-!
# Ordinals read from NaNs

An ordinal is read from any NaN without a sign: narrowing sets the quiet bit and cuts off the low bits of the fraction,
and what is left of the fraction is the ordinal. Several NaNs are therefore read as one ordinal, and exactly one of
them, the quiet one without low bits, is the NaN that is written for it.

* `Binary64.payload`: the bits of the fraction that are read.
* `Binary64.checkedOrdinal_eq`: what is read from each pattern.
* `Binary64.eq_ofOrdinal_payload_iff`: the NaNs that are written for the ordinal read from them.
* `Binary64.ordinal_laws`: reading and writing together.
-/

namespace RasterCategories.Binary64

variable {x : Binary64} {n : Nat}

/-- The quiet bit, which is the first bit of the fraction. -/
def isQuiet (x : Binary64) : Bool := x.unsigned / 2 ^ 51 % 2 = 1

/-- The bits of the fraction that have a place in the narrow format, without the quiet bit. -/
def payload (x : Binary64) : Nat := x.unsigned / 2 ^ 29 % 2 ^ 22

/-- The bits of the fraction that have no place in the narrow format. -/
def lowBits (x : Binary64) : Nat := x.unsigned % 2 ^ 29

theorem payload_le_maxOrdinal (x : Binary64) : x.payload ≤ maxOrdinal :=
  Nat.le_of_lt_succ (Nat.mod_lt _ (by decide))

/-- Narrowing a NaN keeps the sign and the payload, and sets the quiet bit. -/
theorem pattern_narrow (hx : x.isNaN = true) :
    x.narrow.pattern = (if x.isNegative then 2 ^ 31 else 0) + (ordinalBase + x.payload) := by
  have hlt := x.unsigned_lt
  have hsingle : BinaryFormat.single.infinity = 0x7F800000 := by decide
  have hdouble : BinaryFormat.double.infinity = 0x7FF0000000000000 := by decide
  have hnan : BinaryFormat.double.infinity < x.unsigned := of_decide_eq_true hx
  -- The quiet bit is above the payload, so setting it is an addition or nothing.
  have hquiet : Binary32.makeQuiet (BinaryFormat.single.infinity
      + (x.unsigned - BinaryFormat.double.infinity) / 2 ^ 29) = ordinalBase + x.payload := by
    rw [hdouble] at hnan
    rw [hsingle, hdouble, Binary32.makeQuiet, Binary32.quietBit, ordinalBase, payload]
    split <;> omega
  have hpayload := x.payload_le_maxOrdinal
  rw [maxOrdinal] at hpayload
  rw [narrow, if_pos hx, hquiet, Binary32.ofUnsigned, ordinalBase]
  split
  · exact Binary32.pattern_ofPattern (by omega)
  · rw [Binary32.pattern_ofPattern (by omega), Nat.zero_add]

/-- The payload of a NaN without a sign is its ordinal. -/
theorem ordinal?_of_isNaN (hx : x.isNaN = true) :
    x.ordinal? = if x.isNegative then none else some x.payload := by
  have hpayload := x.payload_le_maxOrdinal
  rw [ordinal?, pattern_narrow hx]
  cases x.isNegative with
  -- With the sign bit the narrow pattern is above those of all ordinals.
  | true =>
    rw [if_pos rfl, if_pos rfl, ordinalBase]
    rw [maxOrdinal] at hpayload ⊢
    exact if_neg (by omega)
  | false =>
    rw [if_neg Bool.false_ne_true, if_neg Bool.false_ne_true, Nat.zero_add,
      if_pos ⟨hx, Nat.le_add_right _ _, Nat.add_le_add_left hpayload _⟩, Nat.add_sub_cancel_left]

/-- What is read from each pattern. -/
theorem checkedOrdinal_eq (x : Binary64) : x.checkedOrdinal =
    if x.isNaN then (if x.isNegative then .error (.noOrdinal x.narrow) else .ok x.payload)
    else .error (.notNaN x) := by
  unfold checkedOrdinal
  split
  · next hx =>
    rw [ordinal?_of_isNaN hx]
    cases x.isNegative <;> rfl
  · rfl

/-- An ordinal that fits into the payload is written as its NaN. -/
theorem checkedOfOrdinal_natCast (h : n ≤ maxOrdinal) : checkedOfOrdinal n = .ok (ofOrdinal n) := by
  rw [checkedOfOrdinal, if_pos (by omega), Int.toNat_natCast]

/-- The NaN of an ordinal is quiet and has no sign and no low bits, and its payload is the ordinal. -/
theorem fields_ofOrdinal (h : n ≤ maxOrdinal) : (ofOrdinal n).isNegative = false
    ∧ (ofOrdinal n).isQuiet = true ∧ (ofOrdinal n).payload = n ∧ (ofOrdinal n).lowBits = 0 := by
  have hsingle : BinaryFormat.single.infinity = 0x7F800000 := by decide
  have hdouble : BinaryFormat.double.infinity = 0x7FF0000000000000 := by decide
  have hsign : (ofOrdinal n).isNegative = false := by
    rw [ofOrdinal_eq h, isNegative_ofUnsigned (payload_lt h)]
  rw [isQuiet, payload, lowBits, decide_eq_true_eq, unsigned_ofOrdinal h, hsingle, hdouble, ordinalBase]
  rw [maxOrdinal] at h
  exact ⟨hsign, by omega⟩

/-- A NaN without a sign is given by its quiet bit, its payload and its low bits. -/
theorem unsigned_of_isNaN (hx : x.isNaN = true) : x.unsigned = BinaryFormat.double.infinity
    + (if x.isQuiet then 2 ^ 51 else 0) + x.payload * 2 ^ 29 + x.lowBits := by
  have hlt := x.unsigned_lt
  have hdouble : BinaryFormat.double.infinity = 0x7FF0000000000000 := by decide
  have hnan : BinaryFormat.double.infinity < x.unsigned := of_decide_eq_true hx
  rw [hdouble] at hnan
  rw [hdouble, payload, lowBits]
  simp only [isQuiet, decide_eq_true_eq]
  split <;> omega

/-- Of the NaNs from which an ordinal is read, the quiet one without low bits is written for it. -/
theorem eq_ofOrdinal_payload_iff (hx : x.isNaN = true) (hsign : x.isNegative = false) :
    x = ofOrdinal x.payload ↔ x.isQuiet = true ∧ x.lowBits = 0 := by
  obtain ⟨hsign', hquiet, hpayload, hlow⟩ := fields_ofOrdinal x.payload_le_maxOrdinal
  constructor
  · intro h
    rw [h]
    exact ⟨hquiet, hlow⟩
  · rintro ⟨hxquiet, hxlow⟩
    have hnan := isNaN_ofOrdinal x.payload_le_maxOrdinal
    refine ext_of_unsigned (hsign.trans hsign'.symm) ?_
    rw [unsigned_of_isNaN hx, unsigned_of_isNaN hnan, hxquiet, hquiet, hpayload, hxlow, hlow]

/-- An ordinal is read from its NaN. -/
theorem checkedOrdinal_ofOrdinal (h : n ≤ maxOrdinal) : (ofOrdinal n).checkedOrdinal = .ok n := by
  obtain ⟨hsign, -, hpayload, -⟩ := fields_ofOrdinal h
  rw [checkedOrdinal_eq, if_pos (isNaN_ofOrdinal h), hsign, if_neg Bool.false_ne_true, hpayload]

/-- It is read from the narrow NaN too. -/
theorem checkedOrdinal_narrow_ofOrdinal (h : n ≤ maxOrdinal) :
    (ofOrdinal n).narrow.checkedOrdinal = .ok n := by
  have hnan : (ofOrdinal n).narrow.isNaN = true := by
    obtain ⟨hinfinity, hlt, -⟩ := quiet_ordinal h
    rw [narrow_ofOrdinal h, Binary32.isNaN, (Binary32.unsigned_ofPattern hlt).1, decide_eq_true_eq]
    exact hinfinity
  rw [Binary32.checkedOrdinal, if_pos hnan, widen_narrow_ofOrdinal h, checkedOrdinal_ofOrdinal h]

/-- What is read from a pattern. -/
structure ReadsOrdinal (x : Binary64) : Prop where
  /-- Nothing is read exactly from numbers and from NaNs with a sign. -/
  refused : (∃ e, x.checkedOrdinal = .error e) ↔ x.isNaN = false ∨ x.isNegative = true
  /-- The error shows the number, or the narrow pattern of the NaN. -/
  cause : ∀ e, x.checkedOrdinal = .error e → e = if x.isNaN then .noOrdinal x.narrow else .notNaN x
  /-- From every other NaN its payload is read. The NaN is the one written for this ordinal exactly if it is quiet
  and has no low bits. -/
  read : x.isNaN = true → x.isNegative = false → ∃ n, x.checkedOrdinal = .ok n ∧ n = x.payload ∧ n ≤ 0x3FFFFF
    ∧ ∃ y, checkedOfOrdinal n = .ok y ∧ (y = x ↔ x.isQuiet = true ∧ x.lowBits = 0)

/-- What is written for an integer. -/
structure WritesOrdinal (n : Int) : Prop where
  /-- Nothing is written exactly for integers that do not fit into the payload. -/
  refused : (∃ e, checkedOfOrdinal n = .error e) ↔ n < 0 ∨ 0x3FFFFF < n
  /-- The error shows the integer. -/
  cause : ∀ e, checkedOfOrdinal n = .error e → e = .ordinalRange n
  /-- For every other integer a NaN is written from which it is read, as it is, in the narrow format, and back from
  the narrow format, in which it keeps its bits. -/
  written : 0 ≤ n → n ≤ 0x3FFFFF → ∃ x, checkedOfOrdinal n = .ok x ∧ x.checkedOrdinal = .ok n.toNat
    ∧ x.narrow.checkedOrdinal = .ok n.toNat ∧ x.narrow.widen.checkedOrdinal = .ok n.toNat
    ∧ x.narrow.widen = x

theorem readsOrdinal (x : Binary64) : x.ReadsOrdinal := by
  have hread := x.checkedOrdinal_eq
  cases hx : x.isNaN with
  | false =>
    rw [hx, if_neg Bool.false_ne_true] at hread
    refine ⟨by simp [hread, hx], fun e he => ?_, fun hnan => by simp [hx] at hnan⟩
    rw [hx, if_neg Bool.false_ne_true]
    exact (Except.error.inj (hread.symm.trans he)).symm
  | true =>
    rw [hx, if_pos rfl] at hread
    cases hsign : x.isNegative with
    | true =>
      rw [hsign, if_pos rfl] at hread
      refine ⟨by simp [hread, hsign], fun e he => ?_, fun _ hplus => by simp [hsign] at hplus⟩
      rw [hx, if_pos rfl]
      exact (Except.error.inj (hread.symm.trans he)).symm
    | false =>
      rw [hsign, if_neg Bool.false_ne_true] at hread
      refine ⟨by simp [hread, hx, hsign], fun e he => by simp [hread] at he, fun _ _ => ?_⟩
      refine ⟨x.payload, hread, rfl, x.payload_le_maxOrdinal, _,
        checkedOfOrdinal_natCast x.payload_le_maxOrdinal, ?_⟩
      rw [eq_comm]
      exact eq_ofOrdinal_payload_iff hx hsign

theorem writesOrdinal (n : Int) : WritesOrdinal n := by
  by_cases hn : 0 ≤ n ∧ n ≤ 0x3FFFFF
  · obtain ⟨k, rfl⟩ := Int.eq_ofNat_of_zero_le hn.1
    have hk : k ≤ maxOrdinal := by
      rw [maxOrdinal]
      omega
    have hwrite := checkedOfOrdinal_natCast hk
    refine ⟨?_, fun e he => by simp [hwrite] at he, fun _ _ => ?_⟩
    · simp only [hwrite, reduceCtorEq, exists_false, false_iff]
      omega
    · exact ⟨ofOrdinal k, hwrite, checkedOrdinal_ofOrdinal hk, checkedOrdinal_narrow_ofOrdinal hk,
        by rw [widen_narrow_ofOrdinal hk, checkedOrdinal_ofOrdinal hk, Int.toNat_natCast],
        widen_narrow_ofOrdinal hk⟩
  · have hwrite : checkedOfOrdinal n = .error (.ordinalRange n) := if_neg hn
    refine ⟨?_, fun e he => (Except.error.inj (hwrite.symm.trans he)).symm, fun h0 h1 => absurd ⟨h0, h1⟩ hn⟩
    simp only [hwrite, Except.error.injEq, exists_eq', true_iff]
    omega

/-- Ordinals are read from the NaNs without a sign, and each is written as one of those from which it is read: the
quiet one that loses nothing in the narrow format. Integers that do not fit into the payload are refused. -/
theorem ordinal_laws : (∀ x : Binary64, x.ReadsOrdinal) ∧ ∀ n : Int, WritesOrdinal n :=
  ⟨readsOrdinal, writesOrdinal⟩

/-- Three is read from a signalling NaN, which is not the NaN that is written for three. Nothing is read from the
default NaN of an invalid operation, which has a sign, and nothing is written for an integer of 23 bits. -/
theorem ordinal_laws_signalling :
    (∃ y, (ofPattern 0x7FF0000060000000).checkedOrdinal = .ok 3 ∧ checkedOfOrdinal 3 = .ok y
      ∧ y ≠ ofPattern 0x7FF0000060000000 ∧ y.narrow.widen = y)
    ∧ (∃ e, (ofPattern 0xFFF8000000000000).checkedOrdinal = .error e)
    ∧ ∃ e, checkedOfOrdinal 0x400000 = .error e := by
  obtain ⟨hreads, hwrites⟩ := ordinal_laws
  obtain ⟨n, hread, hn, -, y, hwrite, hsame⟩ :=
    (hreads (ofPattern 0x7FF0000060000000)).read (by decide) (by decide)
  obtain rfl : n = 3 := hn.trans (by decide)
  obtain ⟨z, hz, -, -, -, hnarrow⟩ := (hwrites 3).written (by decide) (by decide)
  obtain rfl : y = z := Except.ok.inj (hwrite.symm.trans hz)
  have hquiet : (ofPattern 0x7FF0000060000000).isQuiet = false := by decide
  refine ⟨⟨y, hread, hwrite, fun h => ?_, hnarrow⟩, (hreads _).refused.mpr (Or.inr (by decide)),
    (hwrites _).refused.mpr (Or.inr (by decide))⟩
  exact absurd (hsame.mp h).1 (by simp [hquiet])

end RasterCategories.Binary64
