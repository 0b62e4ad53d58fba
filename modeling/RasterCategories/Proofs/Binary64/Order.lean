import Mathlib.Order.Monotone.Basic
import Mathlib.Tactic.Common
import RasterCategories.Binary64.Order
/-!
# Places in the total order

The total order of bit patterns is the order of one integer for each pattern, its place. Numbers have the
places below `2 ^ 63`, NaNs those from there on; negative zero is at minus one and positive zero at zero.
All comparisons are read off places, so that facts about them are linear arithmetic:

* `compare_eq`: the total order compares places;
* `lt_iff_place`, `le_iff_place` and `equalTo_iff_place`: the comparisons of IEEE 754 do so too, except that
  they take the two zeros for one;
* `toInt_orderKey`: the signed key of a number is its place;
* `pairwise_sortBy`: sorting by a key arranges the places of the keys.
-/

namespace RasterCategories

namespace BinaryFormat

variable {f : BinaryFormat} {p q : Nat}

/-- Unsigned patterns are ordered as their magnitudes. -/
theorem magnitude_lt_magnitude (h : p < q) : f.magnitude p < f.magnitude q := by
  have hw : 0 < 2 ^ f.fractionBits := Nat.two_pow_pos _
  unfold magnitude
  generalize 2 ^ f.fractionBits = w at hw ⊢
  split
  · next hp =>
    split
    · exact h
    · next hq =>
      calc p < w + q % w := by omega
        _ ≤ (w + q % w) * 2 ^ (q / w - 1) := Nat.le_mul_of_pos_right _ (Nat.two_pow_pos _)
  · next hp =>
    have hq : ¬ q < w := by omega
    rw [if_neg hq]
    have hdiv : p / w ≤ q / w := Nat.div_le_div_right h.le
    have hmod := Nat.mod_lt p hw
    rcases Nat.lt_or_eq_of_le hdiv with hlt | heq
    -- The larger exponent outweighs every fraction.
    · have hone : 1 ≤ p / w := (Nat.one_le_div_iff hw).mpr (by omega)
      calc (w + p % w) * 2 ^ (p / w - 1) < (w * 2) * 2 ^ (p / w - 1) :=
            Nat.mul_lt_mul_of_pos_right (by omega) (Nat.two_pow_pos _)
        _ = w * 2 ^ (p / w - 1 + 1) := by rw [Nat.mul_assoc, ← Nat.pow_succ']
        _ ≤ (w + q % w) * 2 ^ (q / w - 1) :=
            Nat.mul_le_mul (by omega) (Nat.pow_le_pow_right (by omega) (by omega))
    -- At equal exponents the fractions decide.
    · have hp' := Nat.div_add_mod p w
      have hq' := Nat.div_add_mod q w
      rw [← heq] at hq' ⊢
      exact Nat.mul_lt_mul_of_pos_right (by omega) (Nat.two_pow_pos _)

theorem magnitude_le_magnitude_iff : f.magnitude p ≤ f.magnitude q ↔ p ≤ q := by
  constructor
  · intro h
    by_contra hlt
    exact absurd (magnitude_lt_magnitude (f := f) (Nat.lt_of_not_le hlt)) (by omega)
  · intro h
    rcases Nat.lt_or_eq_of_le h with hlt | rfl
    · exact (magnitude_lt_magnitude hlt).le
    · exact le_rfl

@[simp]
theorem magnitude_zero : f.magnitude 0 = 0 := by
  simp [magnitude]

end BinaryFormat

namespace Binary64

variable {x y : Binary64}

theorem unsigned_lt (x : Binary64) : x.unsigned < 2 ^ 63 := Nat.mod_lt _ (by decide)

/-- The pattern is the sign bit above the unsigned pattern. -/
theorem pattern_eq (x : Binary64) :
    x.pattern = (if x.isNegative then 2 ^ 63 else 0) + x.unsigned := by
  have h : x.pattern < 2 ^ 64 := x.bits.isLt
  -- The sign is the bit of weight `2 ^ 63`, and the unsigned pattern is the rest.
  unfold isNegative unsigned
  split
  · next hs =>
    have := of_decide_eq_true hs
    omega
  · next hs =>
    have := of_decide_eq_false (Bool.eq_false_iff.mpr hs)
    omega

/-- A number is given by its sign bit and its unsigned pattern. -/
theorem ext_of_unsigned (hs : x.isNegative = y.isNegative) (hu : x.unsigned = y.unsigned) :
    x = y := by
  have h : x.pattern = y.pattern := by rw [pattern_eq, pattern_eq, hs, hu]
  obtain ⟨⟨a⟩⟩ := x
  obtain ⟨⟨b⟩⟩ := y
  exact congrArg _ (BitVec.eq_of_toNat_eq h)

@[simp]
theorem unsigned_ofUnsigned {negative : Bool} {n : Nat} (h : n < 2 ^ 63) :
    (ofUnsigned negative n).unsigned = n := by
  unfold ofUnsigned unsigned
  split <;> rw [pattern_ofPattern (by omega)] <;> omega

@[simp]
theorem isNegative_ofUnsigned {negative : Bool} {n : Nat} (h : n < 2 ^ 63) :
    (ofUnsigned negative n).isNegative = negative := by
  unfold ofUnsigned isNegative
  cases negative <;> simp only [Bool.false_eq_true, if_false, if_true] <;>
    rw [pattern_ofPattern (by omega)]
  · exact decide_eq_false (by omega)
  · exact decide_eq_true (by omega)

/-- The signed pattern, from the sign bit and the unsigned pattern. -/
theorem signedBits_eq (x : Binary64) :
    x.signedBits = (if x.isNegative then -2 ^ 63 else 0) + (x.unsigned : Int) := by
  have h := x.pattern_eq
  rw [pattern] at h
  rw [signedBits, BitVec.toInt_eq_toNat_cond, h]
  have hu := x.unsigned_lt
  cases x.isNegative <;> simp only [Bool.false_eq_true, if_false, if_true] <;> split <;> omega

/-! ### Places -/

/-- The place of a pattern in the total order. -/
def place (x : Binary64) : Int :=
  if x.isNaN then 2 ^ 64 + x.signedBits
  else if x.isNegative then -1 - (x.unsigned : Int)
  else x.unsigned

theorem infinity_lt : BinaryFormat.double.infinity < 2 ^ 63 := by decide

theorem isNaN_eq_false_iff : x.isNaN = false ↔ x.unsigned ≤ BinaryFormat.double.infinity := by
  rw [isNaN, decide_eq_false_iff_not, not_lt]

/-- NaNs have the places from `2 ^ 63` on. -/
theorem isNaN_iff_place : x.isNaN = true ↔ 2 ^ 63 ≤ x.place := by
  have hu := x.unsigned_lt
  have hs := x.signedBits_eq
  unfold place
  split
  · next h => simp only [h, true_iff]; rw [hs]; split <;> omega
  · next h => simp only [h]; split <;> simp <;> omega

theorem isNaN_eq_false_iff_place : x.isNaN = false ↔ x.place < 2 ^ 63 := by
  rw [← Bool.not_eq_true, isNaN_iff_place, not_le]

/-- Different patterns have different places. -/
theorem place_injective : Function.Injective place := by
  intro x y h
  have hx := x.unsigned_lt
  have hy := y.unsigned_lt
  have hnan : x.isNaN = y.isNaN := by
    rw [Bool.eq_iff_iff, isNaN_iff_place, isNaN_iff_place, h]
  unfold place at h
  rw [← hnan, signedBits_eq, signedBits_eq] at h
  -- Both are NaNs or neither is, and in each kind the place gives the sign and the unsigned pattern.
  apply ext_of_unsigned
  all_goals cases hsx : x.isNegative <;> cases hsy : y.isNegative <;> simp only [hsx, hsy] at h ⊢
  all_goals split at h <;> simp at h <;> omega

theorem place_inj : x.place = y.place ↔ x = y := place_injective.eq_iff

/-- The total order is the order of places. -/
theorem compare_eq (x y : Binary64) : x.compare y = Ord.compare x.place y.place := by
  have hx := @isNaN_iff_place x
  have hy := @isNaN_iff_place y
  unfold compare rank
  cases hnx : x.isNaN <;> cases hny : y.isNaN
  · simp only [Bool.false_eq_true, if_false, place, hnx, hny]
    cases x.isNegative <;> cases y.isNegative <;> rfl
  -- A number against a NaN is decided by the first component of the ranks alone.
  · have hlt : x.place < y.place := by simp_all; omega
    rw [Int.compare_eq_lt.mpr hlt]
    cases hs : x.isNegative <;> simp <;> rfl
  · have hlt : y.place < x.place := by simp_all; omega
    rw [Int.compare_eq_gt.mpr hlt]
    cases hs : y.isNegative <;> simp <;> rfl
  · simp only [if_true, place, hnx, hny]
    show Ord.compare x.signedBits y.signedBits = _
    rcases lt_trichotomy x.signedBits y.signedBits with h | h | h
    · rw [Int.compare_eq_lt.mpr h, Int.compare_eq_lt.mpr (by omega)]
    · rw [h, Int.compare_eq_eq.mpr rfl, Int.compare_eq_eq.mpr rfl]
    · rw [Int.compare_eq_gt.mpr h, Int.compare_eq_gt.mpr (by omega)]

theorem compare_eq_gt_iff : x.compare y = .gt ↔ y.place < x.place := by
  rw [compare_eq, Int.compare_eq_gt]

theorem compare_eq_lt_iff : x.compare y = .lt ↔ x.place < y.place := by
  rw [compare_eq, Int.compare_eq_lt]

/-! ### Zeros -/

@[simp]
theorem place_zero : zero.place = 0 := rfl

@[simp]
theorem place_negZero : negZero.place = -1 := rfl

/-- A zero has one of two places. -/
theorem isZero_iff_place : x.isZero = true ↔ x.place = 0 ∨ x.place = -1 := by
  rw [isZero, beq_iff_eq]
  cases hx : x.isNaN
  · simp only [place, hx, Bool.false_eq_true, if_false]
    cases x.isNegative <;> simp only [Bool.false_eq_true, if_false, if_true] <;> omega
  · have hplace := isNaN_iff_place.mp hx
    have hu : ¬ x.unsigned ≤ BinaryFormat.double.infinity := by
      rw [← isNaN_eq_false_iff, hx]
      simp
    omega

/-- There are two zeros. -/
theorem isZero_iff : x.isZero = true ↔ x = zero ∨ x = negZero := by
  rw [isZero_iff_place, ← place_zero, ← place_negZero, place_inj, place_inj]

theorem isZero_of_isNaN (h : x.isNaN = true) : x.isZero = false := by
  rw [isNaN_iff_place] at h
  rw [Bool.eq_false_iff, ne_eq, isZero_iff_place]
  omega

/-! ### The comparisons of IEEE 754 -/

theorem magnitude_eq_zero_iff (x : Binary64) : x.magnitude = 0 ↔ x.unsigned = 0 := by
  have h := BinaryFormat.magnitude_le_magnitude_iff (f := .double) (p := x.unsigned) (q := 0)
  rw [BinaryFormat.magnitude_zero, Nat.le_zero, Nat.le_zero] at h
  exact h

/-- Values are ordered as places, and the values of the two zeros are equal. -/
theorem value_le_value_iff_place (hx : x.isNaN = false) (hy : y.isNaN = false) :
    x.value ≤ y.value ↔ x.place ≤ y.place ∨ x.place = 0 ∧ y.place = -1 := by
  have hle : x.magnitude ≤ y.magnitude ↔ x.unsigned ≤ y.unsigned :=
    BinaryFormat.magnitude_le_magnitude_iff
  have hge : y.magnitude ≤ x.magnitude ↔ y.unsigned ≤ x.unsigned :=
    BinaryFormat.magnitude_le_magnitude_iff
  have hzx := x.magnitude_eq_zero_iff
  have hzy := y.magnitude_eq_zero_iff
  simp only [value, place, hx, hy, Bool.false_eq_true, if_false]
  -- Magnitudes of equal sign compare as unsigned patterns; between signs only two zeros can tie.
  cases x.isNegative <;> cases y.isNegative <;> simp only [if_true, if_false, Bool.false_eq_true]
  all_goals omega

theorem le_iff_place :
    x ≤ y ↔ x.place < 2 ^ 63 ∧ y.place < 2 ^ 63 ∧
      (x.place ≤ y.place ∨ x.place = 0 ∧ y.place = -1) := by
  rw [le_iff, ← isNaN_eq_false_iff_place, ← isNaN_eq_false_iff_place]
  refine and_congr_right fun hx => and_congr_right fun hy => ?_
  exact value_le_value_iff_place hx hy

theorem lt_iff_place :
    x < y ↔ y.place < 2 ^ 63 ∧ x.place < y.place ∧ ¬ (x.place = -1 ∧ y.place = 0) := by
  rw [lt_iff, isNaN_eq_false_iff_place, isNaN_eq_false_iff_place]
  -- `<` is the negation of the reversed `≤`, but only between numbers.
  by_cases hx : x.place < 2 ^ 63 <;> by_cases hy : y.place < 2 ^ 63
  · have h := value_le_value_iff_place (isNaN_eq_false_iff_place.mpr hy)
      (isNaN_eq_false_iff_place.mpr hx)
    omega
  all_goals omega

theorem equalTo_iff_place :
    x.EqualTo y ↔ x.place < 2 ^ 63 ∧ y.place < 2 ^ 63 ∧
      (x.place = y.place ∨ x.place = 0 ∧ y.place = -1 ∨ x.place = -1 ∧ y.place = 0) := by
  -- Equal values are below each other in both directions.
  have hle := @le_iff_place x y
  have hge := @le_iff_place y x
  rw [le_iff] at hle hge
  unfold EqualTo
  rw [isNaN_eq_false_iff_place, isNaN_eq_false_iff_place] at *
  omega

/-- A number is at most another one if it is below it or equal to it. -/
theorem le_iff_lt_or_equalTo : x ≤ y ↔ x < y ∨ x.EqualTo y := by
  rw [le_iff_place, lt_iff_place, equalTo_iff_place]
  omega

/-! ### Signed keys -/

/-- Flipping all bits but the top one complements the rest of a pattern that has the top bit. -/
private theorem xor_low_bits {u : Nat} (h : u < 2 ^ 63) :
    (2 ^ 63 + u) ^^^ (2 ^ 63 - 1) = 2 ^ 64 - 1 - u := by
  have hlow : u ^^^ (2 ^ 63 - 1) = 2 ^ 63 - 1 - u := by
    have hnot := @BitVec.toNat_not 63 (BitVec.ofNat 63 u)
    rw [← BitVec.xor_allOnes, BitVec.toNat_xor, BitVec.toNat_allOnes, BitVec.toNat_ofNat,
      Nat.mod_eq_of_lt h] at hnot
    exact hnot
  have hmod := Nat.xor_mod_two_pow (a := 2 ^ 63 + u) (b := 2 ^ 63 - 1) (n := 63)
  have hdiv := Nat.xor_div_two_pow (a := 2 ^ 63 + u) (b := 2 ^ 63 - 1) (n := 63)
  rw [show (2 ^ 63 + u) % 2 ^ 63 = u by omega, show (2 ^ 63 - 1) % 2 ^ 63 = 2 ^ 63 - 1 by rfl,
    hlow] at hmod
  rw [show (2 ^ 63 + u) / 2 ^ 63 = 1 by omega, show (2 ^ 63 - 1) / 2 ^ 63 = 0 by rfl,
    Nat.xor_zero] at hdiv
  omega

/-- The signed key of a number is its place. -/
theorem toInt_orderKey (hx : x.isNaN = false) : x.orderKey.toInt = x.place := by
  have hu := x.unsigned_lt
  have hp := x.pattern_eq
  have hmsb : x.bits.msb = x.isNegative := BitVec.msb_eq_decide _
  rw [pattern] at hp
  simp only [place, hx, Bool.false_eq_true, if_false]
  unfold orderKey
  rw [hmsb, BitVec.toInt_eq_toNat_cond]
  cases hs : x.isNegative <;> simp only [hs, Bool.false_eq_true, if_false, if_true] at hp ⊢
  · rw [hp]
    split <;> omega
  -- The flipped bits count the unsigned pattern down from the greatest key of a negative number.
  · rw [BitVec.toNat_xor, hp, show (0x7FFFFFFFFFFFFFFF#64).toNat = 2 ^ 63 - 1 by rfl,
      xor_low_bits hu]
    split <;> omega

/-- NaNs are ordered by their signed patterns. -/
theorem signedBits_lt_iff_place (hx : x.isNaN = true) (hy : y.isNaN = true) :
    x.signedBits < y.signedBits ↔ x.place < y.place := by
  simp only [place, hx, hy, if_true]
  omega

end Binary64

/-! ### Sorting -/

section Sorting

variable {α : Type u} {β : Type v} {key : α → Binary64}

/-- An element is inserted where its key belongs. -/
theorem pairwise_insertBy (a : α) {as : List α}
    (h : as.Pairwise fun b c => (key b).place ≤ (key c).place) :
    (insertBy key a as).Pairwise fun b c => (key b).place ≤ (key c).place := by
  induction as with
  | nil => exact List.pairwise_singleton _ _
  | cons b bs ih =>
    obtain ⟨hb, hbs⟩ := List.pairwise_cons.mp h
    rw [insertBy]
    split
    · next hgt =>
      have hba : (key b).place < (key a).place := Binary64.compare_eq_gt_iff.mp hgt
      refine List.pairwise_cons.mpr ⟨fun c hc => ?_, ih hbs⟩
      rcases List.mem_cons.mp ((insertBy_perm key a bs).mem_iff.mp hc) with rfl | hc
      · exact hba.le
      · exact hb c hc
    · next hgt =>
      have hab : (key a).place ≤ (key b).place := not_lt.mp (mt Binary64.compare_eq_gt_iff.mpr hgt)
      refine List.pairwise_cons.mpr ⟨fun c hc => ?_, h⟩
      rcases List.mem_cons.mp hc with rfl | hc
      · exact hab
      · exact hab.trans (hb c hc)

/-- Sorting arranges elements in the total order of their keys. -/
theorem pairwise_sortBy (as : List α) :
    (sortBy key as).Pairwise fun b c => (key b).place ≤ (key c).place := by
  induction as with
  | nil => exact List.Pairwise.nil
  | cons a as ih => exact pairwise_insertBy a ih

/-- Elements that are in order already stay where they are. -/
theorem sortBy_eq_self {as : List α} (h : as.Pairwise fun b c => (key b).place ≤ (key c).place) :
    sortBy key as = as := by
  induction as with
  | nil => rfl
  | cons a as ih =>
    obtain ⟨ha, has⟩ := List.pairwise_cons.mp h
    show insertBy key a (sortBy key as) = a :: as
    rw [ih has]
    cases as with
    | nil => rfl
    | cons b bs =>
      have hle : ¬ (key a).compare (key b) = .gt :=
        mt Binary64.compare_eq_gt_iff.mp (not_lt.mpr (ha b List.mem_cons_self))
      rw [insertBy, if_neg hle]

theorem insertBy_map (key : β → Binary64) (f : α → β) (a : α) (as : List α) :
    insertBy key (f a) (as.map f) = (insertBy (fun a => key (f a)) a as).map f := by
  induction as with
  | nil => rfl
  | cons b bs ih =>
    rw [List.map_cons, insertBy, insertBy]
    split
    · rw [ih, List.map_cons]
    · rfl

/-- Sorting depends on the keys alone. -/
theorem sortBy_map (key : β → Binary64) (f : α → β) (as : List α) :
    sortBy key (as.map f) = (sortBy (fun a => key (f a)) as).map f := by
  induction as with
  | nil => rfl
  | cons a as ih =>
    show insertBy key (f a) (sortBy key (as.map f)) = _
    rw [ih, insertBy_map]
    rfl

end Sorting

end RasterCategories
