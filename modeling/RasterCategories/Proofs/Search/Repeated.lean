import RasterCategories.Proofs.Search.Elementwise
import RasterCategories.Proofs.Search.Zeros
/-!
# Least values that repeat

The bounds of an interval are compared as numbers, so an interval may run from positive zero to negative zero.
The side after it may start at positive zero again. Of the sides that start at the bits of a value the binary
search meets any, while the search by rank counts them all and arrives at the last one.

* `SearchTable.Ordered.eq_zero_of_repeated`: only positive zero is the least value of two sides.
* `SearchTable.Locates`: a position found by rank, in terms of the search for the value alone.
* `SearchTable.Ordered.locates_locate`: every position found by rank in an ordered table is of this kind.
-/

namespace RasterCategories.SearchTable

variable {t : SearchTable} {x : Binary64} {i j k : Nat}

namespace Ordered

/-- Only positive zero is the least value of two sides. -/
theorem eq_zero_of_repeated (ht : t.Ordered) (hi : t.lows[i]? = some x) (hj : t.lows[j]? = some x)
    (hij : i < j) : x = .zero := by
  obtain ⟨a, ha, halow⟩ := getElem?_lows.mp hi
  obtain ⟨b, hb, hblow⟩ := getElem?_lows.mp hj
  have hsep := ht.high_lt_low ha hb hij
  have hplaces := ht.places ha
  rw [halow] at hplaces
  rw [hblow] at hsep
  rw [← Binary64.place_inj, Binary64.place_zero]
  omega

/-- A NaN is the least value of at most one side. -/
theorem leastOnce_of_isNaN (ht : t.Ordered) (hx : x.isNaN = true) : t.LeastOnce x := by
  intro i j hi hj
  rcases Nat.lt_trichotomy i j with hij | hij | hij
  · rw [ht.eq_zero_of_repeated hi hj hij] at hx
    exact absurd hx (by decide)
  · exact hij
  · rw [ht.eq_zero_of_repeated hj hi hij] at hx
    exact absurd hx (by decide)

/-- Of the sides that start at a value there is a last one. -/
theorem exists_last (ht : t.Ordered) (hi : t.lows[i]? = some x) :
    ∃ k, i ≤ k ∧ t.lows[k]? = some x ∧ ∀ j, k < j → t.lows[j]? ≠ some x := by
  -- The sides up to the rank are those that start at or below the value.
  obtain ⟨s, hs, hlow⟩ := getElem?_lows.mp hi
  have hirank : i < t.rank x := (ht.lt_rank_iff hs).mpr (by rw [hlow])
  have hlen := rank_le_length (t := t) (x := x)
  obtain ⟨b, hb⟩ : ∃ b, t.sides[t.rank x - 1]? = some b :=
    ⟨_, List.getElem?_eq_getElem (by omega)⟩
  refine ⟨t.rank x - 1, by omega, getElem?_lows.mpr ⟨b, hb, ?_⟩, fun j hj hlast => ?_⟩
  · have hle := (ht.lt_rank_iff (x := x) hb).mp (by omega)
    rcases Nat.lt_or_eq_of_le (show i ≤ t.rank x - 1 by omega) with hlt | heq
    · have hge := ht.low_le_low hs hb hlt
      rw [hlow] at hge
      exact Binary64.place_injective (by omega)
    · rw [← heq, hs] at hb
      rw [← Option.some.inj hb, hlow]
  · obtain ⟨a, ha, halow⟩ := getElem?_lows.mp hlast
    have := (ht.lt_rank_iff ha).mpr (Binary64.place_inj.mpr halow).le
    omega

/-- A least value is located at the last side that starts there. -/
theorem locate_of_last (ht : t.Ordered) (hk : t.lows[k]? = some x)
    (hlast : ∀ j, k < j → t.lows[j]? ≠ some x) : t.locate x = k := by
  obtain ⟨s, hs, hlow⟩ := getElem?_lows.mp hk
  unfold locate
  cases hx : x.isNaN with
  | true =>
    rw [if_pos rfl]
    exact ht.locateNaN_of_least hx (ht.leastOnce_of_isNaN hx) hs hlow
  | false =>
    have hcount : k < t.intervalCount := (ht.lt_intervalCount_iff hs).mpr (hlow ▸ hx)
    have hle : x ≤ s.high := by
      have hplaces := ht.places hs
      rw [hlow] at hplaces
      rw [Binary64.isNaN_eq_false_iff_place] at hx
      exact Binary64.le_iff_place.mpr (by omega)
    rw [if_neg Bool.false_ne_true, if_neg (by omega)]
    exact ht.locateNumber_of_le_high hx hs (ht.rank_of_last hs hlow hlast) hle

/-- The owner of a least value starts there. -/
theorem exists_owner_of_least (ht : t.Ordered) (hj : t.lows[j]? = some x) :
    ∃ i, t.owner? x = some i ∧ t.lows[i]? = some x := by
  obtain ⟨s, hs, hlow⟩ := getElem?_lows.mp hj
  obtain ⟨i, -, howner, -⟩ := ht.exists_owner_of_contains hs (contains_low hlow)
  exact ⟨i, howner, Binary64.getElem?_of_found (ht.found_of_owner? howner (List.mem_of_getElem? hj))⟩

end Ordered

/-- A position found by rank, in terms of the search for the value alone. -/
structure Locates (t : SearchTable) (x : Binary64) (position : Int) : Prop where
  /-- Minus one stands for no owner. -/
  none : position = -1 ↔ t.owner? x = none
  /-- It is the position of the owner unless a later side starts at the bits of the value. -/
  same : ∀ i : Nat, t.owner? x = some i → (position = i ↔ ∀ j, i < j → t.lows[j]? ≠ some x)
  /-- It differs from the position of the owner only for positive zero, and is then the last of several sides
  that start there. -/
  last : ∀ i : Nat, t.owner? x = some i → position ≠ i → x = .zero ∧ t.lows[i]? = some .zero ∧
    ∃ k : Nat, position = k ∧ i < k ∧ t.lows[k]? = some .zero ∧ ∀ j, k < j → t.lows[j]? ≠ some .zero

/-- Every position found by rank in an ordered table is that of the owner, but for repeated least values. -/
theorem Ordered.locates_locate (ht : t.Ordered) (x : Binary64) : t.Locates x (t.locate x) := by
  by_cases hmem : x ∈ t.lows
  -- The search by rank arrives at the last side that starts there, the binary search at any of them.
  · obtain ⟨j, hj⟩ := List.mem_iff_getElem?.mp hmem
    obtain ⟨i, howner, hi⟩ := ht.exists_owner_of_least hj
    obtain ⟨k, hik, hk, hlast⟩ := ht.exists_last hi
    rw [ht.locate_of_last hk hlast]
    refine ⟨by simp [howner], fun i' hi' => ?_, fun i' hi' hne => ?_⟩
    all_goals obtain rfl := Option.some.inj (howner.symm.trans hi')
    · refine ⟨fun heq => ?_, fun hnone => ?_⟩
      · rwa [← Int.ofNat.inj heq]
      · by_contra hne
        exact hnone k (by omega) hk
    · have hlt : i < k := by omega
      obtain rfl := ht.eq_zero_of_repeated hi hk hlt
      exact ⟨rfl, hi, k, rfl, hlt, hk, hlast⟩
  -- A value that is no least value is located at its owner.
  · have hnone : ∀ j : Nat, t.lows[j]? ≠ some x := fun j hj => hmem (List.mem_of_getElem? hj)
    rw [ht.locate_eq fun i j hi => absurd hi (hnone i)]
    refine ⟨?_, fun i hi => ?_, fun i hi hne => ?_⟩
    · cases t.owner? x <;> simp
    · simp [hi, hnone]
    · simp [hi] at hne

end RasterCategories.SearchTable
