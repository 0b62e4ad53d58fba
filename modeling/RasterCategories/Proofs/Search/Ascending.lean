import RasterCategories.Proofs.Binary64.Difference
import RasterCategories.Proofs.Search.Membership
/-!
# Owners ascend with the values

A greater number never goes to an earlier side. Where two numbers fall between the same least values, the search
compares two rounded distances for each of them. These change in opposite directions as the number grows, so the
answer changes once at most, from the side below to the side above. Each side therefore owns one interval of
numbers, what it gains by extrapolation included.

* `SearchTable.Stands`: how a number stands to the side that owns it.
* `SearchTable.Ordered.owner?_mono`: the search in an ordered table is monotone.
* `SearchTable.Ordered.owner?_between`: numbers between two of one owner have this owner.
-/

namespace RasterCategories.SearchTable

variable {t : SearchTable} {x y : Binary64} {i j p : Nat}

/-- How a number stands to its owner. -/
inductive Stands (t : SearchTable) (x : Binary64) (i : Nat) : Prop
  /-- It is the least value of the owner, bit by bit. -/
  | least {s : Side} (side : t.sides[i]? = some s) (low : s.low = x)
  /-- It comes after the least value of the owner. It lies in the owner, or is not closer to the next side. -/
  | after {s : Side} (side : t.sides[i]? = some s) (splits : Binary64.SplitsAt t.lows x (i + 1))
      (near : ∀ a, t.sides[i + 1]? = some a → x ≤ s.high ∨ ¬ a.low - x < x - s.high)
  /-- It comes before the least value of the owner. It lies above the previous side, and equals the least value
  or is closer to it. -/
  | before {s : Side} (side : t.sides[i]? = some s) (splits : Binary64.SplitsAt t.lows x i)
      (near : ∀ b, t.before? i = some b → ¬ x ≤ b.high ∧ (x.EqualTo s.low ∨ s.low - x < x - b.high))

namespace Ordered

/-- A number above all least values goes to the last side, if this is an interval. -/
theorem top?_eq_of_length (ht : t.Ordered) {top : Nat} {s : Side} (htop : t.top? = some top)
    (hs : t.sides[i]? = some s) (hlength : t.sides[i + 1]? = none) (hlow : s.low.isNaN = false) : top = i := by
  obtain ⟨a, ha, -⟩ := exists_of_top? htop
  have hlen := (List.getElem?_eq_some_iff.mp ha).1
  have hend := List.getElem?_eq_none_iff.mp hlength
  by_contra hne
  have hnan := isNaN_of_top? htop hs (by omega)
  rw [(ht.wellFormed s (List.mem_of_getElem? hs)).isNaN_high, hlow] at hnan
  cases hnan

/-- A number that lies in no side stands next to the side that it goes to. -/
theorem stands_of_nearest? (ht : t.Ordered) (hx : x.isNaN = false) (hsplits : Binary64.SplitsAt t.lows x p)
    (hbefore : ∀ b, t.before? p = some b → ¬ x ≤ b.high) (hi : t.nearest? x p = some i) : t.Stands x i := by
  rw [Binary64.isNaN_eq_false_iff_place] at hx
  unfold nearest? at hi
  split at hi
  · cases hi
  · next top htop =>
    split at hi
    · next below above hbelow habove =>
      obtain ⟨k, rfl, hk⟩ := before?_eq_some hbelow
      split at hi
      · next hcloser =>
        obtain rfl := Option.some.inj hi
        refine .before habove hsplits fun b hb => ?_
        obtain rfl := Option.some.inj (hb.symm.trans hbelow)
        exact ⟨hbefore b hb, Or.inr hcloser⟩
      · next hcloser =>
        obtain rfl : k = i := Option.some.inj hi
        refine .after hk hsplits fun a ha => ?_
        obtain rfl := Option.some.inj (ha.symm.trans habove)
        exact Or.inr hcloser
    · next below hbelow habove =>
      obtain ⟨k, rfl, hk⟩ := before?_eq_some hbelow
      obtain rfl := Option.some.inj hi
      -- No side starts above the number, so the last one is an interval.
      have hlow := low_lt_of_splits hsplits hk (Nat.lt_succ_self k)
      obtain rfl := ht.top?_eq_of_length htop hk habove
        (Binary64.isNaN_eq_false_iff_place.mpr (by omega))
      refine .after hk hsplits fun a ha => ?_
      rw [habove] at ha
      cases ha
    · next first hnone hfirst =>
      split at hi
      · cases hi
      · obtain rfl := Option.some.inj hi
        -- Nothing comes before the insertion index, so it is the first one.
        obtain rfl : p = 0 := by
          by_contra hne
          obtain ⟨b, hb⟩ := getElem?_of_lt_splits hsplits (i := p - 1) (by omega)
          simp [before?, hne, hb] at hnone
        refine .before hfirst hsplits fun b hb => ?_
        rw [hnone] at hb
        cases hb
    · cases hi

/-- A number stands in one of these ways to its owner. -/
theorem stands_of_owner? (ht : t.Ordered) (hx : x.isNaN = false) (hi : t.owner? x = some i) :
    t.Stands x i := by
  have hfinds := ht.finds_owner? x
  generalize t.owner? x = r at hfinds hi
  cases hfinds with
  | least _ hs hlow =>
    obtain rfl := Option.some.inj hi
    exact .least hs hlow
  | inside _ hs hsplits hle =>
    obtain rfl := Option.some.inj hi
    exact .after hs hsplits fun _ _ => Or.inl hle
  | start _ hs hsplits heq hbefore =>
    obtain rfl := Option.some.inj hi
    exact .before hs hsplits fun b hb => ⟨hbefore b hb, Or.inl heq⟩
  | nearby _ hsplits hbefore => exact ht.stands_of_nearest? hx hsplits hbefore hi
  | unknown => cases hi

/-- No side after the owner starts below the number. -/
theorem le_low_of_stands (ht : t.Ordered) {a : Side} (h : t.Stands x i) (ha : t.sides[j]? = some a)
    (hij : i < j) : x.place ≤ a.low.place := by
  cases h with
  | least hs hlow => exact hlow ▸ ht.low_le_low hs ha hij
  | after _ hsplits => exact (lt_low_of_splits hsplits ha hij).le
  | before _ hsplits => exact (lt_low_of_splits hsplits ha hij.le).le

/-- A number between two sides that goes to the upper one takes all greater numbers between them along. -/
theorem goes_up (ht : t.Ordered) {a b : Side} (hb : t.sides[i]? = some b) (hlow : b.low.place < x.place)
    (hlt : x.place < y.place) (hy : y.place < a.low.place) (hnotle : ¬ x ≤ b.high)
    (hnear : x.EqualTo a.low ∨ a.low - x < x - b.high) : ¬ y ≤ b.high ∧ a.low - y < y - b.high := by
  have hcloser : a.low - x < x - b.high := by
    rcases hnear with heq | hcloser
    -- Only a zero equals another number, and nothing lies between the two zeros.
    · have := Binary64.equalTo_iff_place.mp heq
      omega
    · exact hcloser
  have ha := Binary64.isNaN_of_sub_lt hcloser
  have hanumber := Binary64.isNaN_eq_false_iff_place.mp ha
  have hhigh : b.high.isNaN = false := by
    rw [(ht.wellFormed b (List.mem_of_getElem? hb)).isNaN_high, Binary64.isNaN_eq_false_iff_place]
    omega
  have hhighnumber := Binary64.isNaN_eq_false_iff_place.mp hhigh
  have hx : x.isNaN = false := Binary64.isNaN_eq_false_iff_place.mpr (by omega)
  have hy' : y.isNaN = false := Binary64.isNaN_eq_false_iff_place.mpr (by omega)
  have hxy : x ≤ y := Binary64.le_iff_place.mpr (by omega)
  have habove : b.high.place < x.place := by
    rw [Binary64.le_iff_place] at hnotle
    omega
  refine ⟨fun hle => hnotle (Binary64.le_trans hxy hle), ?_⟩
  exact Binary64.closer_mono ha hhigh (Binary64.isFinite_of_place hhigh hy' habove hlt)
    (Binary64.isFinite_of_place hx ha hlt hy) hxy hcloser

/-- The search in an ordered table is monotone. -/
theorem owner?_mono (ht : t.Ordered) (hx : x.isNaN = false) (hy : y.isNaN = false) (hle : x.place ≤ y.place)
    (hi : t.owner? x = some i) (hj : t.owner? y = some j) : i ≤ j := by
  rcases Int.lt_or_eq_of_le hle with hlt | heq
  · by_contra hji
    have hji := Nat.lt_of_not_le hji
    have hstands := ht.stands_of_owner? hy hj
    cases ht.stands_of_owner? hx hi with
    | least hs hlow =>
      have := ht.le_low_of_stands hstands hs hji
      rw [hlow] at this
      omega
    | after hs hsplits =>
      have := ht.le_low_of_stands hstands hs hji
      have := low_lt_of_splits hsplits hs (Nat.lt_succ_self i)
      omega
    -- The owner of the greater number starts below both numbers.
    | before hs hsplits hnear =>
      cases hstands with
      | least hb hlow =>
        have := low_lt_of_splits hsplits hb hji
        rw [hlow] at this
        omega
      | before hb hsplits' =>
        have := low_lt_of_splits hsplits hb hji
        have := lt_low_of_splits hsplits' hb le_rfl
        omega
      | after hb hsplits' hnear' =>
        obtain rfl : i = j + 1 := by
          by_contra hne
          obtain ⟨m, hm⟩ := getElem?_of_lt_splits hsplits (i := j + 1) (by omega)
          have := low_lt_of_splits hsplits hm (by omega)
          have := lt_low_of_splits hsplits' hm le_rfl
          omega
        obtain ⟨hnotle, hnear⟩ := hnear _ (before?_add_one.trans hb)
        obtain ⟨hnotle', hcloser'⟩ := ht.goes_up hb (low_lt_of_splits hsplits hb hji) hlt
          (lt_low_of_splits hsplits' hs le_rfl) hnotle hnear
        rcases hnear' _ hs with hle' | hnot
        · exact hnotle' hle'
        · exact hnot hcloser'
  · obtain rfl := Binary64.place_injective heq
    exact (Option.some.inj (hi.symm.trans hj)).le

/-- A side that contains two numbers contains all numbers between them. -/
theorem contains_of_between {s : Side} {z : Binary64} (hx : s.contains x = true) (hz : s.contains z = true)
    (hzn : z.isNaN = false) (hxy : x.place ≤ y.place) (hyz : y.place ≤ z.place) : s.contains y = true := by
  rw [Side.contains_iff_place] at hx hz ⊢
  rw [Binary64.isNaN_eq_false_iff_place] at hzn
  omega

/-- Where nothing is extrapolated, an owner contains its value. -/
theorem contains_of_top?_eq_none (ht : t.Ordered) (htop : t.top? = none) (hi : t.owner? x = some i) :
    ∃ s, t.sides[i]? = some s ∧ s.contains x = true := by
  rcases ht.contains_of_owner? hi with h | ⟨-, -, p, -, hp⟩
  · exact h
  · simp [nearest?, htop] at hp

/-- Numbers between two of one owner have this owner. -/
theorem owner?_between (ht : t.Ordered) {z : Binary64} (hx : x.isNaN = false) (hz : z.isNaN = false)
    (hxy : x.place ≤ y.place) (hyz : y.place ≤ z.place) (hi : t.owner? x = some i) (hj : t.owner? z = some i) :
    t.owner? y = some i := by
  have hy : y.isNaN = false := by
    rw [Binary64.isNaN_eq_false_iff_place] at hz ⊢
    omega
  suffices howned : ∃ k, t.owner? y = some k by
    obtain ⟨k, hk⟩ := howned
    have hik := ht.owner?_mono hx hy hxy hi hk
    have hki := ht.owner?_mono hy hz hyz hk hj
    rw [hk, Nat.le_antisymm hki hik]
  have hassigns := ht.assigns_owner? y
  by_cases howned : ∃ s ∈ t.sides, s.contains y = true
  · obtain ⟨k, -, hk, -⟩ := hassigns.owned howned
    exact ⟨k, hk⟩
  have hunowned : ∀ s ∈ t.sides, s.contains y = false := by simpa using howned
  by_cases htop : t.top? = none
  -- Without extrapolation the owner contains both numbers, and with them all between.
  · obtain ⟨s, hs, hsx⟩ := ht.contains_of_top?_eq_none htop hi
    obtain ⟨b, hb, hbz⟩ := ht.contains_of_top?_eq_none htop hj
    obtain rfl := Option.some.inj (hs.symm.trans hb)
    exact absurd ⟨s, List.mem_of_getElem? hs, contains_of_between hsx hbz hz hxy hyz⟩ howned
  · obtain ⟨k, hk, -⟩ := hassigns.nearby hunowned htop hy
    exact ⟨k, hk⟩

end Ordered

end RasterCategories.SearchTable
