import RasterCategories.Proofs.Search.Zeros
/-!
# Search and membership

A search finds a side that contains the value, if some side does. A value that no side contains is found only
if the table extrapolates and the value is a number. It then lies in a gap between two intervals, or beyond
all of them, and goes to an interval next to it.

* `SearchTable.Gap`: where a number stands that no side contains.
* `SearchTable.Nearby`: an interval next to such a number.
* `SearchTable.Assigns`: an answer of the search, in terms of membership alone.
* `SearchTable.Ordered.assigns_owner?`: every answer of the search in an ordered table is of this kind.
-/

namespace RasterCategories

/-! ### Differences from a NaN -/

namespace Binary64

/-- Setting the quiet bit keeps a NaN. -/
theorem isNaN_quiet {x : Binary64} (h : x.isNaN = true) : x.quiet.isNaN = true := by
  have hle : x.unsigned ≤ x.quiet.unsigned := by
    rw [unsigned, unsigned, pattern, pattern, quiet, BitVec.toNat_or, Nat.or_mod_two_pow]
    exact Nat.left_le_or
  rw [isNaN, decide_eq_true_eq] at h ⊢
  exact h.trans_le hle

/-- A difference from a NaN is a NaN. -/
theorem isNaN_sub {x : Binary64} (h : x.isNaN = true) (y : Binary64) : (x - y).isNaN = true := by
  show (sub x y).isNaN = true
  simp [sub, propagate, h, isNaN_quiet h]

/-- A difference that is below another number is one from a number. -/
theorem isNaN_of_sub_lt {x y z : Binary64} (h : x - y < z) : x.isNaN = false := by
  rw [Bool.eq_false_iff]
  intro hnan
  have hdifference := h.1
  rw [isNaN_sub hnan y] at hdifference
  cases hdifference

end Binary64

/-! ### Bounds of intervals -/

namespace Side.WellFormed

variable {s : Side} {x : Binary64}

/-- A side has an interval if its least value is a number. -/
theorem interval_isSome_iff (hs : s.WellFormed) :
    s.interval.isSome = true ↔ s.low.isNaN = false := by
  rcases hs with ⟨hle, hsome⟩ | ⟨hnan, -, hnone⟩
  · simp [hsome, hle.1]
  · simp [hnone, hnan]

/-- A side has an interval if its greatest value is a number. -/
theorem interval_isSome_of_high (hs : s.WellFormed) (h : s.high.isNaN = false) :
    s.interval.isSome = true :=
  hs.interval_isSome_iff.mpr (hs.isNaN_high ▸ h)

/-- A side that ends below a number does not start above it. -/
theorem not_lt_low (hs : s.WellFormed) (h : s.high < x) : ¬ x < s.low := by
  intro hlow
  rcases hs with ⟨hle, -⟩ | ⟨hnan, -, -⟩
  · have hvalues := hle.2.2
    have hhigh := h.2.2
    have hlow := hlow.2.2
    omega
  · simp [hlow.2.1] at hnan

end Side.WellFormed

namespace SearchTable

variable {t : SearchTable} {x : Binary64} {i j p top : Nat} {s b : Side}

/-! ### The last interval -/

/-- No later element passes the test. -/
theorem not_of_lastPosition? {α : Type} {test : α → Bool} {as : List α} {b : α}
    (h : lastPosition? test as = some i) (hb : as[j]? = some b) (hij : i < j) : test b = false := by
  obtain ⟨k, hk, rfl⟩ := Option.map_eq_some_iff.mp h
  obtain ⟨hlen, -, hfirst⟩ := List.findIdx?_eq_some_iff_getElem.mp hk
  obtain ⟨hj, rfl⟩ := List.getElem?_eq_some_iff.mp hb
  -- What comes later in the list comes earlier in its reverse.
  have hnot := hfirst (as.length - 1 - j) (by omega)
  rw [List.getElem_reverse] at hnot
  simpa [show as.length - 1 - (as.length - 1 - j) = j by omega] using hnot

/-- A table with an interval has a last one, above which it may extrapolate. -/
theorem top?_ne_none (hext : t.extrapolates = true) (hs : s ∈ t.sides) (hhigh : s.high.isNaN = false) :
    t.top? ≠ none := by
  intro hnone
  rw [top?, if_pos hext, lastPosition?, Option.map_eq_none_iff, List.findIdx?_eq_none_iff] at hnone
  simpa [hhigh] using hnone s (List.mem_reverse.mpr hs)

/-- No interval follows the side above which numbers are extrapolated. -/
theorem isNaN_of_top? (h : t.top? = some top) (hb : t.sides[j]? = some b) (hj : top < j) :
    b.high.isNaN = true := by
  unfold top? at h
  split at h
  · simpa using not_of_lastPosition? h hb hj
  · cases h

/-! ### Gaps -/

/-- A number lies in the gap before a position: the sides before the position end below the number, and the
intervals from there on start above it. -/
structure Gap (t : SearchTable) (x : Binary64) (p : Nat) : Prop where
  le_length : p ≤ t.sides.length
  high_lt : ∀ (i : Nat) (s : Side), t.sides[i]? = some s → i < p → s.high < x
  lt_low : ∀ (i : Nat) (s : Side), t.sides[i]? = some s → p ≤ i → s.interval.isSome = true → x < s.low

/-- The side at a position is next to a number that no side contains: it is an interval below the number, and
all later intervals lie above, or it is one above the number, and all earlier sides lie below. Beyond all
intervals it is therefore the last interval or the first side. -/
structure Nearby (t : SearchTable) (x : Binary64) (i : Nat) : Prop where
  /-- No interval lies between the number and the side. -/
  adjacent : ∃ s, t.sides[i]? = some s ∧ s.interval.isSome = true ∧
    (s.high < x ∧ (∀ (j : Nat) (b : Side), i < j → t.sides[j]? = some b → b.interval.isSome = true →
        x < b.low) ∨
      x < s.low ∧ ∀ (j : Nat) (b : Side), j < i → t.sides[j]? = some b → b.high < x)
  /-- Above all intervals it is the last one. -/
  last : (∀ b ∈ t.sides, b.interval.isSome = true → b.high < x) →
    ∀ (j : Nat) (b : Side), i < j → t.sides[j]? = some b → b.interval = none
  /-- Below all intervals it is the first side. -/
  first : (∀ b ∈ t.sides, b.interval.isSome = true → x < b.low) → i = 0

namespace Ordered

/-- A value that no side contains, placed among the least values, lies in the gap before its place. -/
theorem gap_of_splits (ht : t.Ordered) (hx : x.isNaN = false)
    (hsplits : Binary64.SplitsAt t.lows x p) (hnone : ∀ s ∈ t.sides, s.contains x = false) :
    t.Gap x p := by
  rw [Binary64.isNaN_eq_false_iff_place] at hx
  refine ⟨by simpa [lows] using hsplits.le_length, fun i s hs hi => ?_, fun i s hs hi hsome => ?_⟩
  all_goals
    have hnot := hnone s (List.mem_of_getElem? hs)
    have hplaces := ht.places hs
    rw [Bool.eq_false_iff, ne_eq, Side.contains_iff_place] at hnot
    rw [Binary64.lt_iff_place]
  · have hlow := low_lt_of_splits hsplits hs hi
    omega
  -- Only at zero would a side that starts above the value contain it.
  · have hlow := lt_low_of_splits hsplits hs hi
    have hnumber := (ht.wellFormed s (List.mem_of_getElem? hs)).interval_isSome_iff.mp hsome
    rw [Binary64.isNaN_eq_false_iff_place] at hnumber
    omega

/-- No side keyed by a NaN precedes an interval. -/
theorem isNaN_low_of_le (ht : t.Ordered) (hs : t.sides[i]? = some s) (hb : t.sides[j]? = some b)
    (hij : i ≤ j) (h : b.high.isNaN = false) : s.low.isNaN = false := by
  rw [(ht.wellFormed b (List.mem_of_getElem? hb)).isNaN_high] at h
  rcases Nat.lt_or_eq_of_le hij with hlt | rfl
  · have hle := ht.low_le_low hs hb hlt
    rw [Binary64.isNaN_eq_false_iff_place] at h ⊢
    omega
  · obtain rfl := Option.some.inj (hs.symm.trans hb)
    exact h

/-- A side with no interval between it and a number is the last or the first one for a number beyond all
intervals. -/
theorem nearby_of_adjacent (ht : t.Ordered) (hs : t.sides[i]? = some s)
    (hsome : s.interval.isSome = true)
    (h : s.high < x ∧ (∀ (j : Nat) (b : Side), i < j → t.sides[j]? = some b →
        b.interval.isSome = true → x < b.low) ∨
      x < s.low ∧ ∀ (j : Nat) (b : Side), j < i → t.sides[j]? = some b → b.high < x) :
    t.Nearby x i := by
  have hsmem := List.mem_of_getElem? hs
  have hswf := ht.wellFormed s hsmem
  refine ⟨⟨s, hs, hsome, h⟩, fun hall j b hij hb => ?_, fun hall => ?_⟩
  · have hbmem := List.mem_of_getElem? hb
    rcases h with ⟨-, hlater⟩ | ⟨hlow, -⟩
    · by_contra hne
      have hbsome := Option.isSome_iff_ne_none.mpr hne
      exact (ht.wellFormed b hbmem).not_lt_low (hall b hbmem hbsome) (hlater j b hij hb hbsome)
    · exact absurd hlow (hswf.not_lt_low (hall s hsmem hsome))
  · rcases h with ⟨hhigh, -⟩ | ⟨-, hearlier⟩
    · exact absurd (hall s hsmem hsome) (hswf.not_lt_low hhigh)
    · by_contra hne
      have hlen := (List.getElem?_eq_some_iff.mp hs).1
      have hb := List.getElem?_eq_getElem (l := t.sides) (i := 0) (by omega)
      have hbmem := List.mem_of_getElem? hb
      have hbwf := ht.wellFormed _ hbmem
      have hhigh := hearlier 0 _ (Nat.pos_of_ne_zero hne) hb
      exact hbwf.not_lt_low hhigh (hall _ hbmem (hbwf.interval_isSome_of_high hhigh.1))

/-- A number in a gap goes to a side next to it, if the table extrapolates. -/
theorem exists_nearby_of_gap (ht : t.Ordered) (htop : t.top? = some top) (hgap : t.Gap x p) :
    ∃ i, t.nearest? x p = some i ∧ t.Nearby x i := by
  obtain ⟨a, ha, hahigh⟩ := exists_of_top? htop
  have htoplen := (List.getElem?_eq_some_iff.mp ha).1
  cases p with
  | zero =>
    -- Some side is an interval, hence the first one is.
    have hfirst := List.getElem?_eq_getElem (l := t.sides) (i := 0) (by omega)
    have hnumber := ht.isNaN_low_of_le hfirst ha (Nat.zero_le top) hahigh
    have hsome := (ht.wellFormed _ (List.mem_of_getElem? hfirst)).interval_isSome_iff.mpr hnumber
    refine ⟨0, by simp [nearest?, htop, before?, hfirst, hnumber], ?_⟩
    exact ht.nearby_of_adjacent hfirst hsome
      (Or.inr ⟨hgap.lt_low 0 _ hfirst le_rfl hsome, fun j b hj => absurd hj (Nat.not_lt_zero j)⟩)
  | succ k =>
    have hk : k < t.sides.length := hgap.le_length
    have hbelow := List.getElem?_eq_getElem hk
    have hhigh := hgap.high_lt k _ hbelow (Nat.lt_succ_self k)
    have hsome :=
      (ht.wellFormed _ (List.mem_of_getElem? hbelow)).interval_isSome_of_high hhigh.1
    have hlower : t.Nearby x k := ht.nearby_of_adjacent hbelow hsome
      (Or.inl ⟨hhigh, fun j b hj hb => hgap.lt_low j b hb hj⟩)
    rcases Nat.lt_or_ge (k + 1) t.sides.length with hlt | hge
    · have habove := List.getElem?_eq_getElem hlt
      by_cases hcloser : t.sides[k + 1].low - x < x - t.sides[k].high
      · refine ⟨k + 1, by simp [nearest?, htop, before?_add_one, hbelow, habove, hcloser], ?_⟩
        -- A side keyed by a NaN is never closer.
        have habovesome := (ht.wellFormed _ (List.mem_of_getElem? habove)).interval_isSome_iff.mpr
          (Binary64.isNaN_of_sub_lt hcloser)
        exact ht.nearby_of_adjacent habove habovesome
          (Or.inr ⟨hgap.lt_low _ _ habove le_rfl habovesome, fun j b hj hb => hgap.high_lt j b hb hj⟩)
      · exact ⟨k, by simp [nearest?, htop, before?_add_one, hbelow, habove, hcloser], hlower⟩
    · -- All sides end below the number, so the last one is the last interval.
      have htopeq : top = k := by
        by_contra hne
        have hnan := isNaN_of_top? htop hbelow (by omega)
        simp [hhigh.1] at hnan
      refine ⟨k, ?_, hlower⟩
      simp [nearest?, htop, before?_add_one, hbelow, List.getElem?_eq_none hge, htopeq]

/-- A number that no side contains is placed among the least values, and goes where its place says. -/
theorem owner?_of_unowned (ht : t.Ordered) (hx : x.isNaN = false)
    (hnone : ∀ s ∈ t.sides, s.contains x = false) :
    ∃ p, Binary64.SplitsAt t.lows x p ∧ t.owner? x = t.nearest? x p := by
  have hnot : ∀ {i : Nat} {s : Side}, t.sides[i]? = some s → s.contains x ≠ true := fun hs hsx =>
    Bool.false_ne_true ((hnone _ (List.mem_of_getElem? hs)).symm.trans hsx)
  have hfinds := ht.finds_owner? x
  generalize t.owner? x = r at hfinds ⊢
  -- All other ways in which the search for a number ends give a side that contains it.
  cases hfinds with
  | least _ hs hlow => exact absurd (contains_low hlow) (hnot hs)
  | inside _ hs hsplits hle =>
    exact absurd (contains_of_le_high hsplits hs (Nat.lt_succ_self _) hle) (hnot hs)
  | start _ hs _ heq => exact absurd (ht.contains_of_equalTo hs heq) (hnot hs)
  | nearby _ hsplits => exact ⟨_, hsplits, rfl⟩
  | unknown hnan => simp [hx] at hnan

/-- A NaN that no side contains goes nowhere. -/
theorem owner?_of_unowned_nan (ht : t.Ordered) (hx : x.isNaN = true)
    (hnone : ∀ s ∈ t.sides, s.contains x = false) : t.owner? x = none := by
  cases howner : t.owner? x with
  | none => rfl
  | some i =>
    rcases ht.contains_of_owner? howner with ⟨s, hs, hsx⟩ | ⟨hnumber, -, -⟩
    · rw [hnone s (List.mem_of_getElem? hs)] at hsx
      cases hsx
    · simp [hx] at hnumber

end Ordered

/-! ### Answers -/

/-- An answer of the search for a value, in terms of membership alone. -/
structure Assigns (t : SearchTable) (x : Binary64) (found : Option Nat) : Prop where
  /-- A value that some side contains goes to a side that contains it. -/
  owned : (∃ s ∈ t.sides, s.contains x = true) →
    ∃ i s, found = some i ∧ t.sides[i]? = some s ∧ s.contains x = true
  /-- Without extrapolation all other values go nowhere. -/
  unowned : (∀ s ∈ t.sides, s.contains x = false) → t.top? = none → found = none
  /-- With extrapolation the other NaNs go nowhere. -/
  unknown : (∀ s ∈ t.sides, s.contains x = false) → t.top? ≠ none → x.isNaN = true → found = none
  /-- With extrapolation the other numbers go to a side next to them. -/
  nearby : (∀ s ∈ t.sides, s.contains x = false) → t.top? ≠ none → x.isNaN = false →
    ∃ i, found = some i ∧ t.Nearby x i

/-- Every answer of the search in an ordered table agrees with membership. -/
theorem Ordered.assigns_owner? (ht : t.Ordered) (x : Binary64) : t.Assigns x (t.owner? x) where
  owned := by
    rintro ⟨s, hs, hsx⟩
    obtain ⟨i, hi⟩ := List.mem_iff_getElem?.mp hs
    exact ht.exists_owner_of_contains hi hsx
  unowned := by
    intro hnone htop
    cases hx : x.isNaN with
    | true => exact ht.owner?_of_unowned_nan hx hnone
    | false =>
      obtain ⟨p, -, howner⟩ := ht.owner?_of_unowned hx hnone
      simp [howner, nearest?, htop]
  unknown := fun hnone _ hx => ht.owner?_of_unowned_nan hx hnone
  nearby := by
    intro hnone htop hx
    obtain ⟨top, htop⟩ := Option.ne_none_iff_exists'.mp htop
    obtain ⟨p, hsplits, howner⟩ := ht.owner?_of_unowned hx hnone
    rw [howner]
    exact ht.exists_nearby_of_gap htop (ht.gap_of_splits hx hsplits hnone)

end SearchTable

end RasterCategories
