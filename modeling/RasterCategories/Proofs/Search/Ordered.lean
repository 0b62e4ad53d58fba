import RasterCategories.Proofs.Binary64.Search
import RasterCategories.Search.Table
/-!
# Ordered search tables

The sides of a search table are ordered if each lies before the next one in the total order. Membership
takes the two zeros for one number, so two sides may still share a zero: one that ends at negative zero and
a later one that starts at positive zero. Apart from that no value belongs to two sides.

* `Side.WellFormed`: the bounds are two numbers in order or the same NaN twice.
* `SearchTable.Ordered`: the invariant of search tables.
* `SearchTable.Ordered.shared_zero`: what two sides can share.
* `SearchTable.Ordered.owner?_eq_of_unique`: the only side that contains a value owns it.
* `SearchTable.Ordered.contains_of_owner?`: unless a table extrapolates, an owner contains its value.
-/

namespace RasterCategories

variable {x : Binary64}

/-- The bounds of a side are two numbers in order, or the NaN that keys the side. -/
inductive Side.WellFormed (s : Side) : Prop
  /-- The side is an interval. -/
  | interval (ordered : s.low ≤ s.high) (declared : s.interval.isSome = true)
  /-- The side is keyed by a NaN. -/
  | key (nan : s.low.isNaN = true) (same : s.high = s.low) (undeclared : s.interval = none)

namespace Side.WellFormed

variable {s : Side}

/-- The places of the bounds. -/
theorem places (hs : s.WellFormed) :
    (s.low.place < 2 ^ 63 ∧ s.high.place < 2 ^ 63 ∧
        (s.low.place ≤ s.high.place ∨ s.low.place = 0 ∧ s.high.place = -1)) ∨
      (2 ^ 63 ≤ s.low.place ∧ s.high.place = s.low.place) := by
  rcases hs with ⟨hle, -⟩ | ⟨hnan, heq, -⟩
  · exact Or.inl (Binary64.le_iff_place.mp hle)
  · exact Or.inr ⟨Binary64.isNaN_iff_place.mp hnan, by rw [heq]⟩

/-- Only the bounds and the interval of a side count. -/
theorem congr {r : Side} (hs : s.WellFormed) (hlow : r.low = s.low) (hhigh : r.high = s.high)
    (hinterval : r.interval = s.interval) : r.WellFormed := by
  rcases hs with ⟨hle, hsome⟩ | ⟨hnan, hsame, hnone⟩
  · exact .interval (by rw [hlow, hhigh]; exact hle) (by rw [hinterval]; exact hsome)
  · exact .key (by rw [hlow]; exact hnan) (by rw [hlow, hhigh]; exact hsame)
      (by rw [hinterval]; exact hnone)

/-- Both bounds are NaNs or neither is. -/
theorem isNaN_high (hs : s.WellFormed) : s.high.isNaN = s.low.isNaN := by
  rcases hs with ⟨hle, -⟩ | ⟨-, heq, -⟩
  · rw [hle.1, hle.2.1]
  · rw [heq]

end Side.WellFormed

/-- Membership, in places. -/
theorem Side.contains_iff_place {s : Side} :
    s.contains x = true ↔
      x.place = s.low.place ∨
        s.low.place < 2 ^ 63 ∧ x.place < 2 ^ 63 ∧ s.high.place < 2 ^ 63 ∧
          (s.low.place ≤ x.place ∨ s.low.place = 0 ∧ x.place = -1) ∧
          (x.place ≤ s.high.place ∨ x.place = 0 ∧ s.high.place = -1) := by
  unfold contains
  rw [decide_eq_true_eq, Binary64.le_iff_place, Binary64.le_iff_place, Binary64.place_inj]
  constructor
  · rintro (⟨⟨_, _, _⟩, _, _, _⟩ | h)
    · right; exact ⟨‹_›, ‹_›, ‹_›, ‹_›, ‹_›⟩
    · left; exact h
  · rintro (h | ⟨hl, hx, hh, hlo, hhi⟩)
    · right; exact h
    · left; exact ⟨⟨hl, hx, hlo⟩, hx, hh, hhi⟩

namespace SearchTable

/-- The sides are well formed, and each lies before the following ones. -/
structure Ordered (t : SearchTable) : Prop where
  wellFormed : ∀ s ∈ t.sides, s.WellFormed
  separate : t.sides.Pairwise fun a b => a.high.place < b.low.place

variable {t : SearchTable} {i j : Nat} {a b s : Side}

theorem getElem?_lows : t.lows[i]? = some x ↔ ∃ s, t.sides[i]? = some s ∧ s.low = x := by
  rw [lows, List.getElem?_map, Option.map_eq_some_iff]

theorem low_lt_of_splits {p : Nat} (h : Binary64.SplitsAt t.lows x p) (hs : t.sides[i]? = some s)
    (hi : i < p) : s.low.place < x.place :=
  h.below i s.low (getElem?_lows.mpr ⟨s, hs, rfl⟩) hi

theorem lt_low_of_splits {p : Nat} (h : Binary64.SplitsAt t.lows x p) (hs : t.sides[i]? = some s)
    (hi : p ≤ i) : x.place < s.low.place :=
  h.above i s.low (getElem?_lows.mpr ⟨s, hs, rfl⟩) hi

theorem getElem?_of_lt_splits {p : Nat} (h : Binary64.SplitsAt t.lows x p) (hi : i < p) :
    ∃ s, t.sides[i]? = some s := by
  have hlen : i < t.sides.length := by
    have := h.le_length
    rw [lows, List.length_map] at this
    omega
  exact ⟨_, List.getElem?_eq_getElem hlen⟩

namespace Ordered

theorem places (ht : t.Ordered) (hs : t.sides[i]? = some s) :
    (s.low.place < 2 ^ 63 ∧ s.high.place < 2 ^ 63 ∧
        (s.low.place ≤ s.high.place ∨ s.low.place = 0 ∧ s.high.place = -1)) ∨
      (2 ^ 63 ≤ s.low.place ∧ s.high.place = s.low.place) :=
  (ht.wellFormed s (List.mem_of_getElem? hs)).places

theorem high_lt_low (ht : t.Ordered) (ha : t.sides[i]? = some a) (hb : t.sides[j]? = some b)
    (hij : i < j) : a.high.place < b.low.place := by
  obtain ⟨hi, rfl⟩ := List.getElem?_eq_some_iff.mp ha
  obtain ⟨hj, rfl⟩ := List.getElem?_eq_some_iff.mp hb
  exact List.pairwise_iff_getElem.mp ht.separate i j hi hj hij

/-- Least values may repeat only at positive zero, hence they are sorted. -/
theorem low_le_low (ht : t.Ordered) (ha : t.sides[i]? = some a) (hb : t.sides[j]? = some b)
    (hij : i < j) : a.low.place ≤ b.low.place := by
  have hsep := ht.high_lt_low ha hb hij
  have hplaces := ht.places ha
  -- A side from positive zero to negative zero ends below where it starts, by one place.
  omega

theorem sorted_lows (ht : t.Ordered) : Binary64.Sorted t.lows := by
  rw [Binary64.Sorted, List.pairwise_iff_getElem]
  intro i j hi hj hij
  obtain ⟨a, ha, hxa⟩ := getElem?_lows.mp (List.getElem?_eq_getElem hi)
  obtain ⟨b, hb, hxb⟩ := getElem?_lows.mp (List.getElem?_eq_getElem hj)
  rw [← hxa, ← hxb]
  exact ht.low_le_low ha hb hij

/-- A side contains its least value. -/
theorem contains_low (hs : s.low = x) : s.contains x = true := by
  rw [Side.contains_iff_place, hs]
  exact Or.inl rfl

/-- Two sides share nothing but a zero, at which the first ends and the second starts. -/
theorem shared_zero (ht : t.Ordered) (ha : t.sides[i]? = some a) (hb : t.sides[j]? = some b)
    (hij : i < j) (hax : a.contains x = true) (hbx : b.contains x = true) :
    a.high = .negZero ∧ b.low = .zero ∧ x.isZero = true := by
  have hsep := ht.high_lt_low ha hb hij
  have hpa := ht.places ha
  have hpb := ht.places hb
  rw [Side.contains_iff_place] at hax hbx
  -- The places of the sides are apart, so the value is let in only where the two zeros are confused.
  rw [← Binary64.place_inj, ← Binary64.place_inj, Binary64.place_zero, Binary64.place_negZero,
    Binary64.isZero_iff_place]
  omega

end Ordered

/-- The ways in which the search for a value ends. -/
inductive Finds (t : SearchTable) (x : Binary64) : Option Nat → Prop
  /-- The value is the least value of a side, bit by bit. -/
  | least {i : Nat} {s : Side} (found : Binary64.binarySearch t.lows x = .found i)
      (side : t.sides[i]? = some s) (low : s.low = x) : Finds t x (some i)
  /-- The number lies in the side before the insertion index. -/
  | inside {i : Nat} {s : Side} (number : x.isNaN = false) (side : t.sides[i]? = some s)
      (splits : Binary64.SplitsAt t.lows x (i + 1)) (le_high : x ≤ s.high) : Finds t x (some i)
  /-- The number is negative zero, and the side at the insertion index starts at positive zero. -/
  | start {i : Nat} {s : Side} (number : x.isNaN = false) (side : t.sides[i]? = some s)
      (splits : Binary64.SplitsAt t.lows x i) (equal : x.EqualTo s.low)
      (before : ∀ b, t.before? i = some b → ¬ x ≤ b.high) : Finds t x (some i)
  /-- The number lies in no side and goes to a nearby one, if the table extrapolates. -/
  | nearby {p : Nat} (number : x.isNaN = false) (splits : Binary64.SplitsAt t.lows x p)
      (before : ∀ b, t.before? p = some b → ¬ x ≤ b.high)
      (after : ∀ a, t.sides[p]? = some a → ¬ x.EqualTo a.low) : Finds t x (t.nearest? x p)
  /-- No side is keyed by the NaN. -/
  | unknown {p : Nat} (nan : x.isNaN = true) (splits : Binary64.SplitsAt t.lows x p) :
      Finds t x none

/-- The side above which numbers are extrapolated is an interval of the table. -/
theorem exists_of_top? (h : t.top? = some i) : ∃ s, t.sides[i]? = some s ∧ s.high.isNaN = false := by
  unfold top? at h
  split at h
  · unfold lastPosition? at h
    obtain ⟨k, hk, rfl⟩ := Option.map_eq_some_iff.mp h
    obtain ⟨hlen, htest, -⟩ := List.findIdx?_eq_some_iff_getElem.mp hk
    rw [List.getElem_reverse] at htest
    exact ⟨_, List.getElem?_eq_getElem _, by simpa using htest⟩
  · cases h

/-- A nearby side is a side of the table. -/
theorem nearest?_lt_length {p : Nat} (h : t.nearest? x p = some i) : i < t.sides.length := by
  unfold nearest? at h
  split at h
  · cases h
  · next top htop =>
    split at h
    · next below above hbelow habove =>
      have hp := (List.getElem?_eq_some_iff.mp habove).1
      split at h <;> (obtain rfl := Option.some.inj h; omega)
    · obtain rfl := Option.some.inj h
      obtain ⟨s, hs, -⟩ := exists_of_top? htop
      exact (List.getElem?_eq_some_iff.mp hs).1
    · next first _ hfirst =>
      split at h
      · cases h
      · obtain rfl := Option.some.inj h
        have := (List.getElem?_eq_some_iff.mp hfirst).1
        omega
    · cases h

theorem before?_eq_some {p : Nat} (h : t.before? p = some s) :
    ∃ i, p = i + 1 ∧ t.sides[i]? = some s := by
  unfold before? at h
  split at h
  · cases h
  · exact ⟨p - 1, by omega, h⟩

theorem before?_add_one : t.before? (i + 1) = t.sides[i]? := by
  simp [before?]

namespace Ordered

/-- The search in an ordered table ends in one of these ways. -/
theorem finds_owner? (ht : t.Ordered) (x : Binary64) : Finds t x (t.owner? x) := by
  -- The cases are the questions of the search, in its order.
  unfold owner?
  cases hsearch : Binary64.binarySearch t.lows x with
  | found i =>
    obtain ⟨s, hs, hlow⟩ := getElem?_lows.mp (Binary64.getElem?_of_found hsearch)
    exact .least hsearch hs hlow
  | absent p =>
    have hsplits := Binary64.splits_of_absent ht.sorted_lows hsearch
    show Finds t x (if x.isNaN then none else t.ownerNear? x p)
    cases hnan : x.isNaN with
    | true => exact .unknown hnan hsplits
    | false =>
      unfold ownerNear?
      simp only [Bool.false_eq_true, if_false]
      split
      · next hbefore =>
        obtain ⟨s, hs, hle⟩ := (Option.any_eq_true _ _).mp hbefore
        obtain ⟨i, rfl, hside⟩ := before?_eq_some hs
        exact .inside hnan hside hsplits (of_decide_eq_true hle)
      · next hbefore =>
        have hbefore : ∀ b, t.before? p = some b → ¬ x ≤ b.high := fun b hb hle =>
          hbefore ((Option.any_eq_true _ _).mpr ⟨b, hb, decide_eq_true hle⟩)
        split
        · next hafter =>
          obtain ⟨s, hs, heq⟩ := (Option.any_eq_true _ _).mp hafter
          exact .start hnan hs hsplits (of_decide_eq_true heq) hbefore
        · next hafter =>
          exact .nearby hnan hsplits hbefore fun a ha heq =>
            hafter ((Option.any_eq_true _ _).mpr ⟨a, ha, decide_eq_true heq⟩)

/-- Where a side that contains a number stands, if the number is the least value of no side. -/
theorem position_of_contains (ht : t.Ordered) {p : Nat} (hx : x.isNaN = false)
    (hsplits : Binary64.SplitsAt t.lows x p) (hs : t.sides[i]? = some s)
    (hsx : s.contains x = true) :
    (p = i + 1 ∧ x ≤ s.high) ∨ (p ≤ i ∧ ∀ a, t.sides[p]? = some a → x.EqualTo a.low) := by
  rw [Binary64.isNaN_eq_false_iff_place] at hx
  have hps := ht.places hs
  rw [Side.contains_iff_place] at hsx
  rcases Nat.lt_or_ge i p with hip | hpi
  · left
    have hlow := low_lt_of_splits hsplits hs hip
    refine ⟨?_, Binary64.le_iff_place.mpr (by omega)⟩
    -- One more side before the insertion index would start above the value.
    by_contra hne
    obtain ⟨b, hb⟩ := getElem?_of_lt_splits hsplits (i := i + 1) (by omega)
    have hsep := ht.high_lt_low hs hb (by omega)
    have hblow := low_lt_of_splits hsplits hb (by omega)
    omega
  · right
    have hlow := lt_low_of_splits hsplits hs hpi
    refine ⟨hpi, fun a ha => ?_⟩
    have halow := lt_low_of_splits hsplits ha (Nat.le_refl _)
    rw [Binary64.equalTo_iff_place]
    -- Only positive zero lies between the value and a side that contains it.
    rcases Nat.lt_or_eq_of_le hpi with hlt | rfl
    · have hpa := ht.places ha
      have hsep := ht.high_lt_low ha hs hlt
      omega
    · obtain rfl := Option.some.inj (hs.symm.trans ha)
      omega

/-- The side before the insertion index contains every number that is not above it. -/
theorem contains_of_le_high {p : Nat} (hsplits : Binary64.SplitsAt t.lows x p)
    (hs : t.sides[i]? = some s) (hi : i < p) (hle : x ≤ s.high) : s.contains x = true := by
  have hlow := low_lt_of_splits hsplits hs hi
  have hle := Binary64.le_iff_place.mp hle
  rw [Side.contains_iff_place]
  omega

/-- A side contains every number that equals its least value. -/
theorem contains_of_equalTo (ht : t.Ordered) (hs : t.sides[i]? = some s)
    (heq : x.EqualTo s.low) : s.contains x = true := by
  have hps := ht.places hs
  have heq := Binary64.equalTo_iff_place.mp heq
  rw [Side.contains_iff_place]
  omega

/-- No side contains a value that goes to a nearby side. -/
theorem not_contains_of_nearby (ht : t.Ordered) {p : Nat} (hx : x.isNaN = false)
    (hsplits : Binary64.SplitsAt t.lows x p)
    (hbefore : ∀ b, t.before? p = some b → ¬ x ≤ b.high)
    (hafter : ∀ a, t.sides[p]? = some a → ¬ x.EqualTo a.low) (hs : t.sides[i]? = some s) :
    s.contains x = false := by
  rw [Bool.eq_false_iff]
  intro hsx
  -- A side with the value stands where the search looked first, or second.
  rcases ht.position_of_contains hx hsplits hs hsx with ⟨rfl, hle⟩ | ⟨hpi, heq⟩
  · exact hbefore s (before?_add_one.trans hs) hle
  · have hlen : p < t.sides.length := by
      have := (List.getElem?_eq_some_iff.mp hs).1
      omega
    exact hafter _ (List.getElem?_eq_getElem hlen) (heq _ (List.getElem?_eq_getElem hlen))

/-- No side contains a NaN that is found nowhere. -/
theorem not_contains_of_unknown {p : Nat} (hx : x.isNaN = true)
    (hsplits : Binary64.SplitsAt t.lows x p) (hs : t.sides[i]? = some s) :
    s.contains x = false := by
  rw [Bool.eq_false_iff, ne_eq, Side.contains_iff_place]
  rw [Binary64.isNaN_iff_place] at hx
  rcases Nat.lt_or_ge i p with hi | hi
  · have := low_lt_of_splits hsplits hs hi
    omega
  · have := lt_low_of_splits hsplits hs hi
    omega

/-- An owner contains its value, or is a side near a value that no side contains. -/
theorem contains_of_owner? (ht : t.Ordered) (hi : t.owner? x = some i) :
    (∃ s, t.sides[i]? = some s ∧ s.contains x = true) ∨
      x.isNaN = false ∧ (∀ (j : Nat) (b : Side), t.sides[j]? = some b → b.contains x = false) ∧
        ∃ p, Binary64.SplitsAt t.lows x p ∧ t.nearest? x p = some i := by
  have hfinds := ht.finds_owner? x
  generalize t.owner? x = r at hfinds hi
  cases hfinds with
  | least _ hs hlow =>
    obtain rfl := Option.some.inj hi
    exact Or.inl ⟨_, hs, contains_low hlow⟩
  | inside hx hs hsplits hle =>
    obtain rfl := Option.some.inj hi
    exact Or.inl ⟨_, hs, contains_of_le_high hsplits hs (Nat.lt_succ_self _) hle⟩
  | start hx hs hsplits heq _ =>
    obtain rfl := Option.some.inj hi
    exact Or.inl ⟨_, hs, ht.contains_of_equalTo hs heq⟩
  | nearby hx hsplits hbefore hafter =>
    exact Or.inr ⟨hx, fun j b hb => ht.not_contains_of_nearby hx hsplits hbefore hafter hb,
      _, hsplits, hi⟩
  | unknown => cases hi

/-- The only side that contains a value owns it. -/
theorem owner?_eq_of_unique (ht : t.Ordered) (hs : t.sides[i]? = some s)
    (hsx : s.contains x = true)
    (hunique : ∀ (j : Nat) (b : Side), t.sides[j]? = some b → b.contains x = true → j = i) :
    t.owner? x = some i := by
  have hfinds := ht.finds_owner? x
  generalize t.owner? x = r at hfinds ⊢
  -- However the search ends, it ends at a side that contains the value, if there is one.
  cases hfinds with
  | least _ hb hlow => rw [hunique _ _ hb (contains_low hlow)]
  | inside hx hb hsplits hle =>
    rw [hunique _ _ hb (contains_of_le_high hsplits hb (Nat.lt_succ_self _) hle)]
  | start hx hb hsplits heq _ => rw [hunique _ _ hb (ht.contains_of_equalTo hb heq)]
  | nearby hx hsplits hbefore hafter =>
    rw [ht.not_contains_of_nearby hx hsplits hbefore hafter hs] at hsx
    cases hsx
  | unknown hnan hsplits =>
    rw [not_contains_of_unknown hnan hsplits hs] at hsx
    cases hsx

/-- A value other than zero belongs to at most one side. -/
theorem eq_of_contains (ht : t.Ordered) (hx : x.isZero = false) (ha : t.sides[i]? = some a)
    (hb : t.sides[j]? = some b) (hax : a.contains x = true) (hbx : b.contains x = true) :
    i = j := by
  rcases Nat.lt_trichotomy i j with hij | hij | hij
  · have := (ht.shared_zero ha hb hij hax hbx).2.2
    simp [hx] at this
  · exact hij
  · have := (ht.shared_zero hb ha hij hbx hax).2.2
    simp [hx] at this

/-- An owner is a side of the table. -/
theorem owner?_lt_length (ht : t.Ordered) (hi : t.owner? x = some i) : i < t.sides.length := by
  rcases ht.contains_of_owner? hi with ⟨s, hs, -⟩ | ⟨-, -, p, -, hp⟩
  · exact (List.getElem?_eq_some_iff.mp hs).1
  · exact nearest?_lt_length hp

/-- Without extrapolation, an owner contains its value. -/
theorem owner_contains (ht : t.Ordered) (hext : t.extrapolates = false)
    (hi : t.owner? x = some i) : ∃ s, t.sides[i]? = some s ∧ s.contains x = true := by
  rcases ht.contains_of_owner? hi with h | ⟨-, -, p, -, hp⟩
  · exact h
  · have htop : t.top? = none := by simp [top?, hext]
    simp [nearest?, htop] at hp

end Ordered

end SearchTable

end RasterCategories
