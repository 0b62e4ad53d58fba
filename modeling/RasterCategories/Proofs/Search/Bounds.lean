import RasterCategories.Proofs.Search.Membership
/-!
# What a search depends on

Of its sides a search looks at the bounds alone. Tables of sides with the same bounds give a value to the same
position, whatever the names and the units. Whether a table extrapolates does not matter for values that belong
to one of its sides.

* `SearchTable.owner?_eq_of_bounds`: sides with the same bounds.
* `SearchTable.Ordered.owner?_eq_of_contains`: with and without extrapolation.
-/

namespace RasterCategories

/-- The least and the greatest value. -/
def Side.bounds (s : Side) : Binary64 × Binary64 := (s.low, s.high)

variable {x : Binary64}

/-- Membership depends on the bounds alone. -/
theorem Side.contains_eq_of_bounds {a b : Side} (h : a.bounds = b.bounds) :
    a.contains x = b.contains x := by
  obtain ⟨hlow, hhigh⟩ := Prod.mk.inj h
  rw [contains, contains, hlow, hhigh]

namespace SearchTable

variable {t u : SearchTable} {i p : Nat} {s : Side}

/-! ### Bounds -/

/-- At each position two tables have sides with the same bounds, or no sides. -/
theorem getElem?_of_bounds (h : t.sides.map Side.bounds = u.sides.map Side.bounds) (p : Nat) :
    (t.sides[p]?).map Side.bounds = (u.sides[p]?).map Side.bounds := by
  rw [← List.getElem?_map, ← List.getElem?_map, h]

theorem before?_of_bounds (h : t.sides.map Side.bounds = u.sides.map Side.bounds) (p : Nat) :
    (t.before? p).map Side.bounds = (u.before? p).map Side.bounds := by
  unfold before?
  split
  · rfl
  · exact getElem?_of_bounds h _

/-- Sides that are found in two tables with the same bounds have the same bounds, and in both tables or in
neither of them a side is found. -/
theorem bounds_cases {a b : Option Side} (h : a.map Side.bounds = b.map Side.bounds) :
    a = none ∧ b = none ∨ ∃ r s, a = some r ∧ b = some s ∧ r.low = s.low ∧ r.high = s.high := by
  cases a <;> cases b <;> simp_all [Side.bounds]

theorem lows_eq_of_bounds (h : t.sides.map Side.bounds = u.sides.map Side.bounds) : t.lows = u.lows := by
  have hlows := congrArg (List.map Prod.fst) h
  rwa [List.map_map, List.map_map] at hlows

/-- The last element that passes a test is found in the list of what the test looks at. -/
theorem lastPosition?_map {α β : Type} (f : α → β) (test : β → Bool) (as : List α) :
    lastPosition? test (as.map f) = lastPosition? (fun a => test (f a)) as := by
  rw [lastPosition?, lastPosition?, ← List.map_reverse, List.findIdx?_map, List.length_map]
  rfl

theorem top?_eq_of_bounds (h : t.sides.map Side.bounds = u.sides.map Side.bounds)
    (hext : t.extrapolates = u.extrapolates) : t.top? = u.top? := by
  have hlast : lastPosition? (fun s : Side => !s.high.isNaN) t.sides =
      lastPosition? (fun s : Side => !s.high.isNaN) u.sides := by
    have hmap := congrArg (lastPosition? fun b : Binary64 × Binary64 => !b.2.isNaN) h
    rwa [lastPosition?_map, lastPosition?_map] at hmap
  rw [top?, top?, hext, hlast]

theorem nearest?_eq_of_bounds (h : t.sides.map Side.bounds = u.sides.map Side.bounds)
    (hext : t.extrapolates = u.extrapolates) (p : Nat) : t.nearest? x p = u.nearest? x p := by
  unfold nearest?
  rw [top?_eq_of_bounds h hext]
  rcases bounds_cases (before?_of_bounds h p) with ⟨hb, hb'⟩ | ⟨r, s, hb, hb', -, hhigh⟩ <;>
    rcases bounds_cases (getElem?_of_bounds h p) with ⟨ha, ha'⟩ | ⟨r', s', ha, ha', hlow, -⟩ <;>
    simp_all

theorem ownerNear?_eq_of_bounds (h : t.sides.map Side.bounds = u.sides.map Side.bounds)
    (hext : t.extrapolates = u.extrapolates) (p : Nat) : t.ownerNear? x p = u.ownerNear? x p := by
  unfold ownerNear?
  rw [nearest?_eq_of_bounds h hext]
  rcases bounds_cases (before?_of_bounds h p) with ⟨hb, hb'⟩ | ⟨r, s, hb, hb', -, hhigh⟩ <;>
    rcases bounds_cases (getElem?_of_bounds h p) with ⟨ha, ha'⟩ | ⟨r', s', ha, ha', hlow, -⟩ <;>
    simp_all

/-- Tables of sides with the same bounds give each value to the same position. -/
theorem owner?_eq_of_bounds (h : t.sides.map Side.bounds = u.sides.map Side.bounds)
    (hext : t.extrapolates = u.extrapolates) (x : Binary64) : t.owner? x = u.owner? x := by
  unfold owner?
  rw [lows_eq_of_bounds h]
  cases Binary64.binarySearch u.lows x with
  | found i => rfl
  | absent p => simp only [ownerNear?_eq_of_bounds h hext]

/-! ### Extrapolation -/

/-- Near an insertion index, a value that belongs to a side is found with and without extrapolation alike. -/
theorem Ordered.ownerNear?_eq_of_contains (ht : t.Ordered) (hx : x.isNaN = false)
    (hsplits : Binary64.SplitsAt t.lows x p) (hs : t.sides[i]? = some s) (hsx : s.contains x = true)
    (b : Bool) : ({ t with extrapolates := b } : SearchTable).ownerNear? x p = t.ownerNear? x p := by
  unfold ownerNear?
  rw [show ({ t with extrapolates := b } : SearchTable).before? p = t.before? p from rfl]
  split
  · rfl
  · next hbefore =>
    split
    · rfl
    -- What is left is to turn to the nearest side, and then no side contains the value.
    · next hafter =>
      simp only [Option.any_eq_true, decide_eq_true_eq, not_exists, not_and] at hbefore hafter
      have hnot := ht.not_contains_of_nearby hx hsplits hbefore hafter hs
      rw [hsx] at hnot
      cases hnot

/-- A value that belongs to a side has the same owner if the table extrapolates and if it does not. -/
theorem Ordered.owner?_eq_of_contains (ht : t.Ordered) (hs : s ∈ t.sides) (hsx : s.contains x = true)
    (b : Bool) : ({ t with extrapolates := b } : SearchTable).owner? x = t.owner? x := by
  obtain ⟨i, hi⟩ := List.mem_iff_getElem?.mp hs
  unfold owner?
  rw [show ({ t with extrapolates := b } : SearchTable).lows = t.lows from rfl]
  cases hsearch : Binary64.binarySearch t.lows x with
  | found j => rfl
  | absent p =>
    cases hx : x.isNaN with
    | true => rfl
    | false =>
      exact ht.ownerNear?_eq_of_contains hx (Binary64.splits_of_absent ht.sorted_lows hsearch) hi hsx b

end SearchTable

end RasterCategories
