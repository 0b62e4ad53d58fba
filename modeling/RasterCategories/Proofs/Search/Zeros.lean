import RasterCategories.Proofs.Search.Ordered
/-!
# Zeros that several sides contain

Sides that are disjoint in the total order may meet at zero: one ends at negative zero and a later one starts
at positive zero, and membership does not tell the two zeros apart. A number other than zero is found in the
only side that contains it. For a zero the search has to choose.

* `SearchTable.Takes`: the side that the search chooses.
* `SearchTable.Ordered.owner?_eq_some_iff`: of the sides that contain a value, the search finds that one.
-/

namespace RasterCategories.SearchTable

variable {t : SearchTable} {x : Binary64} {i j : Nat} {s b : Side}

/-- The side at a position takes a value which it contains. Negative zero goes to the first of the sides that
contain it. Positive zero goes to a side that starts there, if there is one: the one that the binary search
meets. -/
structure Takes (t : SearchTable) (x : Binary64) (i : Nat) : Prop where
  negative : x = .negZero → ∀ (j : Nat) (b : Side), j < i → t.sides[j]? = some b → b.contains x = false
  positive : x = .zero → .zero ∈ t.lows → Binary64.binarySearch t.lows .zero = .found i

/-- Every side takes the numbers other than zero that it contains. -/
theorem takes_of_ne_zero (hx : x.isZero = false) : t.Takes x i where
  negative := by
    rintro rfl
    exact absurd hx (by decide)
  positive := by
    rintro rfl
    exact absurd hx (by decide)

namespace Ordered

/-- A value that some side contains is found in a side that contains it. -/
theorem exists_owner_of_contains (ht : t.Ordered) (hs : t.sides[i]? = some s)
    (hsx : s.contains x = true) :
    ∃ k b, t.owner? x = some k ∧ t.sides[k]? = some b ∧ b.contains x = true := by
  have hfinds := ht.finds_owner? x
  cases howner : t.owner? x with
  | some k =>
    rcases ht.contains_of_owner? howner with ⟨b, hb, hbx⟩ | ⟨-, hnone, -⟩
    · exact ⟨k, b, rfl, hb, hbx⟩
    · rw [hnone i s hs] at hsx
      cases hsx
  | none =>
    rw [howner] at hfinds
    generalize hr : (none : Option Nat) = r at hfinds
    -- A search fails only for values that no side contains.
    cases hfinds with
    | nearby hx hsplits hbefore hafter =>
      rw [ht.not_contains_of_nearby hx hsplits hbefore hafter hs] at hsx
      cases hsx
    | unknown hnan hsplits =>
      rw [not_contains_of_unknown hnan hsplits hs] at hsx
      cases hsx
    | _ => cases hr

/-- No side before the owner of negative zero contains it. -/
theorem first_of_owner?_negZero (ht : t.Ordered) (howner : t.owner? .negZero = some i)
    (hs : t.sides[i]? = some s) (hsx : s.contains .negZero = true) (hji : j < i)
    (hb : t.sides[j]? = some b) : b.contains .negZero = false := by
  rw [Bool.eq_false_iff]
  intro hbx
  -- If an earlier side contained it too, the owner would start at positive zero.
  obtain ⟨hhigh, hlow, -⟩ := ht.shared_zero hb hs hji hbx hsx
  have hfinds := ht.finds_owner? .negZero
  rw [howner] at hfinds
  generalize hr : some i = r at hfinds
  cases hfinds with
  | least _ ha halow =>
    obtain rfl := Option.some.inj hr
    obtain rfl := Option.some.inj (hs.symm.trans ha)
    rw [hlow] at halow
    exact absurd halow (by decide)
  | inside hx ha hsplits hle =>
    obtain rfl := Option.some.inj hr
    have hbelow := low_lt_of_splits hsplits hs (Nat.lt_succ_self _)
    rw [hlow] at hbelow
    exact absurd hbelow (by decide)
  -- Before the search turns to the side that starts there, it asks the one that ends there.
  | start hx ha hsplits heq hbefore =>
    obtain rfl := Option.some.inj hr
    rcases ht.position_of_contains hx hsplits hb hbx with ⟨rfl, hle⟩ | ⟨hij, -⟩
    · exact hbefore b (before?_add_one.trans hb) hle
    · omega
  | nearby hx hsplits hbefore hafter =>
    rw [ht.not_contains_of_nearby hx hsplits hbefore hafter hb] at hbx
    cases hbx
  | unknown hnan => exact absurd hnan (by decide)

/-- The owner of a value starts there, if any side does. -/
theorem found_of_owner? (ht : t.Ordered) (howner : t.owner? x = some i) (hmem : x ∈ t.lows) :
    Binary64.binarySearch t.lows x = .found i := by
  unfold owner? at howner
  cases hsearch : Binary64.binarySearch t.lows x with
  | found k =>
    rw [hsearch] at howner
    rw [Option.some.inj howner]
  | absent p =>
    -- The insertion index would split the table at the very element that is searched for.
    have hsplits := Binary64.splits_of_absent ht.sorted_lows hsearch
    obtain ⟨k, hk⟩ := List.mem_iff_getElem?.mp hmem
    rcases Nat.lt_or_ge k p with hkp | hpk
    · exact absurd (hsplits.below k _ hk hkp) (lt_irrefl _)
    · exact absurd (hsplits.above k _ hk hpk) (lt_irrefl _)

/-- Unless a side starts at positive zero, no other side contains a value that a side contains. -/
theorem eq_of_contains_zero (ht : t.Ordered) (hmem : .zero ∉ t.lows) (hs : t.sides[i]? = some s)
    (hb : t.sides[j]? = some b) (hsx : s.contains x = true) (hbx : b.contains x = true) : j = i := by
  have hstart : ∀ {k : Nat} {a : Side}, t.sides[k]? = some a → a.low ≠ .zero := fun ha hlow =>
    hmem (List.mem_iff_getElem?.mpr ⟨_, getElem?_lows.mpr ⟨_, ha, hlow⟩⟩)
  rcases Nat.lt_trichotomy i j with hij | hij | hij
  · exact absurd (ht.shared_zero hs hb hij hsx hbx).2.1 (hstart hb)
  · exact hij.symm
  · exact absurd (ht.shared_zero hb hs hij hbx hsx).2.1 (hstart hs)

/-- Of the sides that contain a value, the search finds the one that takes it. -/
theorem owner?_eq_some_iff (ht : t.Ordered) (hs : t.sides[i]? = some s) (hsx : s.contains x = true) :
    t.owner? x = some i ↔ t.Takes x i := by
  constructor
  · intro howner
    refine ⟨?_, ?_⟩
    · rintro rfl j b hji hb
      exact ht.first_of_owner?_negZero howner hs hsx hji hb
    · rintro rfl hmem
      exact ht.found_of_owner? howner hmem
  · intro htakes
    obtain ⟨k, b, howner, hb, hbx⟩ := ht.exists_owner_of_contains hs hsx
    suffices hk : k = i by rw [howner, hk]
    -- The side that takes the value and the side that the search finds are compared.
    cases hx : x.isZero with
    | false => exact ht.eq_of_contains hx hb hs hbx hsx
    | true =>
      rcases Binary64.isZero_iff.mp hx with rfl | rfl
      · by_cases hmem : .zero ∈ t.lows
        · have hfound := htakes.positive rfl hmem
          rw [ht.found_of_owner? howner hmem] at hfound
          exact Binary64.SearchResult.found.inj hfound
        · exact ht.eq_of_contains_zero hmem hs hb hsx hbx
      · rcases Nat.lt_trichotomy k i with hki | hki | hki
        · rw [htakes.negative rfl k b hki hb] at hbx
          cases hbx
        · exact hki
        · rw [ht.first_of_owner?_negZero howner hb hbx hki hs] at hsx
          cases hsx

/-- A side takes a value that no other side contains. -/
theorem takes_of_unique (ht : t.Ordered) (hs : t.sides[i]? = some s) (hsx : s.contains x = true)
    (hunique : ∀ (j : Nat) (b : Side), t.sides[j]? = some b → b.contains x = true → j = i) :
    t.Takes x i :=
  (ht.owner?_eq_some_iff hs hsx).mp (ht.owner?_eq_of_unique hs hsx hunique)

end Ordered

end RasterCategories.SearchTable
