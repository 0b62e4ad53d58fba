import Mathlib.Data.List.Basic
import RasterCategories.Binary64.Search
import RasterCategories.Proofs.Binary64.Order
/-!
# Binary search

Each probe of the search decides between the comparisons of IEEE 754 and those of signed patterns, and
always moves in the direction that the places of the element and of the key give. A search that finds
nothing therefore ends where the key belongs. Whether or not the list is sorted, each probe is inside it and halves
what is left.

* `getElem?_of_found`: what is found has the bits of the key, whatever the list.
* `splits_of_absent`: in a sorted list the insertion index splits the elements into those below the key and
  those above it.
* `searchReading_eq`: the search reads only elements of the list, and only as many as halving takes.
* `binarySearch_locates`: what the search answers for sorted lists and for all lists.
-/

namespace RasterCategories.Binary64

variable {xs : List Binary64} {key : Binary64}

/-- The list is sorted in the total order; equal patterns may repeat. -/
def Sorted (xs : List Binary64) : Prop := xs.Pairwise fun x y => x.place ≤ y.place

/-- All elements before an index are below the key, all from that index on above it. -/
structure SplitsAt (xs : List Binary64) (key : Binary64) (p : Nat) : Prop where
  le_length : p ≤ xs.length
  below : ∀ i x, xs[i]? = some x → i < p → x.place < key.place
  above : ∀ i x, xs[i]? = some x → p ≤ i → key.place < x.place

/-- Where the comparisons of IEEE 754 do not decide, the fallback follows the total order. -/
theorem ranksBelow_iff {x : Binary64} (hlt : ¬ x < key) (hgt : ¬ key < x) (hne : x ≠ key) :
    ranksBelow x key = true ↔ x.place < key.place := by
  rw [lt_iff_place] at hlt hgt
  have hne : x.place ≠ key.place := fun h => hne (place_injective h)
  have hx := @isNaN_iff_place x
  have hk := @isNaN_iff_place key
  unfold ranksBelow
  -- The fallback is asked in three situations: two zeros, one NaN, or two NaNs.
  cases hnx : x.isNaN <;> cases hnk : key.isNaN <;> simp only [hnx, hnk] at hx hk
  -- Both are zeros, told apart by the sign bit.
  · have hzeros : x = zero ∧ key = negZero ∨ x = negZero ∧ key = zero := by
      simp only [← place_inj, place_zero, place_negZero]
      simp at hx hk
      omega
    rcases hzeros with ⟨rfl, rfl⟩ | ⟨rfl, rfl⟩ <;> decide
  · simp at hx hk ⊢
    omega
  · simp at hx hk ⊢
    omega
  · simp [signedBits_lt_iff_place hnx hnk]

/-- What is found between two indices has the bits of the key. -/
theorem getElem?_of_searchBetween {low high i : Nat} {h : high ≤ xs.length}
    (hfound : searchBetween xs key low high h = .found i) : xs[i]? = some key := by
  fun_induction searchBetween xs key low high h with
  | case1 low high h hlt mid hmid element hbelow ih => exact ih hfound
  | case2 low high h hlt mid hmid element _ habove ih => exact ih hfound
  | case3 low high h hlt mid hmid element _ _ heq =>
    obtain rfl : mid = i := SearchResult.found.inj hfound
    rw [List.getElem?_eq_getElem hmid, ← heq]
  | case4 low high h hlt mid hmid element _ _ _ hranks ih => exact ih hfound
  | case5 low high h hlt mid hmid element _ _ _ hranks ih => exact ih hfound
  | case6 => cases hfound

/-- What a search finds has the bits of the key. -/
theorem getElem?_of_found {i : Nat} (hfound : binarySearch xs key = .found i) :
    xs[i]? = some key :=
  getElem?_of_searchBetween hfound

/-- A probe below the key rules out all elements before it. -/
private theorem below_of_probe {mid : Nat} (hs : Sorted xs) (hmid : mid < xs.length)
    (hprobe : xs[mid].place < key.place) :
    ∀ i x, xs[i]? = some x → i < mid + 1 → x.place < key.place := by
  intro i x hx hi
  obtain ⟨hlen, rfl⟩ := List.getElem?_eq_some_iff.mp hx
  rcases Nat.lt_or_eq_of_le (Nat.le_of_lt_succ hi) with hlt | rfl
  · have := List.pairwise_iff_getElem.mp hs i mid hlen hmid hlt
    omega
  · exact hprobe

/-- A probe above the key rules out all elements from it on. -/
private theorem above_of_probe {mid : Nat} (hs : Sorted xs) (hmid : mid < xs.length)
    (hprobe : key.place < xs[mid].place) :
    ∀ i x, xs[i]? = some x → mid ≤ i → key.place < x.place := by
  intro i x hx hi
  obtain ⟨hlen, rfl⟩ := List.getElem?_eq_some_iff.mp hx
  rcases Nat.lt_or_eq_of_le hi with hlt | rfl
  · have := List.pairwise_iff_getElem.mp hs mid i hmid hlen hlt
    omega
  · exact hprobe

/-- The loop keeps the elements before `low` below the key and those from `high` on above it. -/
theorem splits_of_searchBetween {low high p : Nat} {h : high ≤ xs.length} (hs : Sorted xs)
    (hle : low ≤ high)
    (below : ∀ i x, xs[i]? = some x → i < low → x.place < key.place)
    (above : ∀ i x, xs[i]? = some x → high ≤ i → key.place < x.place)
    (habsent : searchBetween xs key low high h = .absent p) :
    SplitsAt xs key p := by
  -- Each probe keeps the invariant: what it rules out lies on the side to which the bound moves.
  fun_induction searchBetween xs key low high h with
  | case1 low high h hlt mid hmid element hbelow ih =>
    have hprobe : xs[mid].place < key.place := (lt_iff_place.mp hbelow).2.1
    exact ih (by omega) (below_of_probe hs hmid hprobe) above habsent
  | case2 low high h hlt mid hmid element _ habove ih =>
    have hprobe : key.place < xs[mid].place := (lt_iff_place.mp habove).2.1
    exact ih (by omega) below (above_of_probe hs hmid hprobe) habsent
  | case3 => cases habsent
  | case4 low high h hlt mid hmid element hnb hna hne hranks ih =>
    have hprobe : xs[mid].place < key.place := (ranksBelow_iff hnb hna hne).mp hranks
    exact ih (by omega) (below_of_probe hs hmid hprobe) above habsent
  | case5 low high h hlt mid hmid element hnb hna hne hranks ih =>
    -- Not below and not equal is above, since different patterns have different places.
    have hprobe : key.place < xs[mid].place := by
      have hnot : ¬ xs[mid].place < key.place := mt (ranksBelow_iff hnb hna hne).mpr hranks
      have hdiff : xs[mid].place ≠ key.place := fun heq => hne (place_injective heq)
      omega
    exact ih (by omega) below (above_of_probe hs hmid hprobe) habsent
  -- The two bounds have met, and the invariant is the claim.
  | case6 low high h hlt =>
    obtain rfl : low = p := SearchResult.absent.inj habsent
    exact ⟨by omega, below, fun i x hx hi => above i x hx (by omega)⟩

/-- A key that is not found belongs at the insertion index. -/
theorem splits_of_absent {p : Nat} (hs : Sorted xs) (habsent : binarySearch xs key = .absent p) :
    SplitsAt xs key p :=
  splits_of_searchBetween hs (Nat.zero_le _) (by simp)
    (fun i x hx hi => by
      rw [List.getElem?_eq_none hi] at hx
      cases hx)
    habsent

/-- The list is sorted if the comparison says so. -/
theorem sorted_iff : Sorted xs ↔ xs.Pairwise fun x y => x.compare y ≠ .gt := by
  simp only [Sorted, ne_eq, compare_eq_gt_iff, not_lt]

/-- An index that splits the list counts the elements below the key. -/
theorem SplitsAt.countP_eq {p : Nat} (h : SplitsAt xs key p) :
    xs.countP (fun x => x.compare key = .lt) = p := by
  have hbelow : ∀ x ∈ xs.take p, decide (x.compare key = .lt) = true := by
    intro x hx
    obtain ⟨i, hi, rfl⟩ := List.mem_take_iff_getElem.mp hx
    rw [decide_eq_true_eq, compare_eq_lt_iff]
    exact h.below i _ (List.getElem?_eq_getElem (by omega)) (by omega)
  have habove : ∀ x ∈ xs.drop p, ¬ decide (x.compare key = .lt) = true := by
    intro x hx
    obtain ⟨i, hi, rfl⟩ := List.mem_drop_iff_getElem.mp hx
    have hplace := h.above (p + i) _ (List.getElem?_eq_getElem (by omega)) (by omega)
    rw [decide_eq_true_eq, compare_eq_lt_iff]
    omega
  calc xs.countP (fun x => x.compare key = .lt)
      = (xs.take p).countP (fun x => x.compare key = .lt)
          + (xs.drop p).countP (fun x => x.compare key = .lt) := by
        rw [← List.countP_append, List.take_append_drop]
    _ = (xs.take p).length + 0 := by
        rw [List.countP_eq_length.mpr hbelow, List.countP_eq_zero.mpr habove]
    _ = p := by
        rw [Nat.add_zero, List.length_take, Nat.min_eq_left h.le_length]

/-- A key is found if the sorted list has it, and otherwise it belongs after the elements below it. -/
theorem binarySearch_of_sorted (hs : Sorted xs) (key : Binary64) :
    (key ∈ xs → ∃ i, binarySearch xs key = .found i ∧ xs[i]? = some key) ∧
      (key ∉ xs → binarySearch xs key = .absent (xs.countP fun x => x.compare key = .lt)) := by
  cases hsearch : binarySearch xs key with
  | found i =>
    have hfound := getElem?_of_found hsearch
    exact ⟨fun _ => ⟨i, rfl, hfound⟩, fun hnot => absurd (List.mem_of_getElem? hfound) hnot⟩
  | absent p =>
    have hsplits := splits_of_absent hs hsearch
    refine ⟨fun hmem => ?_, fun _ => by rw [hsplits.countP_eq]⟩
    -- No element is at the place of the key, neither before the insertion index nor after it.
    obtain ⟨i, hi⟩ := List.mem_iff_getElem?.mp hmem
    rcases Nat.lt_or_ge i p with hlt | hge
    · exact absurd (hsplits.below i key hi hlt) (lt_irrefl _)
    · exact absurd (hsplits.above i key hi hge) (lt_irrefl _)

/-! ### Probes -/

/-- The search for a key with a number of probes, through a reader that may refuse an index. There is no answer if
an index is refused, or if the probes are used up before the search ends. -/
def searchReading (read : Nat → Option Binary64) (key : Binary64) :
    (probes low high : Nat) → Option SearchResult
  | 0, low, high => if low < high then none else some (.absent low)
  | probes + 1, low, high =>
    if low < high then
      let mid := (low + high - 1) / 2
      (read mid).bind fun element =>
        if element < key then searchReading read key probes (mid + 1) high
        else if key < element then searchReading read key probes low mid
        else if element = key then some (.found mid)
        else if ranksBelow element key then searchReading read key probes (mid + 1) high
        else searchReading read key probes low mid
    else some (.absent low)

/-- A reader that refuses all indices outside the list is enough for the search, and so are as many probes as it takes
to halve the part that is searched until nothing is left. -/
theorem searchReading_eq {probes low high : Nat} (h : high ≤ xs.length) (hprobes : high - low < 2 ^ probes) :
    searchReading (fun i => xs[i]?) key probes low high = some (searchBetween xs key low high h) := by
  induction probes generalizing low high with
  | zero =>
    have hge : ¬ low < high := by
      rw [Nat.pow_zero] at hprobes
      omega
    rw [searchReading, searchBetween, if_neg hge, dif_neg hge]
  | succ probes ih =>
    rw [Nat.pow_succ] at hprobes
    rw [searchReading, searchBetween]
    by_cases hlt : low < high
    · have hmid : (low + high - 1) / 2 < xs.length := by omega
      rw [if_pos hlt, dif_pos hlt]
      dsimp only
      rw [List.getElem?_eq_getElem hmid, Option.bind_some]
      -- A probe that does not end the search leaves the part on one side of it, at most half of what was left.
      split_ifs with hbelow habove heq hranks
      · exact ih h (by omega)
      · exact ih (by omega) (by omega)
      · rfl
      · exact ih h (by omega)
      · exact ih (by omega) (by omega)
    · rw [if_neg hlt, dif_neg hlt]

/-- An insertion index lies inside the part that is searched, or at its end. -/
theorem le_of_searchBetween {low high p : Nat} {h : high ≤ xs.length} (hle : low ≤ high)
    (habsent : searchBetween xs key low high h = .absent p) : p ≤ high := by
  fun_induction searchBetween xs key low high h with
  | case1 low high h hlt mid hmid element hbelow ih => exact ih (by omega) habsent
  | case2 low high h hlt mid hmid element _ habove ih => exact (ih (by omega) habsent).trans (by omega)
  | case3 => cases habsent
  | case4 low high h hlt mid hmid element _ _ _ hranks ih => exact ih (by omega) habsent
  | case5 low high h hlt mid hmid element _ _ _ hranks ih => exact (ih (by omega) habsent).trans (by omega)
  | case6 => exact SearchResult.absent.inj habsent ▸ hle

/-- In a sorted list the search finds a key that the list has, and for any other key it gives the number of elements
below it. In every list it reads elements of the list alone and ends after as many probes as halving takes, an index
that it finds holds the key, and an insertion index is at most the length. -/
theorem binarySearch_locates (xs : List Binary64) (key : Binary64) :
    (xs.Pairwise (fun x y => x.compare y ≠ .gt) →
      (key ∈ xs → ∃ i, binarySearch xs key = .found i ∧ xs[i]? = some key) ∧
      (key ∉ xs → binarySearch xs key = .absent (xs.countP fun x => x.compare key = .lt)))
    ∧ (∀ probes, xs.length < 2 ^ probes →
        searchReading (fun i => xs[i]?) key probes 0 xs.length = some (binarySearch xs key))
    ∧ (∀ i, binarySearch xs key = .found i → xs[i]? = some key)
    ∧ ∀ p, binarySearch xs key = .absent p → p ≤ xs.length := by
  refine ⟨fun hs => binarySearch_of_sorted (sorted_iff.mpr hs) key, fun probes hprobes => ?_,
    fun i => getElem?_of_found, fun p habsent => le_of_searchBetween (Nat.zero_le _) habsent⟩
  exact searchReading_eq (Nat.le_refl _) (by rwa [Nat.sub_zero])

/-- A sorted list with an infinity at either end of the numbers, both zeros, one of them twice, and NaNs of either
sign. -/
def landmarks : List Binary64 :=
  [negInfinity, negZero, zero, zero, infinity, ofPattern 0xFFF8000000000000, nan]

/-- Positive zero is found, and one belongs after it. Three probes are enough for seven elements. -/
theorem binarySearch_locates_landmarks :
    landmarks.Pairwise (fun x y => x.compare y ≠ .gt)
      ∧ zero ∈ landmarks ∧ (∃ i, binarySearch landmarks zero = .found i ∧ landmarks[i]? = some zero)
      ∧ one ∉ landmarks ∧ binarySearch landmarks one = .absent 4
      ∧ searchReading (fun i => landmarks[i]?) one 3 0 7 = some (.absent 4) := by
  have hs : landmarks.Pairwise (fun x y => x.compare y ≠ .gt) := by decide
  have hmem : zero ∈ landmarks := by decide
  have hnot : one ∉ landmarks := by decide
  obtain ⟨hsorted, hprobes, -, -⟩ := binarySearch_locates landmarks one
  have habsent := (hsorted hs).2 hnot
  have hcount : landmarks.countP (fun x => x.compare one = .lt) = 4 := by decide
  rw [hcount] at habsent
  have hreading := hprobes 3 (by decide)
  rw [habsent] at hreading
  exact ⟨hs, hmem, ((binarySearch_locates landmarks zero).1 hs).1 hmem, hnot, habsent, hreading⟩

end RasterCategories.Binary64
