import Mathlib.Data.List.Forall2
import RasterCategories.Proofs.Legend.Built
import RasterCategories.Proofs.Search.Ascending
import RasterCategories.Proofs.Search.Repeated
/-!
# Owners in a legend

What the searches of a built legend answer, whichever domain it is seen from. The search for one value agrees
with the membership of its categories, and only legends of real values extrapolate. It never goes back to an
earlier category as the values grow. The search for an array gives each value the position of its owner, unless
several categories start at positive zero.

* `Legend.owner?_agrees_with_membership`: the search for one value.
* `Legend.owner?_monotone`: each category owns one interval of numbers.
* `Legend.owners_agree_with_owner?`: the search for the values of an array.
* `Legend.owners_startingTwice`: two categories that start at positive zero, of which the searches find
  different ones.
-/

namespace RasterCategories.Legend

variable {l : Legend Transform} {members : List (Category Transform)} {c : Category Transform}

/-! ### One value -/

/-- A legend whose converse is another legend has a category that converts to an interval. -/
theorem exists_interval_of_samples (h : pairingOf members = .samples) :
    ∃ c ∈ members, c.converseSide.interval.isSome = true := by
  unfold pairingOf at h
  split at h
  · cases h
  · next hnotall => simpa [Option.isSome_iff_ne_none] using hnotall

/-- The converse of a legend is one of real values if the legend is one of samples that has them. -/
theorem pairing_converse_eq_reals_iff : l.converse.pairing = .reals ↔ l.pairing = .samples := by
  rcases l with ⟨token, config, _ | _ | _ | _ | _, members, order⟩ <;> simp [converse, empty]

/-- Exactly the legends of real values extrapolate. -/
theorem IsBuilt.top?_ne_none_iff (hl : l.IsBuilt) : l.table.top? ≠ none ↔ l.pairing = .reals := by
  constructor
  · intro htop
    by_contra hne
    exact htop (by simp [SearchTable.top?, table, hne])
  · intro hreals
    obtain ⟨token, config, cs, m, hdeclared, hm, rfl | rfl⟩ := hl.exists_construction
    · obtain ⟨members, -, rfl, -, -⟩ := ofCategories_eq_ok_iff.mp hm
      exact absurd hreals (pairingOf_ne_reals members)
    · have hsound := (sound_of_ofCategories hdeclared hm).2
      obtain ⟨members, -, rfl, -, -⟩ := ofCategories_eq_ok_iff.mp hm
      have hsamples : pairingOf members = .samples := pairing_converse_eq_reals_iff.mp hreals
      obtain ⟨c, hc, hsome⟩ := exists_interval_of_samples hsamples
      have hmem := (categories_converse_perm token config members).mem_iff.mpr (List.mem_map_of_mem hc)
      rw [hsamples] at hsound ⊢
      rw [← Category.here_converse] at hsome
      -- The converse of this category is an interval among the real values.
      have hwf := (hsound.categories _ hmem).here
      refine SearchTable.top?_ne_none rfl (List.mem_map.mpr ⟨_, hmem, rfl⟩) ?_
      rw [hwf.isNaN_high]
      exact hwf.interval_isSome_iff.mp hsome

/-- The search for a value agrees with the membership of the categories. A legend extrapolates if it is one of
real values. -/
theorem owner?_agrees_with_membership (hl : l.IsBuilt) (x : Binary64) :
    l.table.Assigns x (l.owner? x) ∧ (l.table.top? ≠ none ↔ l.pairing = .reals) :=
  ⟨hl.sound.ordered.assigns_owner? x, hl.top?_ne_none_iff⟩

/-- One hundred is no depth of the raster. Among the real values the category of depths is next to it. -/
theorem owner?_agrees_with_membership_depths : ∃ cs l, depthCategories = .ok cs
    ∧ ofCategories 0 .default cs = .ok l ∧ l.converse.IsBuilt ∧ l.converse.owner? (.ofInt 100) = some 0
    ∧ l.converse.table.Assigns (.ofInt 100) (some 0)
    ∧ (l.converse.table.top? ≠ none ↔ l.converse.pairing = .reals) := by
  have hpasses : passes 0 .default depthCategories
      (fun _ l => l.converse.owner? (.ofInt 100) = some 0) = true := by decide +kernel
  obtain ⟨cs, l, hcs, hl, howner⟩ := exists_of_passes hpasses
  rw [decide_eq_true_eq] at howner
  obtain ⟨hdeclared, haffine⟩ := of_depthCategories hcs
  have hbuilt := (isBuilt_of_isAffine hdeclared haffine hl).converse
  have hagrees := owner?_agrees_with_membership hbuilt (.ofInt 100)
  rw [howner] at hagrees
  exact ⟨cs, l, hcs, hl, hbuilt, howner, hagrees⟩

/-! ### The order of owners -/

/-- A greater number has no earlier owner, and the numbers between two of one owner have the same owner. -/
theorem owner?_monotone (hl : l.IsBuilt) {v w : Binary64} {i j : Nat} (hv : v.isNaN = false)
    (hw : w.isNaN = false) (hle : v.compare w ≠ .gt) (hi : l.owner? v = some i) (hj : l.owner? w = some j) :
    i ≤ j ∧ (i = j → ∀ u, v.compare u ≠ .gt → u.compare w ≠ .gt → l.owner? u = some i) := by
  simp only [ne_eq, Binary64.compare_eq_gt_iff, not_lt] at hle ⊢
  have hordered := hl.sound.ordered
  refine ⟨hordered.owner?_mono hv hw hle hi hj, ?_⟩
  rintro rfl u hvu huw
  exact hordered.owner?_between hv hw hvu huw hi hj

/-- The categories of a raster of packed heights above the sea, with no height from eleven to nineteen. -/
def heightCategories : Except Error (List (Category Transform)) := do
  let shore ← Category.quantitative 1 "Shore" (.bounds [.zero, .ten]) (some (.linear metersOfPacked)) none
  let hills ← Category.quantitative 2 "Hills" (.bounds [.ofInt 20, .ofInt 30]) (some (.linear metersOfPacked)) none
  return [shore, hills]

/-- These categories are declared, and affine. -/
theorem of_heightCategories {cs : List (Category Transform)} (h : heightCategories = .ok cs) :
    (∀ c ∈ cs, Category.IsDeclared c) ∧ ∀ c ∈ cs, c.forward.IsAffine := by
  obtain ⟨shore, hshore, h⟩ := exists_of_bind_eq_ok h
  obtain ⟨hills, hhills, h⟩ := exists_of_bind_eq_ok h
  obtain rfl := Except.ok.inj h
  simp only [List.mem_cons, List.not_mem_nil, or_false, forall_eq_or_imp, forall_eq]
  exact ⟨⟨.quantitative hshore, .quantitative hhills⟩,
    Category.isAffine_of_quantitative hshore (by rintro _ ⟨⟩; exact .linear _),
    Category.isAffine_of_quantitative hhills (by rintro _ ⟨⟩; exact .linear _)⟩

/-- Twenty-five and forty are no heights of the raster. The first goes to the shore and the second to the hills,
with which all numbers up to one hundred go. -/
theorem owner?_monotone_heights : ∃ cs l, heightCategories = .ok cs ∧ ofCategories 0 .default cs = .ok l
    ∧ l.converse.IsBuilt ∧ (.ofInt 25 : Binary64).compare (.ofInt 40) ≠ .gt
    ∧ (.ofInt 40 : Binary64).compare (.ofInt 100) ≠ .gt
    ∧ l.converse.owner? (.ofInt 25) = some 0 ∧ l.converse.owner? (.ofInt 40) = some 1
    ∧ l.converse.owner? (.ofInt 100) = some 1 ∧ 0 ≤ 1
    ∧ ∀ u, (.ofInt 40 : Binary64).compare u ≠ .gt → u.compare (.ofInt 100) ≠ .gt →
        l.converse.owner? u = some 1 := by
  have hpasses : passes 0 .default heightCategories (fun _ l => l.converse.owner? (.ofInt 25) = some 0
      ∧ l.converse.owner? (.ofInt 40) = some 1 ∧ l.converse.owner? (.ofInt 100) = some 1) = true := by
    decide +kernel
  obtain ⟨cs, l, hcs, hl, howners⟩ := exists_of_passes hpasses
  obtain ⟨hlow, hhigh, hfar⟩ := of_decide_eq_true howners
  obtain ⟨hdeclared, haffine⟩ := of_heightCategories hcs
  have hbuilt := (isBuilt_of_isAffine hdeclared haffine hl).converse
  have hle : (.ofInt 25 : Binary64).compare (.ofInt 40) ≠ .gt := by decide +kernel
  have hle' : (.ofInt 40 : Binary64).compare (.ofInt 100) ≠ .gt := by decide +kernel
  have hascending := owner?_monotone hbuilt (by decide +kernel) (by decide +kernel) hle hlow hhigh
  have hinterval := owner?_monotone hbuilt (by decide +kernel) (by decide +kernel) hle' hhigh hfar
  exact ⟨cs, l, hcs, hl, hbuilt, hle, hle', hlow, hhigh, hfar, hascending.1, hinterval.2 rfl⟩

/-! ### The values of an array -/

/-- The search for the values of an array finds the owner of each, but for positive zero where several
categories start at it. -/
theorem owners_agree_with_owner? (hl : l.IsBuilt) (xs : List Binary64) :
    List.Forall₂ l.table.Locates xs (l.owners xs) := by
  rw [owners, SearchTable.locateAll, List.forall₂_map_right_iff]
  exact List.forall₂_same.mpr fun x _ => hl.sound.ordered.locates_locate x

/-- The packed depth two, a NaN and the mark of land are found where each belongs. -/
theorem owners_agree_with_owner?_depths : ∃ cs l, depthCategories = .ok cs
    ∧ ofCategories 0 .default cs = .ok l ∧ l.IsBuilt ∧ l.owners [.two, .ofOrdinal 0, .zero] = [1, -1, 0]
    ∧ List.Forall₂ l.table.Locates [.two, .ofOrdinal 0, .zero] [1, -1, 0] := by
  have hpasses : passes 0 .default depthCategories
      (fun _ l => l.owners [.two, .ofOrdinal 0, .zero] = [1, -1, 0]) = true := by decide +kernel
  obtain ⟨cs, l, hcs, hl, howners⟩ := exists_of_passes hpasses
  rw [decide_eq_true_eq] at howners
  obtain ⟨hdeclared, haffine⟩ := of_depthCategories hcs
  have hbuilt := isBuilt_of_isAffine hdeclared haffine hl
  have hagree := owners_agree_with_owner? hbuilt [.two, .ofOrdinal 0, .zero]
  rw [howners] at hagree
  exact ⟨cs, l, hcs, hl, hbuilt, howners, hagree⟩

/-- Two categories that both start at positive zero. The first ends at negative zero, below its start in the
order of the bits. -/
def zeroCategories : Except Error (List (Category Transform)) := do
  let dry ← Category.quantitative 1 "Dry" (.bounds [.zero, .negZero]) none none
  let wet ← Category.quantitative 2 "Wet" (.bounds [.zero, .ofInt 5]) none none
  return [dry, wet]

/-- The construction accepts these categories. Positive zero alone is found in the first one, and in an array
it is found in the second. -/
theorem owners_startingTwice : ∃ cs l, zeroCategories = .ok cs ∧ (∀ c ∈ cs, Category.IsDeclared c)
    ∧ ofCategories 0 .default cs = .ok l ∧ l.IsBuilt
    ∧ l.owner? .zero = some 0 ∧ l.owners [.zero] = [1] := by
  have hpasses : passes 0 .default zeroCategories
      (fun _ l => l.owner? .zero = some 0 ∧ l.owners [.zero] = [1]) = true := by decide +kernel
  obtain ⟨cs, l, hcs, hl, hfound⟩ := exists_of_passes hpasses
  rw [decide_eq_true_eq] at hfound
  obtain ⟨dry, hdry, h⟩ := exists_of_bind_eq_ok hcs
  obtain ⟨wet, hwet, h⟩ := exists_of_bind_eq_ok h
  obtain rfl := Except.ok.inj h
  have hdeclared : ∀ c ∈ [dry, wet], Category.IsDeclared c := by
    simpa using ⟨Category.IsDeclared.quantitative hdry, Category.IsDeclared.quantitative hwet⟩
  have haffine : ∀ c ∈ [dry, wet], c.forward.IsAffine := by
    simpa using ⟨Category.isAffine_of_quantitative hdry (by rintro _ ⟨⟩),
      Category.isAffine_of_quantitative hwet (by rintro _ ⟨⟩)⟩
  exact ⟨_, l, hcs, hdeclared, hl, isBuilt_of_isAffine hdeclared haffine hl, hfound⟩

end RasterCategories.Legend
