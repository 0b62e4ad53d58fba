import RasterCategories.Proofs.Interval.Hull
import RasterCategories.Proofs.Legend.Shape
/-!
# The hull of a legend

The hull is taken over the declared intervals of the categories, while their sides have the bounds that lie inside,
in the order of which the categories are sorted and kept apart. A side over an interval has the least and the
greatest number of the interval for its bounds, so the hull reaches just as far as the sides do.

* `Side.Tight`: the bounds of a side are those inside its interval.
* `Legend.Spans`: an interval runs from the first category to the last interval, and is the smallest one that
  contains all intervals.
* `Legend.hull?_spans`: a legend has a hull if a category has an interval, and the hull spans the legend.
-/

namespace RasterCategories

/-! ### Sides over intervals -/

namespace Side

variable {s : Side} {r : Interval} {x : Binary64} {name : String}

/-- A side over an interval starts at the least number of the interval and ends at the greatest one. -/
def Tight (s : Side) : Prop := ∀ r, s.interval = some r → s.low = r.least ∧ s.high = r.greatest

/-- Only the bounds and the interval of a side count. -/
theorem Tight.congr {t : Side} (hs : s.Tight) (hlow : t.low = s.low) (hhigh : t.high = s.high)
    (hinterval : t.interval = s.interval) : t.Tight := by
  intro r hr
  rw [hlow, hhigh]
  exact hs r (hinterval ▸ hr)

theorem tight_ofSamples {samples : Samples} (h : ofSamples name samples = .ok s) : s.Tight := by
  intro r hr
  unfold ofSamples at h
  split at h
  · obtain rfl := Except.ok.inj h
    cases hr
  · obtain ⟨q, -, hq⟩ := exists_of_bind_eq_ok h
    unfold ofInterval at hq
    split at hq
    · cases hq
    · obtain rfl := Except.ok.inj hq
      obtain rfl := Option.some.inj hr
      exact ⟨rfl, rfl⟩

/-- The interval of computed values includes its bounds. -/
theorem tight_ofImages (name : String) (low high : Binary64) (units : Option String) :
    (ofImages name low high units).Tight := by
  intro r hr
  simp only [ofImages, Interval.ofBounds?] at hr
  split at hr
  · cases hr
  · split at hr
    · obtain rfl := Option.some.inj hr
      exact ⟨rfl, rfl⟩
    · cases hr

/-- The bounds of a side over an interval are in order. -/
theorem WellFormed.low_le_high (hs : s.WellFormed) (hsome : s.interval.isSome = true) : s.low ≤ s.high := by
  rcases hs with ⟨hle, -⟩ | ⟨-, -, hnone⟩
  · exact hle
  · simp [hnone] at hsome

/-- What belongs to a side over an interval lies between its bounds. -/
theorem WellFormed.contains_iff (hs : s.WellFormed) (hsome : s.interval.isSome = true) :
    s.contains x = true ↔ s.low ≤ x ∧ x ≤ s.high := by
  have hle := hs.low_le_high hsome
  unfold contains
  rw [decide_eq_true_eq]
  refine or_iff_left_of_imp ?_
  rintro rfl
  exact ⟨Binary64.le_refl hle.1, hle⟩

end Side

/-- Both sides of a declared category are tight. -/
theorem Category.IsDeclared.tight {c : Category Transform} (h : c.IsDeclared) :
    c.here.Tight ∧ c.converseSide.Tight := by
  induction h with
  | qualitative h =>
    obtain ⟨side, nan, hside, -, -, -, rfl⟩ := Category.qualitative_ok h
    exact ⟨Side.tight_ofSamples hside, Side.tight_ofImages _ _ _ _⟩
  | quantitative h =>
    obtain ⟨side, hside, h⟩ := exists_of_bind_eq_ok h
    have htight := Side.tight_ofSamples hside
    split at h
    · obtain rfl := Except.ok.inj h
      have hplain := htight.congr (t := { side with units := _ }) rfl rfl rfl
      exact ⟨hplain, hplain⟩
    · obtain ⟨_, _, _, -, -, -, -, -, -, rfl⟩ := Category.convertedBy_ok h
      exact ⟨htight, Side.tight_ofImages _ _ _ _⟩
  | converse _ ih =>
    rw [Category.here_converse, Category.converseSide_converse]
    exact ih.symm
  | @asPlain _ c _ ih =>
    unfold Category.asPlain
    split
    · have hplain := ih.1.congr (t := { c.here with converted := false }) rfl rfl rfl
      exact ⟨hplain, hplain⟩
    · exact ih

/-! ### The hull -/

namespace Legend

variable {l : Legend Transform} {r : Interval} {x : Binary64}

/-- An interval starts with the first category and ends with the last one that has an interval. It contains what
belongs to the categories that have an interval, and no smaller interval does. -/
structure Spans (l : Legend Transform) (r : Interval) : Prop where
  least : ∃ c, l.categories.head? = some c ∧ r.least.EqualTo c.here.low
  greatest : ∃ c, (l.categories.filter fun c => c.here.interval.isSome).getLast? = some c
    ∧ r.greatest.EqualTo c.here.high
  contains : ∀ c ∈ l.categories, c.here.interval.isSome = true →
    ∀ x, c.here.contains x = true → r.contains x = true
  smallest : ∀ s : Interval, (∀ c ∈ l.categories, c.here.interval.isSome = true →
    ∀ x, c.here.contains x = true → s.contains x = true) → ∀ x, r.contains x = true → s.contains x = true

/-- A legend has no hull if no category has an interval. -/
theorem hull?_eq_none_iff : l.hull? = none ↔ ∀ c ∈ l.categories, c.here.interval = none := by
  rw [← List.filterMap_eq_nil_iff]
  unfold hull?
  split <;> simp_all

namespace IsBuilt

/-- The hull is that of some intervals, whose least and greatest numbers are the bounds of the categories that are no
NaNs. -/
theorem exists_of_hull? (hl : l.IsBuilt) (h : l.hull? = some r) : ∃ q qs, r = (q :: qs).foldl Interval.hull q
    ∧ (∀ s ∈ q :: q :: qs, ∃ c ∈ l.categories, c.here.low = s.least ∧ c.here.high = s.greatest)
    ∧ ∀ c ∈ l.categories, c.here.low.isNaN = false →
      ∃ s ∈ q :: q :: qs, c.here.low = s.least ∧ c.here.high = s.greatest := by
  unfold hull? at h
  split at h
  · cases h
  · next q qs hintervals =>
    have hmem : ∀ s, s ∈ q :: q :: qs ↔ ∃ c ∈ l.categories, c.here.interval = some s := by
      intro s
      rw [← List.mem_filterMap, hintervals]
      simp
    refine ⟨q, qs, (Option.some.inj h).symm, fun s hs => ?_, fun c hc hnumber => ?_⟩
    · obtain ⟨c, hc, hinterval⟩ := (hmem s).mp hs
      exact ⟨c, hc, (hl.isDeclared c hc).tight.1 s hinterval⟩
    · obtain ⟨s, hinterval⟩ := Option.isSome_iff_exists.mp
        ((hl.sound.categories c hc).here.interval_isSome_iff.mpr hnumber)
      exact ⟨s, (hmem s).mpr ⟨c, hc, hinterval⟩, (hl.isDeclared c hc).tight.1 s hinterval⟩

/-- The hull reaches down to a number if a category does. -/
theorem least_le_iff_of_hull? (hl : l.IsBuilt) (h : l.hull? = some r) :
    r.least ≤ x ↔ ∃ c ∈ l.categories, c.here.low ≤ x := by
  obtain ⟨q, qs, rfl, hof, hto⟩ := hl.exists_of_hull? h
  rw [Interval.least_foldl_hull_le_iff]
  constructor
  · rintro ⟨s, hs, hle⟩
    obtain ⟨c, hc, hlow, -⟩ := hof s hs
    exact ⟨c, hc, hlow ▸ hle⟩
  · rintro ⟨c, hc, hle⟩
    obtain ⟨s, hs, hlow, -⟩ := hto c hc hle.1
    exact ⟨s, hs, hlow ▸ hle⟩

/-- The hull reaches up to a number if a category does. -/
theorem le_greatest_iff_of_hull? (hl : l.IsBuilt) (h : l.hull? = some r) :
    x ≤ r.greatest ↔ ∃ c ∈ l.categories, x ≤ c.here.high := by
  obtain ⟨q, qs, rfl, hof, hto⟩ := hl.exists_of_hull? h
  rw [Interval.le_greatest_foldl_hull_iff]
  constructor
  · rintro ⟨s, hs, hle⟩
    obtain ⟨c, hc, -, hhigh⟩ := hof s hs
    exact ⟨c, hc, hhigh ▸ hle⟩
  · rintro ⟨c, hc, hle⟩
    have hnumber := (hl.sound.categories c hc).here.isNaN_high ▸ hle.2.1
    obtain ⟨s, hs, -, hhigh⟩ := hto c hc hnumber
    exact ⟨s, hs, hhigh ▸ hle⟩

/-- No category starts below the first one. -/
theorem head?_low_le (hl : l.IsBuilt) {first c : Category Transform} (hfirst : l.categories.head? = some first)
    (hc : c ∈ l.categories) (hnumber : c.here.low.isNaN = false) : first.here.low ≤ c.here.low := by
  obtain ⟨rest, hrest⟩ := List.head?_eq_some_iff.mp hfirst
  have hsorted := hl.sound.ordered.sorted_lows
  rw [Binary64.Sorted, SearchTable.lows, table, List.map_map, hrest, List.map_cons, List.pairwise_cons] at hsorted
  have hplace : first.here.low.place ≤ c.here.low.place := by
    rw [hrest] at hc
    rcases List.mem_cons.mp hc with rfl | hc
    · exact le_refl _
    · exact hsorted.1 _ (List.mem_map_of_mem hc)
  rw [Binary64.isNaN_eq_false_iff_place] at hnumber
  exact Binary64.le_iff_place.mpr ⟨by omega, hnumber, Or.inl hplace⟩

/-- No interval ends above the last one. -/
theorem high_le_getLast? (hl : l.IsBuilt) {last c : Category Transform}
    (hlast : (l.categories.filter fun c => c.here.interval.isSome).getLast? = some last)
    (hc : c ∈ l.categories) (hnumber : c.here.high.isNaN = false) : c.here.high ≤ last.here.high := by
  have hsome := (hl.sound.categories c hc).here.interval_isSome_of_high hnumber
  obtain ⟨before, hbefore⟩ := List.getLast?_eq_some_iff.mp hlast
  have hmem : c ∈ before ++ [last] := hbefore ▸ List.mem_filter.mpr ⟨hc, hsome⟩
  rcases List.mem_append.mp hmem with hc | hc
  -- What ends before the last interval starts also ends before that interval ends.
  · have hseparate := hl.sound.ordered.separate
    rw [table, List.pairwise_map] at hseparate
    have hfiltered := hseparate.filter fun c => c.here.interval.isSome
    rw [hbefore, List.pairwise_append] at hfiltered
    have hplace := hfiltered.2.2 c hc last (List.mem_singleton_self last)
    obtain ⟨hin, hinterval⟩ := List.mem_filter.mp (List.mem_of_getLast? hlast)
    have hle := (hl.sound.categories last hin).here.low_le_high hinterval
    rw [Binary64.isNaN_eq_false_iff_place] at hnumber
    rw [Binary64.le_iff_place] at hle ⊢
    omega
  · obtain rfl := List.mem_singleton.mp hc
    exact Binary64.le_refl hnumber

/-- The least number of the hull is the least value of the first category. -/
theorem exists_least (hl : l.IsBuilt) (h : l.hull? = some r) :
    ∃ c, l.categories.head? = some c ∧ r.least.EqualTo c.here.low := by
  obtain ⟨c, hc, hle⟩ := (hl.least_le_iff_of_hull? h).mp (Binary64.le_refl r.isNaN_least)
  obtain ⟨first, hfirst⟩ := Option.isSome_iff_exists.mp (List.isSome_head?.mpr (List.ne_nil_of_mem hc))
  have hlow := hl.head?_low_le hfirst hc hle.1
  have hreach := (hl.least_le_iff_of_hull? h).mpr
    ⟨first, List.mem_of_head? hfirst, Binary64.le_refl hlow.1⟩
  exact ⟨first, hfirst, r.isNaN_least, hlow.1, le_antisymm hreach.2.2 (Binary64.le_trans hlow hle).2.2⟩

/-- The greatest number of the hull is the greatest value of the last category that has an interval. -/
theorem exists_greatest (hl : l.IsBuilt) (h : l.hull? = some r) :
    ∃ c, (l.categories.filter fun c => c.here.interval.isSome).getLast? = some c
      ∧ r.greatest.EqualTo c.here.high := by
  obtain ⟨c, hc, hle⟩ := (hl.le_greatest_iff_of_hull? h).mp (Binary64.le_refl r.isNaN_greatest)
  have hmem : c ∈ l.categories.filter fun c => c.here.interval.isSome :=
    List.mem_filter.mpr ⟨hc, (hl.sound.categories c hc).here.interval_isSome_of_high hle.2.1⟩
  obtain ⟨last, hlast⟩ := Option.isSome_iff_exists.mp (List.getLast?_isSome.mpr (List.ne_nil_of_mem hmem))
  have hhigh := hl.high_le_getLast? hlast hc hle.2.1
  have hreach := (hl.le_greatest_iff_of_hull? h).mpr
    ⟨last, List.mem_of_mem_filter (List.mem_of_getLast? hlast), Binary64.le_refl hhigh.2.1⟩
  exact ⟨last, hlast, r.isNaN_greatest, hhigh.2.1,
    le_antisymm (Binary64.le_trans hle hhigh).2.2 hreach.2.2⟩

/-- The hull spans the legend. -/
theorem spans (hl : l.IsBuilt) (h : l.hull? = some r) : l.Spans r where
  least := hl.exists_least h
  greatest := hl.exists_greatest h
  contains := by
    intro c hc hsome x hx
    obtain ⟨hlow, hhigh⟩ := ((hl.sound.categories c hc).here.contains_iff hsome).mp hx
    exact Interval.contains_iff.mpr
      ⟨(hl.least_le_iff_of_hull? h).mpr ⟨c, hc, hlow⟩, (hl.le_greatest_iff_of_hull? h).mpr ⟨c, hc, hhigh⟩⟩
  smallest := by
    intro s hs x hx
    obtain ⟨hleast, hgreatest⟩ := Interval.contains_iff.mp hx
    obtain ⟨c, hc, hlow⟩ := (hl.least_le_iff_of_hull? h).mp hleast
    obtain ⟨d, hd, hhigh⟩ := (hl.le_greatest_iff_of_hull? h).mp hgreatest
    have hwfc := (hl.sound.categories c hc).here
    have hwfd := (hl.sound.categories d hd).here
    have hsomec := hwfc.interval_isSome_iff.mpr hlow.1
    have hsomed := hwfd.interval_isSome_of_high hhigh.2.1
    -- The other interval contains the number where the first category starts and the one where the second ends.
    have hstart := hs c hc hsomec c.here.low
      ((hwfc.contains_iff hsomec).mpr ⟨Binary64.le_refl hlow.1, hwfc.low_le_high hsomec⟩)
    have hend := hs d hd hsomed d.here.high
      ((hwfd.contains_iff hsomed).mpr ⟨hwfd.low_le_high hsomed, Binary64.le_refl hhigh.2.1⟩)
    exact Interval.contains_iff.mpr ⟨Binary64.le_trans (Interval.contains_iff.mp hstart).1 hlow,
      Binary64.le_trans hhigh (Interval.contains_iff.mp hend).2⟩

end IsBuilt

/-- A legend has a hull if some category has an interval. The hull starts with the first category and ends with the
last interval. It contains what these categories contain, and no smaller interval does. -/
theorem hull?_spans (hl : l.IsBuilt) :
    (l.hull? = none ↔ ∀ c ∈ l.categories, c.here.interval = none) ∧ ∀ r, l.hull? = some r → l.Spans r :=
  ⟨hull?_eq_none_iff, fun _ h => hl.spans h⟩

/-- The categories of a raster of depths, shallow ones above zero and up to five, and deep ones beyond, and of a mark
for what is missing. -/
def openCategories : Except Error (List (Category Transform)) := do
  let near ← Interval.of .zero (.ofInt 5) false true
  let far ← Interval.of (.ofInt 5) .infinity false false
  let shallow ← Category.quantitative 1 "Shallow" (.interval near) none none
  let deep ← Category.quantitative 2 "Deep" (.interval far) none none
  let missing ← Category.quantitative 3 "Missing" (.number .nan) none none
  return [missing, deep, shallow]

/-- These categories are declared, and affine. -/
theorem of_openCategories {cs : List (Category Transform)} (h : openCategories = .ok cs) :
    (∀ c ∈ cs, Category.IsDeclared c) ∧ ∀ c ∈ cs, c.forward.IsAffine := by
  obtain ⟨near, -, h⟩ := exists_of_bind_eq_ok h
  obtain ⟨far, -, h⟩ := exists_of_bind_eq_ok h
  obtain ⟨shallow, hshallow, h⟩ := exists_of_bind_eq_ok h
  obtain ⟨deep, hdeep, h⟩ := exists_of_bind_eq_ok h
  obtain ⟨missing, hmissing, h⟩ := exists_of_bind_eq_ok h
  obtain rfl := Except.ok.inj h
  simp only [List.mem_cons, List.not_mem_nil, or_false, forall_eq_or_imp, forall_eq]
  exact ⟨⟨.quantitative hmissing, .quantitative hdeep, .quantitative hshallow⟩,
    Category.isAffine_of_quantitative hmissing (by rintro _ ⟨⟩),
    Category.isAffine_of_quantitative hdeep (by rintro _ ⟨⟩),
    Category.isAffine_of_quantitative hshallow (by rintro _ ⟨⟩)⟩

/-- The hull of these depths runs from zero to infinity, and contains neither. -/
theorem hull?_spans_depths : ∃ cs l r, openCategories = .ok cs ∧ ofCategories 0 .default cs = .ok l ∧ l.IsBuilt
    ∧ l.hull? = some r ∧ (r.low = .zero ∧ r.high = .infinity ∧ r.lowClosed = false ∧ r.highClosed = false)
    ∧ l.Spans r := by
  have hpasses : passes 0 .default openCategories (fun _ l => l.hull?.any fun r =>
      r.low = .zero ∧ r.high = .infinity ∧ r.lowClosed = false ∧ r.highClosed = false) = true := by decide +kernel
  obtain ⟨cs, l, hcs, hl, hhull⟩ := exists_of_passes hpasses
  obtain ⟨r, hr, hbounds⟩ := (Option.any_eq_true _ _).mp hhull
  obtain ⟨hdeclared, haffine⟩ := of_openCategories hcs
  have hbuilt := isBuilt_of_isAffine hdeclared haffine hl
  exact ⟨cs, l, r, hcs, hl, hbuilt, hr, of_decide_eq_true hbounds, (hull?_spans hbuilt).2 r hr⟩

end Legend

end RasterCategories
