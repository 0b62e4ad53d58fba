import RasterCategories.Proofs.Conversion.Equality
/-!
# A transform in place of a legend

If all categories of a legend convert by equal transforms, the transform of the first one can stand in for the
legend. It refuses no value that the legend accepts. What it gives is what the legend gives, except that a legend of
real values confines the result to the samples of the category that owns the value.

* `Legend.IsBuilt.exists_of_convert`: how a value that a legend accepts is converted.
* `Legend.standIn_of_convert`: what the stand-in gives for it.
* `Legend.standIn_ne_convert`: values for which the two differ.
-/

namespace RasterCategories

namespace Side

variable {s : Side} {z : Binary64}

/-- Nothing is changed by confining exactly if it lies neither below nor above the side. -/
theorem confine_eq_self_iff : s.confine z = z ↔ ¬ z < s.low ∧ ¬ s.high < z := by
  have hirrefl : ∀ x : Binary64, ¬ x < x := fun x h => absurd h.2.2 (lt_irrefl _)
  unfold confine Binary64.confine
  constructor
  · intro h
    split at h
    · next hlow => exact absurd (h ▸ hlow) (hirrefl z)
    · next hlow =>
      split at h
      · next hhigh => exact absurd (h ▸ hhigh) (hirrefl z)
      · next hhigh => exact ⟨hlow, hhigh⟩
  · rintro ⟨hlow, hhigh⟩
    rw [if_neg hlow, if_neg hhigh]

/-- What is confined stays as it is. -/
theorem confine_confine (hs : s.WellFormed) (z : Binary64) : s.confine (s.confine z) = s.confine z := by
  have hirrefl : ∀ x : Binary64, ¬ x < x := fun x h => absurd h.2.2 (lt_irrefl _)
  have hordered : ¬ s.high < s.low := by
    rcases hs with ⟨hle, -⟩ | ⟨hnan, -, -⟩
    · exact fun h => absurd h.2.2 (not_lt.mpr hle.2.2)
    · exact fun h => by simp [h.2.1] at hnan
  rw [confine_eq_self_iff]
  unfold confine Binary64.confine
  split
  · exact ⟨hirrefl _, hordered⟩
  · next hlow =>
    split
    · exact ⟨hordered, hirrefl _⟩
    · next hhigh => exact ⟨hlow, hhigh⟩

end Side

namespace Legend

variable {l : Legend Transform} {t : Transform} {x y : Binary64} {hints : Hints}

/-- A value that a legend accepts is converted by its owner, and confined to the samples of the owner in a legend
of real values. -/
theorem IsBuilt.exists_of_convert (hl : l.IsBuilt) (hverify : l.config.verifyReturn = false)
    (hy : ((l.convert x).run hints).1 = .ok y) :
    ∃ i c z, l.owner? x = some i ∧ l.categories[i]? = some c ∧ (c.forward.apply x).fresh = .ok z
      ∧ y = if l.pairing = .reals then c.converseSide.confine z else z := by
  cases howner : l.owner? x with
  | none =>
    rw [hl.convert_of_unowned howner] at hy
    cases hy
  | some i =>
    have hlen := hl.sound.ordered.owner?_lt_length howner
    rw [table, List.length_map] at hlen
    have hc := List.getElem?_eq_getElem hlen
    cases hz : (l.categories[i].forward.apply x).fresh with
    | error e =>
      have htable : l.active.table.owner? x = some i := (congrArg (·.owner? x) (table_map _ l)).trans howner
      rw [hl.run_convert, pureValue_of_owner?_error htable (getElem?_active hc) hz] at hy
      cases hy
    | ok z =>
      rw [hl.convert_of_unverified hverify howner hc hz, hl.settle_eq] at hy
      exact ⟨i, _, z, rfl, hc, hz, (Except.ok.inj hy).symm⟩

/-- A transform that all categories share is equal to the transform of each. -/
theorem same_of_sharedTransform? (h : l.sharedTransform? = some t) :
    ∃ d ∈ l.categories, d.forward = t ∧ ∀ c ∈ l.categories, c.forward = t ∨ c.forward.same t = true := by
  unfold sharedTransform? at h
  split at h
  · cases h
  · next d ds hcategories =>
    split at h
    · next hall =>
      obtain rfl := Option.some.inj h
      rw [hcategories]
      refine ⟨d, List.mem_cons_self, rfl, fun c hc => ?_⟩
      rcases List.mem_cons.mp hc with rfl | hc
      · exact Or.inl rfl
      · exact Or.inr (List.all_eq_true.mp hall c hc)
    · cases h

/-- The stand-in of a legend converts every value that the legend accepts. A legend of samples gives the same
result. A legend of real values gives it confined to the samples of the category that owns the value, hence the
same if it is none of theirs to confine. -/
theorem standIn_of_convert (hl : l.IsBuilt) (hverify : l.config.verifyReturn = false)
    (hkindred : ∀ c ∈ l.categories, ∀ d ∈ l.categories, c.forward.same d.forward = true →
      c.forward.Kindred d.forward)
    (hy : ((l.convert x).run hints).1 = .ok y) (other : Hints) :
    ∃ i c z, l.owner? x = some i ∧ l.categories[i]? = some c ∧ ((l.standIn.apply x).run other).1 = .ok z
      ∧ (l.pairing ≠ .reals → y = z)
      ∧ (l.pairing = .reals → y = c.converseSide.confine z
          ∧ (y = z ↔ ¬ z < c.converseSide.low ∧ ¬ c.converseSide.high < z)) := by
  obtain ⟨i, c, z, howner, hc, hz, hvalue⟩ := hl.exists_of_convert hverify hy
  have hmem := List.mem_of_getElem? hc
  cases hshared : l.sharedTransform? with
  -- The legend stands in for itself, and confines its results once more to no effect.
  | none =>
    refine ⟨i, c, y, howner, hc, ?_, fun _ => rfl, fun hreals => ?_⟩
    · rw [standIn, hshared, Option.getD_none, Transform.apply_legend, hl.run_convert, ← hl.run_convert hints]
      exact hy
    · rw [if_pos hreals] at hvalue
      have hconfined := Side.confine_confine (hl.sound.categories c hmem).converseSide z
      rw [← hvalue] at hconfined
      exact ⟨hconfined.symm, iff_of_true rfl (Side.confine_eq_self_iff.mp hconfined)⟩
  | some t =>
    obtain ⟨d, hd, rfl, hall⟩ := same_of_sharedTransform? hshared
    have hsame : SameOutcome (c.forward.apply x).fresh (d.forward.apply x).fresh := by
      rcases hall c hmem with heq | hequal
      · rw [heq]
        exact .refl _
      · exact (hkindred c hmem d hd hequal).sameOutcome (hl.forward c hmem) (hl.forward d hd) hequal x
    refine ⟨i, c, z, howner, hc, ?_, fun hne => ?_, fun hreals => ?_⟩
    · rw [standIn, hshared, Option.getD_some, (hl.forward d hd).run_apply]
      exact (hz ▸ hsame).of_ok
    · rwa [if_neg hne] at hvalue
    · rw [if_pos hreals] at hvalue
      rw [hvalue]
      exact ⟨rfl, Side.confine_eq_self_iff⟩

/-- Forty meters is no height of the raster. The hills take it, and the common transform of the heights gives less
than their least sample. -/
theorem standIn_of_convert_heights : ∃ cs l, heightCategories = .ok cs ∧ ofCategories 0 .default cs = .ok l
    ∧ l.converse.IsBuilt ∧ l.converse.config.verifyReturn = false
    ∧ (∀ c ∈ l.converse.categories, ∀ d ∈ l.converse.categories, c.forward.same d.forward = true →
        c.forward.Kindred d.forward)
    ∧ ((l.converse.convert (.ofInt 40)).run .empty).1 = .ok (.ofInt 20)
    ∧ ∀ other, ∃ i c z, l.converse.owner? (.ofInt 40) = some i ∧ l.converse.categories[i]? = some c
      ∧ ((l.converse.standIn.apply (.ofInt 40)).run other).1 = .ok z
      ∧ (l.converse.pairing ≠ .reals → .ofInt 20 = z)
      ∧ (l.converse.pairing = .reals → .ofInt 20 = c.converseSide.confine z
          ∧ (.ofInt 20 = z ↔ ¬ z < c.converseSide.low ∧ ¬ c.converseSide.high < z)) := by
  have hpasses : passes 0 .default heightCategories (fun _ l => l.pairing = .samples
      ∧ ((l.converse.convert (.ofInt 40)).run .empty).1 = .ok (.ofInt 20)) = true := by decide +kernel
  obtain ⟨cs, l, hcs, hl, hall⟩ := exists_of_passes hpasses
  obtain ⟨hsamples, hresult⟩ := of_decide_eq_true hall
  obtain ⟨hdeclared, haffine⟩ := of_heightCategories hcs
  obtain ⟨hunder, hreals⟩ := builtUnder_converse hdeclared haffine hl hsamples
  have hbuilt : l.converse.IsBuilt := hunder.isBuilt
  have hverify : l.converse.config.verifyReturn = false := by
    rw [config_converse hsamples, config_ofCategories hl]
    rfl
  have hkindred : ∀ c ∈ l.converse.categories, ∀ d ∈ l.converse.categories,
      c.forward.same d.forward = true → c.forward.Kindred d.forward := fun c hc d hd hsame =>
    ((hreals c hc).builtUnder .default).kindred ((hreals d hd).builtUnder .default) hsame
      fun _ _ hplace => absurd hplace (hreals c hc).not_samePlace
  exact ⟨cs, l, hcs, hl, hbuilt, hverify, hkindred, hresult,
    standIn_of_convert hbuilt hverify hkindred hresult⟩

/-! ### Legends in the place of transforms -/

/-- Two categories that are converted by legends. -/
def nestedCategories (first second : Samples) (l m : Legend Transform) :
    Except Error (List (Category Transform)) := do
  let outer ← Category.quantitative 8 "Outer" first (some (.legend l)) none
  let inner ← Category.quantitative 9 "Inner" second (some (.legend m)) none
  return [outer, inner]

/-- They are declared, and convert by built transforms. -/
theorem of_nestedCategories {first second : Samples} {m : Legend Transform} {cs : List (Category Transform)}
    (hl : l.IsBuilt) (hm : m.IsBuilt) (h : nestedCategories first second l m = .ok cs) :
    (∀ c ∈ cs, Category.IsDeclared c) ∧ ∀ c ∈ cs, c.forward.IsBuilt := by
  obtain ⟨outer, houter, h⟩ := exists_of_bind_eq_ok h
  obtain ⟨inner, hinner, h⟩ := exists_of_bind_eq_ok h
  obtain rfl := Except.ok.inj h
  simp only [List.mem_cons, List.not_mem_nil, or_false, forall_eq_or_imp, forall_eq]
  exact ⟨⟨.quantitative houter, .quantitative hinner⟩, Category.isBuilt_of_quantitative houter hl,
    Category.isBuilt_of_quantitative hinner hm⟩

/-- Two numbers that are converted by legends of the real values of different samples. -/
def beaconCategories : Except Error (List (Category Transform)) := do
  let l ← distantCategories 1 .one none >>= ofCategories 2 .default
  let m ← distantCategories 3 .two none >>= ofCategories 4 .default
  nestedCategories (.number (distance + distance)) (.number (distance + distance + distance)) l.converse m.converse

/-- These categories are declared, and convert by built transforms. -/
theorem of_beaconCategories {cs : List (Category Transform)} (h : beaconCategories = .ok cs) :
    (∀ c ∈ cs, Category.IsDeclared c) ∧ ∀ c ∈ cs, c.forward.IsBuilt := by
  obtain ⟨l, hl, h⟩ := exists_of_bind_eq_ok h
  obtain ⟨m, hm, h⟩ := exists_of_bind_eq_ok h
  have hbuilt : ∀ {origin : Origin} {limit : Binary64} {token : Nat} {l : Legend Transform},
      (distantCategories origin limit none >>= ofCategories token .default) = .ok l → l.converse.IsBuilt := by
    intro origin limit token l hl
    obtain ⟨cs, hcs, hl⟩ := exists_of_bind_eq_ok hl
    obtain ⟨hdeclared, haffine⟩ := of_distantCategories hcs
    exact (isBuilt_of_isAffine hdeclared haffine hl).converse
  exact of_nestedCategories (hbuilt hl) (hbuilt hm) h

/-- Numbers that are converted by legends of the same categories, the first of which verifies returns. In these
legends zero is a sample of the flats, and as a real value it belongs to the dunes. -/
def levelCategories : Except Error (List (Category Transform)) := do
  let flats ← Category.quantitative 1 "Flats" (.bounds [.ofInt (-5), .negZero]) none none
  let dunes ← shifted 2 "Dunes" .ten (.ofInt 20) (.ofInt (-10)) none
  let verified ← ofCategories 3 { verifyReturn := true } [flats, dunes]
  let unverified ← ofCategories 4 .default [flats, dunes]
  nestedCategories (.bounds [.ofInt (-5), .ofInt (-1)]) (.number .zero) verified unverified

/-- The samples of the flats. -/
def flatsSide : Side :=
  ⟨"Flats", .ofInt (-5), .negZero, Interval.ofBounds? (.ofInt (-5)) .negZero true true, none, false⟩

/-- These categories are declared, and convert by built transforms. -/
theorem of_levelCategories {cs : List (Category Transform)} (h : levelCategories = .ok cs) :
    (∀ c ∈ cs, Category.IsDeclared c) ∧ ∀ c ∈ cs, c.forward.IsBuilt := by
  obtain ⟨flats, hflats, h⟩ := exists_of_bind_eq_ok h
  obtain ⟨dunes, hdunes, h⟩ := exists_of_bind_eq_ok h
  obtain ⟨verified, hverified, h⟩ := exists_of_bind_eq_ok h
  obtain ⟨unverified, hunverified, h⟩ := exists_of_bind_eq_ok h
  obtain ⟨hdunesdeclared, hdunesaffine⟩ := of_shifted hdunes
  have hdeclared : ∀ c ∈ [flats, dunes], Category.IsDeclared c := by
    simpa using ⟨Category.IsDeclared.quantitative hflats, hdunesdeclared⟩
  have haffine : ∀ c ∈ [flats, dunes], c.forward.IsAffine := by
    simpa using ⟨Category.isAffine_of_quantitative hflats (by rintro _ ⟨⟩), hdunesaffine⟩
  exact of_nestedCategories (isBuilt_of_isAffine hdeclared haffine hverified)
    (isBuilt_of_isAffine hdeclared haffine hunverified) h

/-- Some categories with two that convert negative numbers and positive ones to numbers far from zero. -/
def withFarCategories (cs : List (Category Transform)) : Except Error (List (Category Transform)) := do
  let below ← shifted 4 "Below" (.ofInt (-10)) (.ofInt (-5)) (.ofInt (-100)) none
  let above ← shifted 5 "Above" (.ofInt 5) (.ofInt 6) (.ofInt 100) none
  return below :: above :: cs

/-- A legend of categories with these two is built if they are declared and affine. -/
theorem isBuilt_of_withFarCategories {token : Nat} {config : Config} {cs : List (Category Transform)}
    (hdeclared : ∀ c ∈ cs, Category.IsDeclared c) (haffine : ∀ c ∈ cs, c.forward.IsAffine)
    (hl : (withFarCategories cs >>= ofCategories token config) = .ok l) : l.IsBuilt := by
  obtain ⟨ds, h, hl⟩ := exists_of_bind_eq_ok hl
  obtain ⟨below, hbelow, h⟩ := exists_of_bind_eq_ok h
  obtain ⟨above, habove, h⟩ := exists_of_bind_eq_ok h
  obtain rfl := Except.ok.inj h
  have hbelow := of_shifted hbelow
  have habove := of_shifted habove
  exact isBuilt_of_isAffine (by simpa [hbelow, habove] using hdeclared) (by simpa [hbelow, habove] using haffine) hl

/-- Real values that are converted by legends which verify returns. The samples of the two categories in their
middle are the same, and in the first legend they are in the other order. -/
def crossedCategories : Except Error (List (Category Transform)) := do
  let l ← twinCategories true >>= withFarCategories >>= ofCategories 6 { verifyReturn := true }
  let m ← twinCategories false >>= withFarCategories >>= ofCategories 7 { verifyReturn := true }
  nestedCategories (.bounds [.ofInt (-106), .ofInt (-105)]) (.number .ten) l.converse m.converse

/-- These categories are declared, and convert by built transforms. -/
theorem of_crossedCategories {cs : List (Category Transform)} (h : crossedCategories = .ok cs) :
    (∀ c ∈ cs, Category.IsDeclared c) ∧ ∀ c ∈ cs, c.forward.IsBuilt := by
  obtain ⟨l, hl, h⟩ := exists_of_bind_eq_ok h
  obtain ⟨m, hm, h⟩ := exists_of_bind_eq_ok h
  have hbuilt : ∀ {swapped : Bool} {token : Nat} {k : Legend Transform},
      (twinCategories swapped >>= withFarCategories >>= ofCategories token { verifyReturn := true }) = .ok k →
        k.converse.IsBuilt := by
    intro swapped token k hk
    rw [bind_assoc] at hk
    obtain ⟨ds, hds, hk⟩ := exists_of_bind_eq_ok hk
    obtain ⟨hdeclared, haffine⟩ := of_twinCategories hds
    exact (isBuilt_of_withFarCategories hdeclared haffine hk).converse
  exact of_nestedCategories (hbuilt hl) (hbuilt hm) h

/-- Numbers that are converted by legends which verify returns. Both list a category from positive to negative zero
twice in the middle, except that in the first legend the two are different categories. -/
def foldedCategories : Except Error (List (Category Transform)) := do
  let l ← doubledCategories false >>= withFarCategories >>= ofCategories 6 { verifyReturn := true }
  let m ← doubledCategories true >>= withFarCategories >>= ofCategories 7 { verifyReturn := true }
  nestedCategories (.bounds [.ofInt (-6), .ofInt (-5)]) (.number .zero) l m

/-- The samples of a doubled category. -/
def doubledSide : Side :=
  ⟨"Doubled", .zero, .negZero, Interval.ofBounds? .zero .negZero true true, none, false⟩

/-- These categories are declared, and convert by built transforms. -/
theorem of_foldedCategories {cs : List (Category Transform)} (h : foldedCategories = .ok cs) :
    (∀ c ∈ cs, Category.IsDeclared c) ∧ ∀ c ∈ cs, c.forward.IsBuilt := by
  obtain ⟨l, hl, h⟩ := exists_of_bind_eq_ok h
  obtain ⟨m, hm, h⟩ := exists_of_bind_eq_ok h
  have hbuilt : ∀ {again : Bool} {token : Nat} {k : Legend Transform},
      (doubledCategories again >>= withFarCategories >>= ofCategories token { verifyReturn := true }) = .ok k →
        k.IsBuilt := by
    intro again token k hk
    rw [bind_assoc] at hk
    obtain ⟨ds, hds, hk⟩ := exists_of_bind_eq_ok hk
    obtain ⟨hdeclared, haffine⟩ := of_doubledCategories hds
    exact isBuilt_of_withFarCategories hdeclared haffine hk
  exact of_nestedCategories (hbuilt hl) (hbuilt hm) h

/-- Values that a legend and its stand-in convert differently. A legend of real values confines one hundred meters
to the greatest sample. In a legend of samples the categories convert by legends which the equality test takes for
one: those of other samples confine the same value to other bounds, and one that verifies returns refuses what the
other one converts. If both verify returns, one of them may find the result in another category, since its samples
are in another order, or since it is another category that has the same samples. -/
theorem standIn_ne_convert :
    (∃ cs l, heightCategories = .ok cs ∧ ofCategories 0 .default cs = .ok l ∧ l.converse.IsBuilt
      ∧ l.converse.config.verifyReturn = false
      ∧ ((l.converse.convert (.ofInt 100)).run .empty).1 = .ok (.ofInt 30)
      ∧ ((l.converse.standIn.apply (.ofInt 100)).run .empty).1 = .ok (.ofDecimal false 495 (-1)))
    ∧ (∃ cs l, beaconCategories = .ok cs ∧ ofCategories 0 .default cs = .ok l ∧ l.IsBuilt
      ∧ l.config.verifyReturn = false ∧ l.pairing = .samples
      ∧ ((l.convert (distance + distance + distance)).run .empty).1 = .ok .two
      ∧ ((l.standIn.apply (distance + distance + distance)).run .empty).1 = .ok .one)
    ∧ (∃ cs l, levelCategories = .ok cs ∧ ofCategories 0 .default cs = .ok l ∧ l.IsBuilt
      ∧ l.config.verifyReturn = false ∧ l.pairing = .samples
      ∧ ((l.convert .zero).run .empty).1 = .ok .zero
      ∧ ((l.standIn.apply .zero).run .empty).1 = .error (.notReversible .zero .zero flatsSide))
    ∧ (∃ cs l, crossedCategories = .ok cs ∧ ofCategories 0 .default cs = .ok l ∧ l.IsBuilt
      ∧ l.config.verifyReturn = false ∧ l.pairing = .samples
      ∧ ((l.convert .ten).run .empty).1 = .ok .zero
      ∧ ((l.standIn.apply .ten).run .empty).1 =
        .error (.notReversible .ten .zero (Side.ofImages "Ten" .ten .ten none)))
    ∧ ∃ cs l, foldedCategories = .ok cs ∧ ofCategories 0 .default cs = .ok l ∧ l.IsBuilt
      ∧ l.config.verifyReturn = false ∧ l.pairing = .samples
      ∧ ((l.convert .zero).run .empty).1 = .ok .zero
      ∧ ((l.standIn.apply .zero).run .empty).1 = .error (.notReversible .zero .zero doubledSide) := by
  refine ⟨?_, ?_, ?_, ?_, ?_⟩
  · have hpasses : passes 0 .default heightCategories (fun _ l => l.converse.config.verifyReturn = false
        ∧ ((l.converse.convert (.ofInt 100)).run .empty).1 = .ok (.ofInt 30)
        ∧ ((l.converse.standIn.apply (.ofInt 100)).run .empty).1 = .ok (.ofDecimal false 495 (-1))) = true := by
      decide +kernel
    obtain ⟨cs, l, hcs, hl, hall⟩ := exists_of_passes hpasses
    obtain ⟨hdeclared, haffine⟩ := of_heightCategories hcs
    exact ⟨cs, l, hcs, hl, (isBuilt_of_isAffine hdeclared haffine hl).converse, of_decide_eq_true hall⟩
  · have hpasses : passes 0 .default beaconCategories (fun _ l => l.config.verifyReturn = false
        ∧ l.pairing = .samples
        ∧ ((l.convert (distance + distance + distance)).run .empty).1 = .ok .two
        ∧ ((l.standIn.apply (distance + distance + distance)).run .empty).1 = .ok .one) = true := by
      decide +kernel
    obtain ⟨cs, l, hcs, hl, hall⟩ := exists_of_passes hpasses
    obtain ⟨hdeclared, hbuilt⟩ := of_beaconCategories hcs
    exact ⟨cs, l, hcs, hl, .legend hdeclared hbuilt hl, of_decide_eq_true hall⟩
  · have hpasses : passes 0 .default levelCategories (fun _ l => l.config.verifyReturn = false
        ∧ l.pairing = .samples ∧ ((l.convert .zero).run .empty).1 = .ok .zero
        ∧ ((l.standIn.apply .zero).run .empty).1 = .error (.notReversible .zero .zero flatsSide)) = true := by
      decide +kernel
    obtain ⟨cs, l, hcs, hl, hall⟩ := exists_of_passes hpasses
    obtain ⟨hdeclared, hbuilt⟩ := of_levelCategories hcs
    exact ⟨cs, l, hcs, hl, .legend hdeclared hbuilt hl, of_decide_eq_true hall⟩
  · have hpasses : passes 0 .default crossedCategories (fun _ l => l.config.verifyReturn = false
        ∧ l.pairing = .samples ∧ ((l.convert .ten).run .empty).1 = .ok .zero
        ∧ ((l.standIn.apply .ten).run .empty).1 =
          .error (.notReversible .ten .zero (Side.ofImages "Ten" .ten .ten none))) = true := by
      decide +kernel
    obtain ⟨cs, l, hcs, hl, hall⟩ := exists_of_passes hpasses
    obtain ⟨hdeclared, hbuilt⟩ := of_crossedCategories hcs
    exact ⟨cs, l, hcs, hl, .legend hdeclared hbuilt hl, of_decide_eq_true hall⟩
  · have hpasses : passes 0 .default foldedCategories (fun _ l => l.config.verifyReturn = false
        ∧ l.pairing = .samples ∧ ((l.convert .zero).run .empty).1 = .ok .zero
        ∧ ((l.standIn.apply .zero).run .empty).1 = .error (.notReversible .zero .zero doubledSide)) = true := by
      decide +kernel
    obtain ⟨cs, l, hcs, hl, hall⟩ := exists_of_passes hpasses
    obtain ⟨hdeclared, hbuilt⟩ := of_foldedCategories hcs
    exact ⟨cs, l, hcs, hl, .legend hdeclared hbuilt hl, of_decide_eq_true hall⟩

end Legend

end RasterCategories
