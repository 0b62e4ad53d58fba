import RasterCategories.Proofs.Category.Images
import RasterCategories.Proofs.Evaluation.Built
import RasterCategories.Proofs.Search.Zeros
/-!
# Conversions lead back

What a sample is converted to lies in the real side of its own category. The search among the real values
finds that category again, unless the result is a zero that belongs to the real sides of two categories: the
bounds of real sides are compared bit by bit when a legend is built, so one side may end at negative zero and
the next one start at positive zero. A category from positive to negative zero may even be listed twice, and then
either of its entries will do.

* `Legend.exists_place`: the converse of a category stands among the real values.
* `Legend.leadsBack_iff_takes`: a result leads back to a category of which some entry takes it.
* `Legend.owner?_convert_iff`: when a conversion leads back, and what is reported when it does not.
* `Legend.owner?_convert_meeting`: two categories of which a sample is not led back.
-/

namespace RasterCategories.Legend

/-! ### Entries of the converse legend -/

section Entries

variable {τ υ : Type} {l : Legend τ} {c : Category τ} {i : Nat} {y : Binary64}

/-- Sorting the converses keeps each of them with the position of its category. -/
theorem mem_sortedConverses {members : List (Category τ)} {entry : Category τ × Nat} :
    entry ∈ sortedConverses members ↔
      ∃ c, members[entry.2]? = some c ∧ c.converse = entry.1 := by
  rw [sortedConverses, (sortBy_perm _ _).mem_iff, List.mem_zipIdx_iff_getElem?, List.getElem?_map,
    Option.map_eq_some_iff]

/-- The converse of each category of the samples stands somewhere among the real values. -/
theorem exists_placed_of_samples (token : Nat) (config : Config) {members : List (Category τ)}
    (hc : members[i]? = some c) :
    ∃ p : Nat, (ofMembers token config .samples members).converse.placed[p]? = some (c.converse, i) := by
  have hplaced : (ofMembers token config .samples members).converse.placed = sortedConverses members :=
    placed_ofMembers_reals token config members
  rw [hplaced]
  exact List.mem_iff_getElem?.mp (mem_sortedConverses.mpr ⟨c, hc, rfl⟩)

/-- Which category owns a value does not depend on the conversions. -/
theorem categoryOf?_map (f : τ → υ) (l : Legend τ) (y : Binary64) :
    (l.map f).categoryOf? y = (l.categoryOf? y).map (Category.map f) := by
  rw [categoryOf?, categoryOf?, table_map, categories_map, Option.map_bind]
  exact congrArg (Option.bind _) (funext fun i => List.getElem?_map)

/-- Neither does whether a result leads back. -/
theorem leadsBack_map (f : τ → υ) (l : Legend τ) (c : Category τ) (y : Binary64) :
    (l.map f).leadsBack (c.map f) y = l.leadsBack c y := by
  rw [leadsBack, leadsBack, converse_map, categoryOf?_map, Option.any_map]
  rfl

/-- A result leads back if it is found in an entry of the category that made it. -/
theorem leadsBack_iff : l.leadsBack c y = true ↔ ∃ q d, l.converse.table.owner? y = some q
    ∧ l.converse.categories[q]? = some d ∧ d.origin = c.origin := by
  simp only [leadsBack, categoryOf?, Option.any_eq_true, Option.bind_eq_some_iff, beq_iff_eq]
  constructor
  · rintro ⟨d, ⟨q, hq, hd⟩, horigin⟩
    exact ⟨q, d, hq, hd, horigin⟩
  · rintro ⟨q, d, hq, hd, horigin⟩
    exact ⟨d, ⟨q, hq, hd⟩, horigin⟩

/-- A result that some real side contains leads back to a category of which an entry takes it. -/
theorem leadsBack_iff_takes {s : Side} {p : Nat} (hordered : l.converse.table.Ordered)
    (hs : l.converse.table.sides[p]? = some s) (hsy : s.contains y = true) :
    l.leadsBack c y = true ↔ ∃ q d, l.converse.categories[q]? = some d ∧ d.origin = c.origin
      ∧ d.here.contains y = true ∧ l.converse.table.Takes y q := by
  have hside : ∀ {q : Nat} {d : Category τ}, l.converse.categories[q]? = some d →
      l.converse.table.sides[q]? = some d.here := by
    intro q d hd
    rw [table, List.getElem?_map, hd, Option.map_some]
  rw [leadsBack_iff]
  constructor
  · rintro ⟨q, d, hq, hd, horigin⟩
    -- The owner of a value that some side contains is a side that contains it.
    obtain ⟨k, b, hk, hb, hby⟩ := hordered.exists_owner_of_contains hs hsy
    obtain rfl := Option.some.inj (hq.symm.trans hk)
    obtain rfl := Option.some.inj (hb.symm.trans (hside hd))
    exact ⟨q, d, hd, horigin, hby, (hordered.owner?_eq_some_iff hb hby).mp hq⟩
  · rintro ⟨q, d, hd, horigin, hdy, htakes⟩
    exact ⟨q, d, (hordered.owner?_eq_some_iff (hside hd) hdy).mpr htakes, hd, horigin⟩

end Entries

/-! ### Legends of samples -/

section Samples

variable {token : Nat} {config : Config} {cs : List (Category Transform)} {l : Legend Transform}
  {x y : Binary64} {c : Category Transform} {i : Nat}

/-- The converse of each category of a legend of samples stands somewhere among the real values. -/
theorem exists_place (hl : ofCategories token config cs = .ok l) (hsamples : l.pairing = .samples)
    (hc : l.categories[i]? = some c) :
    ∃ p : Nat, l.converse.placed[p]? = some (c.converse, i) ∧ l.converse.categories[p]? = some c.converse := by
  obtain ⟨members, -, rfl, -, -⟩ := ofCategories_eq_ok_iff.mp hl
  change pairingOf members = .samples at hsamples
  rw [hsamples] at hc ⊢
  rw [categories_of_ne_reals (ofMembers token config .samples members) (by simp [ofMembers])] at hc
  have hc : members[i]? = some c := hc
  obtain ⟨p, hplaced⟩ := exists_placed_of_samples token config hc
  refine ⟨p, hplaced, ?_⟩
  rw [categories, List.getElem?_map, hplaced]
  rfl

/-- The converted samples of a legend lie in the real sides of their own categories. -/
theorem exists_image (hdeclared : ∀ c ∈ cs, Category.IsDeclared c)
    (haffine : ∀ c ∈ cs, c.forward.IsAffine) (hl : ofCategories token config cs = .ok l)
    (hsamples : l.pairing = .samples) (howner : l.owner? x = some i) :
    ∃ c y, ∃ p : Nat, l.categories[i]? = some c ∧ (c.forward.apply x).fresh = .ok y
      ∧ l.converse.categories[p]? = some c.converse
      ∧ l.converse.table.sides[p]? = some c.converse.here ∧ c.converse.here.contains y = true := by
  have hordered := (sound_of_ofCategories hdeclared hl).1.ordered
  -- The owner contains the sample, since a legend of samples does not extrapolate.
  have hextrapolates : l.table.extrapolates = false := by simp [table, hsamples]
  obtain ⟨side, hside, hcontains⟩ := hordered.owner_contains hextrapolates howner
  rw [table, List.getElem?_map, Option.map_eq_some_iff] at hside
  obtain ⟨c, hc, rfl⟩ := hside
  obtain ⟨p, -, hconverse⟩ := exists_place hl hsamples hc
  obtain ⟨d, hd, origin, rfl⟩ := exists_of_mem_categories hl (List.mem_of_getElem? hc)
  obtain ⟨y, hy, hcontained⟩ := Category.contains_image (hdeclared d hd).sound.asPlain
    (hdeclared d hd).original_asPlain.imaged (Category.isAffine_asPlain (haffine d hd)) hcontains
  refine ⟨_, y, p, hc, hy, hconverse, ?_, ?_⟩
  · rw [table, List.getElem?_map, hconverse]
    rfl
  · rw [Category.here_converse]
    exact hcontained

/-- A value is converted by its owner, and refused if returns are verified and its result does not lead
back. -/
theorem convert_eq (hl : l.IsBuilt) (hreals : l.pairing ≠ .reals) (howner : l.owner? x = some i)
    (hc : l.categories[i]? = some c) (hy : (c.forward.apply x).fresh = .ok y) (hints : Hints) :
    ((l.convert x).run hints).1 =
      if l.config.verifyReturn && l.isPaired && !l.leadsBack c y then
        .error (.notReversible x y c.here)
      else .ok y := by
  have htable : l.active.table = l.table := table_map _ _
  -- Results are confined only among the real values.
  have hsettle : l.active.settle (c.map Transform.behaviour) y = y := by
    rw [settle, htable]
    simp [table, SearchTable.top?, hreals]
  rw [hl.run_convert, pureValue_of_owner? (htable ▸ howner) (getElem?_active hc) hy, hsettle,
    show l.active.leadsBack (c.map Transform.behaviour) y = l.leadsBack c y from leadsBack_map _ _ _ _]
  rfl

/-- Among samples that have real values, nothing but a result that does not lead back is refused. -/
theorem convert_of_samples (hl : l.IsBuilt) (hsamples : l.pairing = .samples)
    (howner : l.owner? x = some i) (hc : l.categories[i]? = some c)
    (hy : (c.forward.apply x).fresh = .ok y) (hints : Hints) :
    ((l.convert x).run hints).1 =
      if l.config.verifyReturn ∧ ¬ l.leadsBack c y then .error (.notReversible x y c.here)
      else .ok y := by
  have hpaired : l.isPaired = true := by
    simp [isPaired, hsamples]
  rw [convert_eq hl (by simp [hsamples]) howner hc hy hints, hpaired]
  refine if_congr ?_ rfl rfl
  rw [Bool.and_true, Bool.and_eq_true, Bool.not_eq_true', Bool.not_eq_true]

/-- What a category converts a sample to lies in its real side. It leads back to the category exactly if an entry
of this category contains and takes it among the real values. Otherwise it is refused as soon as returns are
verified. -/
theorem owner?_convert_iff (hdeclared : ∀ c ∈ cs, Category.IsDeclared c)
    (haffine : ∀ c ∈ cs, c.forward.IsAffine) (hl : ofCategories token config cs = .ok l)
    (hsamples : l.pairing = .samples) (howner : l.owner? x = some i) :
    ∃ c y, l.categories[i]? = some c ∧ (c.forward.apply x).fresh = .ok y
      ∧ c.converse ∈ l.converse.categories ∧ c.converse.here.contains y = true
      ∧ (l.leadsBack c y ↔ ∃ q d, l.converse.categories[q]? = some d ∧ d.origin = c.origin
          ∧ d.here.contains y = true ∧ l.converse.table.Takes y q)
      ∧ ∀ hints : Hints, ((l.convert x).run hints).1 =
          if l.config.verifyReturn ∧ ¬ l.leadsBack c y then .error (.notReversible x y c.here)
          else .ok y := by
  have hbuilt := isBuilt_of_isAffine hdeclared haffine hl
  have hordered := (sound_of_ofCategories hdeclared hl).2.ordered
  obtain ⟨c, y, p, hc, hy, hconverse, hs, hsy⟩ := exists_image hdeclared haffine hl hsamples howner
  exact ⟨c, y, hc, hy, List.mem_of_getElem? hconverse, hsy, leadsBack_iff_takes hordered hs hsy,
    fun hints => convert_of_samples hbuilt hsamples howner hc hy hints⟩

/-- The packed depth two is converted and led back. -/
theorem owner?_convert_iff_depths : ∃ cs l c y, depthCategories = .ok cs
    ∧ ofCategories 0 .default cs = .ok l ∧ l.pairing = .samples ∧ l.owner? .two = some 1
    ∧ l.categories[1]? = some c ∧ (c.forward.apply .two).fresh = .ok y
    ∧ c.converse ∈ l.converse.categories ∧ c.converse.here.contains y = true
    ∧ (l.leadsBack c y ↔ ∃ q d, l.converse.categories[q]? = some d ∧ d.origin = c.origin
        ∧ d.here.contains y = true ∧ l.converse.table.Takes y q)
    ∧ ∀ hints : Hints, ((l.convert .two).run hints).1 =
        if l.config.verifyReturn ∧ ¬ l.leadsBack c y then .error (.notReversible .two y c.here)
        else .ok y := by
  obtain ⟨cs, l, hcs, hdeclared, haffine, hl, -⟩ := exists_depths
  have hok : (depthCategories >>= fun cs => ofCategories 0 .default cs >>= fun l =>
      if l.pairing = .samples ∧ l.owner? .two = some 1 then .ok () else .error .absent).isOk = true := by
    decide +kernel
  have hbuild := isOk_of_bind hok hcs
  have hgood := isOk_of_bind hbuild hl
  split at hgood
  · next h =>
    obtain ⟨c, y, hresult⟩ := owner?_convert_iff hdeclared haffine hl h.1 h.2
    exact ⟨cs, l, c, y, hcs, hl, h.1, h.2, hresult⟩
  · cases hgood

end Samples

/-! ### Two categories that meet at zero -/

/-- The function `x - 10`. -/
def lessTen : Linear where
  scale := .one
  offset := .ofInt (-10)
  scale_ne_zero := by decide +kernel
  scale_finite := Binary64.isFinite_one
  offset_finite := by decide +kernel

/-- Measurements from minus five to negative zero, and packed ones of which the least is converted to positive
zero. -/
def meetingCategories : Except Error (List (Category Transform)) := do
  let below ← Category.quantitative 1 "Below" (.bounds [.ofInt (-5), .negZero]) none none
  let above ← Category.quantitative 2 "Above" (.bounds [.ten, .ofInt 20]) (some (.linear lessTen)) none
  return [below, above]

/-- The real sides of these categories meet at zero. Positive zero is a sample of the first category, which
converts nothing, but among the real values it is found in the second one. -/
theorem owner?_convert_meeting : ∃ cs l c, meetingCategories = .ok cs
    ∧ (∀ c ∈ cs, Category.IsDeclared c) ∧ (∀ c ∈ cs, c.forward.IsAffine)
    ∧ ofCategories 0 { verifyReturn := true } cs = .ok l ∧ l.pairing = .samples
    ∧ l.owner? .zero = some 0 ∧ l.categories[0]? = some c
    ∧ (c.forward.apply .zero).fresh = .ok .zero ∧ l.converse.owner? .zero = some 1
    ∧ l.leadsBack c .zero = false
    ∧ ((l.convert .zero).run .empty).1 = .error (.notReversible .zero .zero c.here) := by
  have hok : (meetingCategories >>= fun cs => ofCategories 0 { verifyReturn := true } cs >>= fun l =>
      (l.categories[0]?).elim (.error Error.absent) fun c =>
        if l.pairing = .samples ∧ l.owner? .zero = some 0
          ∧ (c.forward.apply .zero).fresh = .ok .zero ∧ l.converse.owner? .zero = some 1
          ∧ l.leadsBack c .zero = false
          ∧ ((l.convert .zero).run .empty).1 = .error (.notReversible .zero .zero c.here)
        then .ok () else .error .absent).isOk = true := by decide +kernel
  obtain ⟨⟨⟩, h⟩ := exists_of_isOk hok
  obtain ⟨cs, hcs, h⟩ := exists_of_bind_eq_ok h
  obtain ⟨l, hl, h⟩ := exists_of_bind_eq_ok h
  cases hc : l.categories[0]? with
  | none =>
    rw [hc] at h
    cases h
  | some c =>
    rw [hc, Option.elim_some] at h
    split at h
    · next hall =>
      obtain ⟨hsamples, howner, hy, hfound, hlost, hrefused⟩ := hall
      obtain ⟨below, hbelow, hrest⟩ := exists_of_bind_eq_ok hcs
      obtain ⟨above, habove, hrest⟩ := exists_of_bind_eq_ok hrest
      obtain rfl := Except.ok.inj hrest
      refine ⟨_, l, c, hcs, ?_, ?_, hl, hsamples, howner, hc, hy, hfound, hlost, hrefused⟩
      all_goals simp only [List.mem_cons, List.not_mem_nil, or_false, forall_eq_or_imp, forall_eq]
      · exact ⟨.quantitative hbelow, .quantitative habove⟩
      · exact ⟨Category.isAffine_of_quantitative hbelow (by rintro _ ⟨⟩),
          Category.isAffine_of_quantitative habove (by rintro _ ⟨⟩; exact .linear _)⟩
    · cases h

/-! ### Sides apart -/

/-- A result leads back if it is no zero, or if no two real sides meet at zero, and then it is not refused. -/
theorem convert_of_apart {token : Nat} {config : Config} {cs : List (Category Transform)}
    {l : Legend Transform} {c : Category Transform} {x y : Binary64} {i : Nat}
    (hdeclared : ∀ c ∈ cs, Category.IsDeclared c) (haffine : ∀ c ∈ cs, c.forward.IsAffine)
    (hl : ofCategories token config cs = .ok l) (hsamples : l.pairing = .samples)
    (howner : l.owner? x = some i) (hc : l.categories[i]? = some c)
    (hy : (c.forward.apply x).fresh = .ok y)
    (hapart : y.isZero = true → ∀ a ∈ l.converse.table.sides, ∀ b ∈ l.converse.table.sides,
      a.high = .negZero → b.low ≠ .zero) :
    l.leadsBack c y = true ∧ ∀ hints : Hints, ((l.convert x).run hints).1 = .ok y := by
  have hbuilt := isBuilt_of_isAffine hdeclared haffine hl
  have hordered := (sound_of_ofCategories hdeclared hl).2.ordered
  obtain ⟨c', y', p, hc', hy', hconverse, hs, hsy⟩ := exists_image hdeclared haffine hl hsamples howner
  obtain rfl := Option.some.inj (hc.symm.trans hc')
  obtain rfl := Except.ok.inj (hy.symm.trans hy')
  have htakes : l.converse.table.Takes y p := by
    cases hzero : y.isZero with
    | false => exact SearchTable.takes_of_ne_zero hzero
    -- Two real sides with the result would meet at zero, in one order or the other.
    | true =>
      refine hordered.takes_of_unique hs hsy fun j b hb hby => ?_
      have hsmem := List.mem_of_getElem? hs
      have hbmem := List.mem_of_getElem? hb
      rcases Nat.lt_trichotomy j p with hjp | hjp | hjp
      · obtain ⟨hhigh, hlow, -⟩ := hordered.shared_zero hb hs hjp hby hsy
        exact absurd hlow (hapart hzero b hbmem _ hsmem hhigh)
      · exact hjp
      · obtain ⟨hhigh, hlow, -⟩ := hordered.shared_zero hs hb hjp hsy hby
        exact absurd hlow (hapart hzero _ hsmem b hbmem hhigh)
  have hleads : l.leadsBack c y = true :=
    (leadsBack_iff_takes hordered hs hsy).mpr ⟨p, _, hconverse, c.origin_converse, hsy, htakes⟩
  refine ⟨hleads, fun hints => ?_⟩
  rw [convert_of_samples hbuilt hsamples howner hc hy hints, if_neg fun h => h.2 hleads]

end RasterCategories.Legend
