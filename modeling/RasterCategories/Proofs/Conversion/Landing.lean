import RasterCategories.Proofs.Binary64.Monotone
import RasterCategories.Proofs.Evaluation.Built
import RasterCategories.Proofs.Legend.Owner
/-!
# Real values land on samples

The legend of the real values gives every number to a category, however far from all of them it lies, and every
NaN that keys one. The inverse of a conversion by a scale and an offset makes no NaN of a number, and what it
makes of a value outside the real side, or by rounding, is confined to the samples. So each real value is
converted to a sample that the legend of the samples knows.

* `Category.IsRescaling`: the categories for which this holds.
* `Category.IsOriginal.lands`: a real value that is given to a category lands on a sample of it.
* `Legend.convert_converse_lands`: the conversion from the real values to the samples.
-/

namespace RasterCategories

namespace Side

variable {s : Side} {x : Binary64}

/-- What belongs to an interval is a number, and what belongs to a NaN is that NaN. -/
theorem isNaN_of_contains (h : s.contains x = true) : x.isNaN = s.low.isNaN := by
  rcases of_decide_eq_true h with ⟨hlow, -⟩ | rfl
  · rw [hlow.1, hlow.2.1]
  · rfl

/-- A number confined to an interval belongs to it. -/
theorem contains_confine (hs : s.WellFormed) (hsome : s.interval.isSome = true) (hx : x.isNaN = false) :
    s.contains (s.confine x) = true := by
  have hlow := hs.interval_isSome_iff.mp hsome
  rcases hs with ⟨hle, -⟩ | ⟨hnan, -, -⟩
  · unfold contains confine Binary64.confine
    refine decide_eq_true (Or.inl ?_)
    split
    · exact ⟨Binary64.le_refl hle.1, hle⟩
    · next hnotlow =>
      split
      · exact ⟨hle, Binary64.le_refl hle.2.1⟩
      · next hnothigh =>
        exact ⟨Binary64.le_of_not_lt hx hle.1 hnotlow, Binary64.le_of_not_lt hle.2.1 hx hnothigh⟩
  · rw [hlow] at hnan
    cases hnan

end Side

namespace Category

variable {c : Category Transform} {y : Binary64}

/-- The category is qualitative, or converts by a scale and an offset, or converts nothing. -/
def IsRescaling (c : Category Transform) : Prop :=
  (∃ origin name samples ordinal, qualitative origin name samples ordinal = .ok c) ∨ c.forward = .identity
    ∨ ∃ p, c.forward = .linear p

/-- A value belongs to the real side of a category, or is a number that may be given to it for want of a better
one. -/
def Attracts (c : Category Transform) (y : Binary64) : Prop :=
  c.converseSide.contains y = true ∨ y.isNaN = false ∧ c.converseSide.interval.isSome = true

/-- A qualitative category converts all real values to its least sample. -/
theorem lands_of_qualitative {origin : Origin} {name : String} {samples : Samples} {ordinal : Int}
    (hwf : c.here.WellFormed) (h : qualitative origin name samples ordinal = .ok c)
    (y : Binary64) :
    ∃ z, (c.converse.forward.apply y).fresh = .ok z ∧ c.here.contains (c.here.confine z) = true := by
  obtain ⟨side, nan, -, -, -, -, rfl⟩ := qualitative_ok h
  refine ⟨side.low, rfl, ?_⟩
  show side.contains (side.confine side.low) = true
  rw [Side.confine_low hwf]
  exact SearchTable.Ordered.contains_low rfl

/-- A category that converts nothing confines real values to its samples. -/
theorem lands_plain {origin : Origin} {s : Side} (hs : s.WellFormed) (hy : (plain origin s).Attracts y) :
    ∃ z, ((plain origin s).converse.forward.apply y).fresh = .ok z ∧ s.contains (s.confine z) = true := by
  refine ⟨y, rfl, ?_⟩
  change s.contains y = true ∨ y.isNaN = false ∧ s.interval.isSome = true at hy
  cases hinterval : s.interval with
  | none =>
    rw [Side.confine_of_key hs hinterval]
    simpa [hinterval] using hy
  | some r =>
    have hsome : s.interval.isSome = true := by rw [hinterval]; rfl
    refine Side.contains_confine hs hsome ?_
    rcases hy with hcontains | ⟨hnumber, -⟩
    · rw [Side.isNaN_of_contains hcontains]
      exact hs.interval_isSome_iff.mp hsome
    · exact hnumber

/-- A conversion whose inverse makes no NaN of a number takes real values to samples. -/
theorem lands_of_convertedBy {origin : Origin} {s : Side} {transform : Transform} {units : Option String}
    (hs : s.WellFormed) (h : convertedBy origin s transform units = .ok c)
    (hy : c.Attracts y)
    (hback : ∀ back, transform.inverse = .ok back → ∀ x : Binary64, x.isNaN = false →
      ∃ z, (back.apply x).fresh = .ok z ∧ z.isNaN = false) :
    ∃ z, (c.converse.forward.apply y).fresh = .ok z ∧ c.here.contains (c.here.confine z) = true := by
  obtain ⟨first, last, back, hsome, -, -, hfirst, hlast, hinverse, rfl⟩ := convertedBy_ok h
  have hnumber : y.isNaN = false := by
    rcases hy with hcontains | ⟨hnumber, -⟩
    · rw [Side.isNaN_of_contains hcontains]
      show (if last < first then last else first).isNaN = false
      split <;> assumption
    · exact hnumber
  obtain ⟨z, hz, hznumber⟩ := hback back hinverse y hnumber
  exact ⟨z, hz, Side.contains_confine hs hsome hznumber⟩

/-- A real value that is given to a category lands on a sample of it. -/
theorem IsOriginal.lands (h : c.IsOriginal) (hwf : c.here.WellFormed) (hrescaling : c.IsRescaling)
    (hy : c.Attracts y) :
    ∃ z, (c.converse.forward.apply y).fresh = .ok z ∧ c.here.contains (c.here.confine z) = true := by
  cases h with
  | plain hs => exact lands_plain hs hy
  | qualitative h => exact lands_of_qualitative hwf h y
  | @convertedBy _ _ transform _ _ hs _ h =>
    have hforward : c.forward = transform := by
      obtain ⟨_, _, _, -, -, -, -, -, -, rfl⟩ := convertedBy_ok h
      rfl
    rcases hrescaling with ⟨origin, name, samples, ordinal, hq⟩ | hidentity | ⟨p, hlinear⟩
    · exact lands_of_qualitative hwf hq y
    · rw [hforward] at hidentity
      subst hidentity
      refine lands_of_convertedBy hs h hy ?_
      rintro _ ⟨⟩ x hx
      exact ⟨x, rfl, hx⟩
    · rw [hforward] at hlinear
      subst hlinear
      refine lands_of_convertedBy hs h hy fun back hback x hx => ?_
      rw [Transform.inverse] at hback
      cases hp : p.inverse with
      | error e => rw [hp] at hback; cases hback
      | ok q =>
        rw [hp] at hback
        obtain rfl := Except.ok.inj hback
        exact ⟨q.eval x, rfl, q.isNaN_eval hx⟩

end Category

namespace Legend

variable {l : Legend Transform} {c : Category Transform} {y : Binary64} {i : Nat}

/-- A legend of samples with real values of its own was built from categories. -/
theorem IsBuilt.exists_ofCategories (hl : l.IsBuilt) (hsamples : l.pairing = .samples) :
    ∃ token config cs, (∀ c ∈ cs, Category.IsDeclared c) ∧ ofCategories token config cs = .ok l := by
  obtain ⟨token, config, cs, m, hdeclared, hm, rfl | rfl⟩ := hl.exists_construction
  · exact ⟨token, config, cs, hdeclared, hm⟩
  -- The converse of a construction is seen from the real values, if it has any of its own.
  · obtain ⟨members, -, rfl, -, -⟩ := ofCategories_eq_ok_iff.mp hm
    have hne := pairingOf_ne_reals members
    generalize pairingOf members = p at hsamples hne
    cases p with
    | reals => exact absurd rfl hne
    | empty | unpaired | identity | samples => cases hsamples

/-- The categories of the real values are the converses of categories of samples. -/
theorem exists_original (hl : l.IsBuilt) (hsamples : l.pairing = .samples) {d : Category Transform}
    (hd : d ∈ l.converse.categories) : ∃ c ∈ l.categories, d = c.converse ∧ c.IsOriginal := by
  obtain ⟨token, config, cs, hdeclared, hcs⟩ := hl.exists_ofCategories hsamples
  obtain ⟨members, hmembers, rfl, -, -⟩ := ofCategories_eq_ok_iff.mp hcs
  have hpairing : pairingOf members = .samples := hsamples
  rw [hpairing] at hd
  obtain ⟨c, hc, rfl⟩ := List.mem_map.mp ((categories_converse_perm token config members).mem_iff.mp hd)
  obtain ⟨e, he, _, rfl⟩ := exists_of_mem_members hmembers hc
  exact ⟨_, mem_categories_ofMembers.mpr hc, rfl, (hdeclared e he).original_asPlain⟩

/-- Among the real values, only NaNs that key no side have no owner. -/
theorem owner?_eq_none_iff (hl : l.IsBuilt) (hreals : l.pairing = .reals) :
    l.owner? y = none ↔ y.isNaN = true ∧ y ∉ l.table.lows := by
  have hagrees := hl.sound.ordered.assigns_owner? y
  have htop := hl.top?_ne_none_iff.mpr hreals
  change l.table.owner? y = none ↔ _
  constructor
  · intro hnone
    have hunowned : ∀ s ∈ l.table.sides, s.contains y = false := by
      intro s hs
      by_contra hne
      obtain ⟨i, -, hi, -⟩ := hagrees.owned ⟨s, hs, Bool.eq_true_of_not_eq_false hne⟩
      rw [hnone] at hi
      cases hi
    refine ⟨?_, fun hmem => ?_⟩
    · by_contra hnumber
      obtain ⟨i, hi, -⟩ := hagrees.nearby hunowned htop (Bool.eq_false_iff.mpr hnumber)
      rw [hnone] at hi
      cases hi
    · obtain ⟨s, hs, hlow⟩ := List.mem_map.mp hmem
      have hcontains := SearchTable.Ordered.contains_low hlow
      rw [hunowned s hs] at hcontains
      cases hcontains
  · rintro ⟨hnan, hnotmem⟩
    refine hagrees.unknown (fun s hs => ?_) htop hnan
    -- A NaN belongs to a side only if it keys the side.
    by_contra hne
    rcases of_decide_eq_true (Bool.eq_true_of_not_eq_false hne) with ⟨hlow, -⟩ | rfl
    · rw [hlow.2.1] at hnan
      cases hnan
    · exact hnotmem (List.mem_map_of_mem hs)

/-- A legend of real values confines what its categories give to their samples; others do not. -/
theorem IsBuilt.settle_eq (hl : l.IsBuilt) (c : Category Transform) (z : Binary64) :
    l.active.settle (c.map Transform.behaviour) z =
      if l.pairing = .reals then c.converseSide.confine z else z := by
  have htop : l.active.table.top?.isSome = true ↔ l.pairing = .reals := by
    rw [active, table_map, Option.isSome_iff_ne_none]
    exact hl.top?_ne_none_iff
  rw [settle]
  exact if_congr htop rfl rfl

/-- The owner of a real value attracts it. -/
theorem attracts_of_owner? (hl : l.IsBuilt) (howner : l.converse.owner? y = some i)
    (hc : l.converse.categories[i]? = some c.converse) : c.Attracts y := by
  have hside : l.converse.table.sides[i]? = some c.converseSide := by
    rw [table, List.getElem?_map, hc, ← Category.here_converse]
    rfl
  have hagrees := hl.converse.sound.ordered.assigns_owner? y
  rw [show l.converse.table.owner? y = some i from howner] at hagrees
  by_cases hcontained : ∃ s ∈ l.converse.table.sides, s.contains y = true
  · obtain ⟨j, s, hj, hs, hsy⟩ := hagrees.owned hcontained
    obtain rfl := Option.some.inj hj
    obtain rfl := Option.some.inj (hside.symm.trans hs)
    exact Or.inl hsy
  · have hunowned : ∀ s ∈ l.converse.table.sides, s.contains y = false := fun s hs =>
      Bool.eq_false_iff.mpr fun hsy => hcontained ⟨s, hs, hsy⟩
    have htop : l.converse.table.top? ≠ none := fun htop => by
      cases hagrees.unowned hunowned htop
    cases hnan : y.isNaN with
    | true => cases hagrees.unknown hunowned htop hnan
    | false =>
      obtain ⟨j, hj, hnearby⟩ := hagrees.nearby hunowned htop hnan
      obtain rfl := Option.some.inj hj
      obtain ⟨s, hs, hsome, -⟩ := hnearby.adjacent
      obtain rfl := Option.some.inj (hside.symm.trans hs)
      exact Or.inr ⟨hnan, hsome⟩

/-- The conversion from the real values to the samples refuses only NaNs that key no side, and what it gives for
any other value is a sample. -/
theorem convert_converse_lands (hl : l.IsBuilt) (hsamples : l.pairing = .samples)
    (hverify : l.config.verifyReturn = false) (hrescaling : ∀ c ∈ l.categories, c.IsRescaling)
    (y : Binary64) (hints : Hints) :
    (((l.converse.convert y).run hints).1 = .error (.noCategory y) ↔
        y.isNaN = true ∧ y ∉ l.converse.table.lows)
      ∧ (¬ (y.isNaN = true ∧ y ∉ l.converse.table.lows) →
        ∃ x, ((l.converse.convert y).run hints).1 = .ok x ∧ l.owner? x ≠ none) := by
  have hreals := pairing_converse_eq_reals_iff.mpr hsamples
  have hnone := owner?_eq_none_iff (y := y) hl.converse hreals
  have hlands : ¬ (y.isNaN = true ∧ y ∉ l.converse.table.lows) →
      ∃ x, ((l.converse.convert y).run hints).1 = .ok x ∧ l.owner? x ≠ none := by
    intro hknown
    obtain ⟨i, howner⟩ := Option.ne_none_iff_exists'.mp (mt hnone.mp hknown)
    have hlen := hl.converse.sound.ordered.owner?_lt_length howner
    rw [table, List.length_map] at hlen
    have hd := List.getElem?_eq_getElem hlen
    obtain ⟨c, hc, heq, horiginal⟩ := exists_original hl hsamples (List.getElem_mem hlen)
    rw [heq] at hd
    have hwf := (hl.sound.categories c hc).here
    obtain ⟨z, hz, hcontains⟩ :=
      horiginal.lands hwf (hrescaling c hc) (attracts_of_owner? hl howner hd)
    have hverify' : l.converse.config.verifyReturn = false := by
      rw [config_converse hsamples]
      exact hverify
    refine ⟨c.here.confine z, ?_, ?_⟩
    · rw [hl.converse.convert_of_unverified hverify' howner hd hz, hl.converse.settle_eq, if_pos hreals,
        c.converseSide_converse]
    · obtain ⟨j, hj⟩ := List.mem_iff_getElem?.mp (List.mem_map_of_mem hc : c.here ∈ l.table.sides)
      obtain ⟨k, -, hk, -⟩ := hl.sound.ordered.exists_owner_of_contains hj hcontains
      exact Option.ne_none_iff_exists'.mpr ⟨k, hk⟩
  refine ⟨⟨fun hrefused => ?_, fun hunknown => ?_⟩, hlands⟩
  · by_contra hknown
    obtain ⟨x, hx, -⟩ := hlands hknown
    rw [hx] at hrefused
    cases hrefused
  · exact hl.converse.convert_of_unowned (hnone.mpr hunknown) hints

/-- Every depth in meters is converted to a packed depth, and every NaN but that of land is refused. -/
theorem convert_converse_lands_depths : ∃ cs l, depthCategories = .ok cs
    ∧ ofCategories 0 .default cs = .ok l ∧ l.IsBuilt ∧ l.pairing = .samples
    ∧ l.config.verifyReturn = false ∧ (∀ c ∈ l.categories, c.IsRescaling)
    ∧ ∀ (y : Binary64) (hints : Hints),
      (((l.converse.convert y).run hints).1 = .error (.noCategory y) ↔
          y.isNaN = true ∧ y ∉ l.converse.table.lows)
        ∧ (¬ (y.isNaN = true ∧ y ∉ l.converse.table.lows) →
          ∃ x, ((l.converse.convert y).run hints).1 = .ok x ∧ l.owner? x ≠ none) := by
  have hpasses : passes 0 .default depthCategories
      (fun _ l => l.pairing = .samples ∧ l.config.verifyReturn = false) = true := by decide +kernel
  obtain ⟨cs, l, hcs, hl, hall⟩ := exists_of_passes hpasses
  obtain ⟨hsamples, hverify⟩ := of_decide_eq_true hall
  obtain ⟨hdeclared, haffine⟩ := of_depthCategories hcs
  have hbuilt := isBuilt_of_isAffine hdeclared haffine hl
  obtain ⟨land, hland, h⟩ := exists_of_bind_eq_ok hcs
  obtain ⟨depth, hdepth, h⟩ := exists_of_bind_eq_ok h
  obtain rfl := Except.ok.inj h
  have hrescaling : ∀ c ∈ l.categories, c.IsRescaling := by
    intro c hc
    obtain ⟨d, hd, _, rfl⟩ := exists_of_mem_categories hl hc
    simp only [List.mem_cons, List.not_mem_nil, or_false] at hd
    rcases hd with rfl | rfl
    · rw [Category.asPlain_of_not_converted (Category.IsOriginal.qualitative hland).not_converted]
      exact Or.inl ⟨_, _, _, _, hland⟩
    · rw [Category.asPlain_of_not_converted (Category.isOriginal_of_quantitative hdepth).not_converted]
      rcases Category.forward_of_quantitative hdepth with hidentity | hlinear
      · exact Or.inr (Or.inl hidentity)
      · exact Or.inr (Or.inr ⟨metersOfPacked, (Option.some.inj hlinear).symm⟩)
  exact ⟨_, l, hcs, hl, hbuilt, hsamples, hverify, hrescaling,
    convert_converse_lands hbuilt hsamples hverify hrescaling⟩

end Legend

end RasterCategories
