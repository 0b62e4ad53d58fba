import Mathlib.Data.List.Forall2
import RasterCategories.Proofs.Conversion.Identity
import RasterCategories.Proofs.Conversion.Landing
import RasterCategories.Proofs.Legend.Shape
/-!
# Legends rebuilt from real values

A legend can be built from the categories of the real values of another one. Each of them is taken as plain, so
the new legend converts nothing: it keeps the names, the bounds and the order, gives back every value that
belongs to a category, and refuses all values that the legend of the real values only extrapolates to.

The categories of the samples are not converted, and a legend that is built from them converts them again.

* `Legend.Rebuilt`: how the new legend relates to the legend of the real values.
* `Legend.ofCategories_converse`: every legend of samples can be rebuilt from its real values in this way.
* `Legend.ofCategories_samples`: a legend that is rebuilt from samples, and not in this way.
-/

namespace RasterCategories

namespace Category

variable {c : Category Transform}

/-- Taking a category as plain changes nothing but the mark that it was converted. -/
theorem here_asPlain (origin : Origin) (c : Category Transform) :
    (c.asPlain origin).here = { c.here with converted := false } := by
  unfold asPlain
  split
  · rfl
  · next h => rw [← Bool.eq_false_iff.mpr h]

/-- Taken as plain, the real values of a category convert nothing. -/
theorem Sound.there_asPlain_converse (hc : c.Sound) (hplain : c.here.converted = false) (origin : Origin) :
    (c.converse.asPlain origin).there = none := by
  rcases c with ⟨_, here, _ | there, forward, back⟩
  · exact congrArg Category.there (asPlain_of_not_converted hplain)
  -- The real values are converted, since the samples are not.
  · have hconverted : there.converted = true := by
      rw [(hc.there there rfl).2, hplain]
      rfl
    simp [Category.asPlain, Category.converse, hconverted, Category.plain]

end Category

namespace Legend

variable {l : Legend Transform} {sides : List Side} {c : Category Transform}

/-- Sides that lie apart are not refused. -/
theorem checkDisjoint_eq_ok (h : sides.Pairwise fun a b => a.high.place < b.low.place) :
    checkDisjoint sides = .ok () := by
  have hnone : overlap? sides = none := by
    induction sides with
    | nil => rfl
    | cons a rest ih =>
      cases rest with
      | nil => rfl
      | cons b rest =>
        obtain ⟨ha, hrest⟩ := List.pairwise_cons.mp h
        rw [overlap?, if_pos (Binary64.compare_eq_gt_iff.mpr (ha b List.mem_cons_self)), ih hrest]
  rw [checkDisjoint, hnone]

/-- How a legend that was rebuilt from real values relates to the legend that showed them. -/
structure Rebuilt (reals m : Legend Transform) : Prop where
  /-- It converts nothing. -/
  pairing : m.pairing = .identity
  /-- It shows the same names and bounds in the same order. -/
  sides : List.Forall₂ (fun c d => c.here.name = d.here.name ∧ c.here.low = d.here.low
    ∧ c.here.high = d.here.high) reals.categories m.categories
  /-- A value that belongs to a category is found where it was, and given back bit by bit. -/
  known : ∀ x, (∃ c ∈ reals.categories, c.here.contains x = true) →
    (∃ i, reals.owner? x = some i ∧ m.owner? x = some i)
      ∧ ∀ hints : Hints, ((m.convert x).run hints).1 = .ok x
  /-- Any other value is refused, wherever it was extrapolated to. -/
  unknown : ∀ x, (∀ c ∈ reals.categories, c.here.contains x = false) →
    m.owner? x = none ∧ ∀ hints : Hints, ((m.convert x).run hints).1 = .error (.noCategory x)

/-- The real values of a legend of samples, taken as plain, convert nothing. -/
theorem there_asPlain_of_reals (hl : l.IsBuilt) (hsamples : l.pairing = .samples)
    (hc : c ∈ l.converse.categories) (origin : Origin) : (c.asPlain origin).there = none := by
  obtain ⟨d, hd, rfl, horiginal⟩ := exists_original hl hsamples hc
  exact (hl.sound.categories d hd).there_asPlain_converse horiginal.not_converted origin

/-- Some category of a legend of samples has an interval of real values. -/
theorem IsBuilt.exists_interval (hl : l.IsBuilt) (hsamples : l.pairing = .samples) :
    ∃ c ∈ l.converse.categories, c.here.interval.isSome = true := by
  obtain ⟨c, hc, hsome⟩ := exists_interval_of_samples (hl.eq_ofMembers_samples hsamples).2
  rw [← Category.here_converse] at hsome
  exact ⟨c.converse, mem_converse hl hsamples hc, hsome⟩

/-- The sides of plain copies are those of the given categories, without the mark. -/
theorem map_here_plainCopies (token : Nat) (cs : List (Category Transform)) :
    (plainCopies token cs).map Category.here = cs.map fun c => { c.here with converted := false } := by
  refine List.ext_getElem? fun i => ?_
  rw [plainCopies, List.getElem?_map, List.getElem?_mapIdx, List.getElem?_map, Option.map_map]
  exact congrArg (Option.map · cs[i]?) (funext fun c => Category.here_asPlain _ c)

/-- The real values of a legend of samples, taken as plain, call for a legend that is its own converse. -/
theorem pairingOf_reals (hl : l.IsBuilt) (hsamples : l.pairing = .samples) (token : Nat) :
    pairingOf (plainCopies token l.converse.categories) = .identity := by
  have hthere : ∀ c ∈ plainCopies token l.converse.categories, c.there = none := by
    intro c hc
    obtain ⟨d, hd, origin, rfl⟩ := exists_of_mem_plainCopies hc
    exact there_asPlain_of_reals hl hsamples hd origin
  obtain ⟨c, hc, hsome⟩ := hl.exists_interval hsamples
  obtain ⟨d, hd, hhere⟩ : ∃ d ∈ plainCopies token l.converse.categories,
      d.here = { c.here with converted := false } := by
    rw [← List.mem_map, map_here_plainCopies]
    exact List.mem_map_of_mem hc
  have hinterval : d.converseSide.interval.isSome = true := by
    rw [Category.converseSide, hthere d hd, Option.getD_none, hhere]
    exact hsome
  unfold pairingOf
  rw [if_neg, if_neg]
  · simpa using hthere
  · rw [List.all_eq_true]
    intro hnone
    have := hnone _ hd
    rw [Option.isNone_iff_eq_none] at this
    rw [this] at hinterval
    cases hinterval

/-- Categories that a legend shows are in order when they are taken as plain. -/
theorem sortBy_plainCopies (hl : l.IsBuilt) (token : Nat) :
    sortBy sortKey (plainCopies token l.categories) = plainCopies token l.categories := by
  have hlows : (plainCopies token l.categories).map sortKey = l.table.lows := by
    have hsides := congrArg (List.map Side.low) (map_here_plainCopies token l.categories)
    rw [List.map_map, List.map_map] at hsides
    rw [SearchTable.lows, table, List.map_map]
    exact hsides
  refine sortBy_eq_self ?_
  have hsorted := hl.sound.ordered.sorted_lows
  rw [Binary64.Sorted, ← hlows, List.pairwise_map] at hsorted
  exact hsorted

/-- The legend that is rebuilt from the categories of real values. -/
def rebuilt (token : Nat) (config : Config) (reals : Legend Transform) : Legend Transform :=
  ofMembers token config .identity (plainCopies token reals.categories)

theorem categories_rebuilt (token : Nat) (config : Config) (reals : Legend Transform) :
    (rebuilt token config reals).categories = plainCopies token reals.categories :=
  categories_of_ne_reals _ (by simp [rebuilt, ofMembers])

/-- The sides of a rebuilt legend are those that it was built from, without the mark. -/
theorem sides_rebuilt (token : Nat) (config : Config) (reals : Legend Transform) :
    (rebuilt token config reals).table.sides = reals.categories.map fun c => { c.here with converted := false } := by
  rw [table, categories_rebuilt, map_here_plainCopies]

/-- They have the bounds that they had. -/
theorem bounds_rebuilt (token : Nat) (config : Config) (reals : Legend Transform) :
    (rebuilt token config reals).table.sides.map Side.bounds = reals.table.sides.map Side.bounds := by
  rw [sides_rebuilt, table, List.map_map, List.map_map]
  rfl

/-- The construction accepts the categories of real values, as their sides lie apart still. -/
theorem ofCategories_reals (hl : l.IsBuilt) (hsamples : l.pairing = .samples) (token : Nat) (config : Config) :
    ofCategories token config l.converse.categories = .ok (rebuilt token config l.converse) := by
  have hseparate : (rebuilt token config l.converse).table.sides.Pairwise fun a b => a.high.place < b.low.place := by
    have hbefore := hl.converse.sound.ordered.separate
    have hmap : (l.converse.table.sides.map Side.bounds).Pairwise fun a b => a.2.place < b.1.place :=
      List.pairwise_map.mpr hbefore
    rw [← bounds_rebuilt token config] at hmap
    exact List.pairwise_map.mp hmap
  refine ofCategories_eq_ok_iff.mpr ⟨_, (sortBy_plainCopies hl.converse token).symm, ?_, ?_, ?_⟩
  · rw [pairingOf_reals hl hsamples token, rebuilt]
  · exact checkDisjoint_eq_ok hseparate
  · exact checkDisjoint_eq_ok hseparate

/-- The categories of the real values of a legend of samples make a legend, which converts nothing, keeps their
names and bounds, finds each of their values where it was and refuses all others. -/
theorem ofCategories_converse (hl : l.IsBuilt) (hsamples : l.pairing = .samples) (token : Nat) (config : Config) :
    ∃ m, ofCategories token config l.converse.categories = .ok m ∧ Rebuilt l.converse m := by
  have hm := ofCategories_reals hl hsamples token config
  have hbuilt : (rebuilt token config l.converse).IsBuilt :=
    .legend hl.converse.isDeclared hl.converse.forward hm
  have hbounds := bounds_rebuilt token config l.converse
  refine ⟨_, hm, rfl, ?_, fun x hx => ?_, fun x hx => ?_⟩
  · have hsides := sides_rebuilt token config l.converse
    rw [table, ← List.forall₂_eq_eq_eq, List.forall₂_map_left_iff, List.forall₂_map_right_iff] at hsides
    refine (hsides.imp fun d c hside => ?_).flip
    rw [flip, hside]
    exact ⟨rfl, rfl, rfl⟩
  · obtain ⟨c, hc, hcx⟩ := hx
    have hside : c.here ∈ l.converse.table.sides := List.mem_map_of_mem hc
    obtain ⟨i, _, howner, -⟩ := (hl.converse.sound.ordered.assigns_owner? x).owned ⟨_, hside, hcx⟩
    have hsame : (rebuilt token config l.converse).owner? x = some i := by
      rw [owner?, SearchTable.owner?_eq_of_bounds hbounds (u := { l.converse.table with extrapolates := false }) rfl]
      rw [hl.converse.sound.ordered.owner?_eq_of_contains hside hcx, howner]
    refine ⟨⟨i, howner, hsame⟩, fun hints => ?_⟩
    rw [hbuilt.run_convert_of_isIdentity rfl, hsame, if_neg (by simp)]
  · have hnone : (rebuilt token config l.converse).owner? x = none := by
      refine (hbuilt.sound.ordered.assigns_owner? x).unowned (fun s hs => ?_) rfl
      obtain ⟨b, hb, heq⟩ := List.mem_map.mp (hbounds ▸ List.mem_map_of_mem hs :
        s.bounds ∈ l.converse.table.sides.map Side.bounds)
      obtain ⟨c, hc, rfl⟩ := List.mem_map.mp hb
      rw [← Side.contains_eq_of_bounds heq]
      exact hx c hc
    exact ⟨hnone, hbuilt.convert_of_unowned hnone⟩

/-- The real values of the depths make a legend again. -/
theorem ofCategories_converse_depths : ∃ cs l m, depthCategories = .ok cs
    ∧ ofCategories 0 .default cs = .ok l ∧ l.IsBuilt ∧ l.pairing = .samples
    ∧ ofCategories 3 .default l.converse.categories = .ok m ∧ Rebuilt l.converse m := by
  have hpasses : passes 0 .default depthCategories (fun _ l => l.pairing = .samples) = true := by
    decide +kernel
  obtain ⟨cs, l, hcs, hl, hsamples⟩ := exists_of_passes hpasses
  rw [decide_eq_true_eq] at hsamples
  obtain ⟨hdeclared, haffine⟩ := of_depthCategories hcs
  have hbuilt := isBuilt_of_isAffine hdeclared haffine hl
  obtain ⟨m, hm, hrebuilt⟩ := ofCategories_converse hbuilt hsamples 3 .default
  exact ⟨cs, l, m, hcs, hl, hbuilt, hsamples, hm, hrebuilt⟩

/-- The converse of the real depths is the legend of the samples. The legend of its categories converts them as
before, one to three. -/
theorem ofCategories_samples : ∃ cs l m, depthCategories = .ok cs ∧ ofCategories 0 .default cs = .ok l
    ∧ l.converse.IsBuilt ∧ l.converse.kind = "distinct"
    ∧ ofCategories 3 .default l.converse.converse.categories = .ok m ∧ m.kind = "distinct"
    ∧ (∃ c ∈ l.converse.converse.categories, c.here.contains .one = true)
    ∧ ((m.convert .one).run .empty).1 = .ok (.ofInt 3) ∧ ¬ Rebuilt l.converse.converse m := by
  have hpasses : passes 0 .default depthCategories (fun _ l => l.converse.kind = "distinct"
      ∧ (∃ c ∈ l.converse.converse.categories, c.here.contains .one = true)
      ∧ passes 3 .default (.ok l.converse.converse.categories) (fun _ m => m.kind = "distinct"
        ∧ ((m.convert .one).run .empty).1 = .ok (.ofInt 3)) = true) = true := by
    decide +kernel
  obtain ⟨cs, l, hcs, hl, hall⟩ := exists_of_passes hpasses
  obtain ⟨hdistinct, hone, hagain⟩ := of_decide_eq_true hall
  obtain ⟨_, m, hds, hm, hresult⟩ := exists_of_passes hagain
  obtain rfl := Except.ok.inj hds
  obtain ⟨hkind, hthree⟩ := of_decide_eq_true hresult
  obtain ⟨hdeclared, haffine⟩ := of_depthCategories hcs
  have hbuilt := (isBuilt_of_isAffine hdeclared haffine hl).converse
  refine ⟨cs, l, m, hcs, hl, hbuilt, hdistinct, hm, hkind, hone, hthree, fun hrebuilt => ?_⟩
  rw [kind, hrebuilt.pairing] at hkind
  simp at hkind

end Legend

end RasterCategories
