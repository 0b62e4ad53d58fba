import RasterCategories.Proofs.Conversion.Identity
import RasterCategories.Proofs.Legend.Construction
import RasterCategories.Proofs.Legend.Owner
import RasterCategories.Proofs.Search.Bounds
/-!
# The shape of a legend

How a legend searches, and where the converses of its categories stand, is decided by the bounds of the
categories in both domains. The names, the units and the conversions do not matter. Whether a result leads back
depends on one thing more: which positions hold one and the same category.

* `Category.bounds`: the bounds in both domains.
* `Legend.SameRepeats`: legends that list a category again at the same positions.
* `Legend.Congruent`: legends of which the categories and their converses stand alike.
* `Legend.IsBuilt.congruent_of_samples`: among the samples, the bounds and the repeated categories decide.
* `Legend.IsBuilt.congruent_of_reals`: among the real values, the order of the samples does too.
-/

namespace RasterCategories

namespace Category

variable {τ : Type}

/-- The bounds in this domain and in the other one. -/
def bounds (c : Category τ) : (Binary64 × Binary64) × (Binary64 × Binary64) :=
  (c.here.bounds, c.converseSide.bounds)

theorem bounds_converse (c : Category τ) : c.converse.bounds = c.bounds.swap := by
  rcases c with ⟨origin, here, _ | there, forward, back⟩ <;> rfl

end Category

namespace Legend

variable {τ : Type} {l m : Legend Transform} {ms ns : List (Category Transform)} {c : Category Transform}
  {p : Pairing}

/-! ### Repeated categories -/

/-- The origins of the categories as the legend lists them. -/
def origins (l : Legend τ) : List Origin := l.categories.map Category.origin

/-- The origins of the categories as the legend of the samples lists them. -/
def sampleOrigins (l : Legend τ) : List Origin := l.members.map Category.origin

/-- Two positions of the samples hold one and the same category in both legends or in neither. -/
def SameRepeats (l m : Legend τ) : Prop :=
  ∀ i j : Nat, l.sampleOrigins[i]? = l.sampleOrigins[j]? ↔ m.sampleOrigins[i]? = m.sampleOrigins[j]?

/-- Legends that list no category twice agree on this. -/
theorem sameRepeats_of_nodup (hl : l.sampleOrigins.Nodup) (hm : m.sampleOrigins.Nodup)
    (hlength : l.sampleOrigins.length = m.sampleOrigins.length) : SameRepeats l m := by
  intro i j
  by_cases hi : i < l.sampleOrigins.length
  · rw [List.getElem?_inj hi hl, List.getElem?_inj (hlength ▸ hi) hm]
  -- A position outside both legends holds what another one holds if that one is outside too.
  · have hi' : ¬ i < m.sampleOrigins.length := hlength ▸ hi
    simp [List.getElem?_eq_none (not_lt.mp hi), List.getElem?_eq_none (not_lt.mp hi'),
      eq_comm (a := none), hlength]

/-- A result leads back to a category if the converse legend lists it where it finds the result. -/
theorem leadsBack_iff_origins {y : Binary64} : l.leadsBack c y = true ↔
    ∃ q, l.converse.table.owner? y = some q ∧ l.converse.origins[q]? = some c.origin := by
  simp [leadsBack_iff, origins]

/-! ### The order of the real values -/

theorem bounds_table (l : Legend τ) :
    l.table.sides.map Side.bounds = (l.categories.map Category.bounds).map Prod.fst := by
  rw [table, List.map_map, List.map_map]
  rfl

/-- The converses of categories in the order of their bounds. -/
theorem bounds_sortedConverses (ms : List (Category Transform)) :
    (sortedConverses ms).map (fun e => (e.1.bounds, e.2)) =
      sortBy (fun e => e.1.1.1) ((ms.map fun c => c.bounds.swap).zipIdx) := by
  have hswap : (ms.map fun c => c.bounds.swap) = (ms.map Category.converse).map Category.bounds := by
    rw [List.map_map]
    exact List.map_congr_left fun c _ => (Category.bounds_converse c).symm
  rw [hswap, List.zipIdx_map]
  exact (sortBy_map (fun e => e.1.1.1) (fun e : Category Transform × Nat => (e.1.bounds, e.2)) _).symm

/-- Categories with the same bounds have converses with the same bounds, in the same order. -/
theorem sortedConverses_eq_of_bounds (h : ms.map Category.bounds = ns.map Category.bounds) :
    (sortedConverses ms).map (fun e => (e.1.bounds, e.2)) =
      (sortedConverses ns).map fun e => (e.1.bounds, e.2) := by
  have hswap : (ms.map fun c => c.bounds.swap) = ns.map fun c => c.bounds.swap := by
    simpa [List.map_map, Function.comp_def] using congrArg (List.map Prod.swap) h
  rw [bounds_sortedConverses, bounds_sortedConverses, hswap]

/-- A legend of samples lists the origins of its members. -/
theorem origins_ofMembers (token : Nat) (config : Config) (hp : p ≠ .reals) (ms : List (Category Transform)) :
    (ofMembers token config p ms).origins = ms.map Category.origin :=
  congrArg (List.map Category.origin) (categories_of_ne_reals (ofMembers token config p ms) hp)

/-- The legend of the real values lists them in the order that it keeps. -/
theorem getElem?_origins_converse (token : Nat) (config : Config) (ms : List (Category Transform)) (j : Nat) :
    (ofMembers token config .samples ms).converse.origins[j]? =
      (((sortedConverses ms).map Prod.snd)[j]?).bind fun k => (ms.map Category.origin)[k]? := by
  rw [origins, categories_converse_ofMembers, List.getElem?_map, List.getElem?_map, List.getElem?_map]
  cases hj : (sortedConverses ms)[j]? with
  | none => rfl
  | some entry =>
    obtain ⟨c, hc, hconverse⟩ := mem_sortedConverses.mp (List.mem_of_getElem? hj)
    simp [hc, ← hconverse]

/-! ### Legends that look alike -/

/-- The sides of two legends have the same bounds, in the same order in both domains. A position of one domain and
one of the other hold the same category in both legends or in neither. -/
structure Congruent (l m : Legend Transform) : Prop where
  pairing : l.pairing = m.pairing
  bounds : l.table.sides.map Side.bounds = m.table.sides.map Side.bounds
  back : l.converse.table.sides.map Side.bounds = m.converse.table.sides.map Side.bounds
  origins : ∀ i j : Nat, l.origins[i]? = l.converse.origins[j]? ↔ m.origins[i]? = m.converse.origins[j]?

namespace Congruent

theorem pairing_converse (h : Congruent l m) : l.converse.pairing = m.converse.pairing := by
  have hpairing := h.pairing
  rcases l with ⟨_, _, _ | _ | _ | _ | _, _, _⟩ <;> rcases m with ⟨_, _, _ | _ | _ | _ | _, _, _⟩ <;>
    first | rfl | cases hpairing

theorem isPaired (h : Congruent l m) : l.isPaired = m.isPaired := by
  rw [Legend.isPaired, Legend.isPaired, h.pairing]

/-- A legend that looks alike in one domain does so in the other. -/
theorem converse (h : Congruent l m) (hpaired : l.isPaired = true) : Congruent l.converse m.converse where
  pairing := h.pairing_converse
  bounds := h.back
  back := by
    rw [converse_converse l hpaired, converse_converse m (h.isPaired ▸ hpaired)]
    exact h.bounds
  origins i j := by
    rw [converse_converse l hpaired, converse_converse m (h.isPaired ▸ hpaired), eq_comm, h.origins j i, eq_comm]

/-- A result leads back to the categories at one position of both legends or to neither. -/
theorem leadsBack_eq (h : Congruent l m) {i : Nat} {d : Category Transform} (hc : l.categories[i]? = some c)
    (hd : m.categories[i]? = some d) (y : Binary64) :
    l.active.leadsBack (c.map Transform.behaviour) y = m.active.leadsBack (d.map Transform.behaviour) y := by
  have howner : l.converse.table.owner? y = m.converse.table.owner? y :=
    SearchTable.owner?_eq_of_bounds h.back (by rw [table, table, h.pairing_converse]) y
  have hfirst : l.origins[i]? = some c.origin := by simp [Legend.origins, hc]
  have hsecond : m.origins[i]? = some d.origin := by simp [Legend.origins, hd]
  rw [active, active, leadsBack_map, leadsBack_map, Bool.eq_iff_iff, leadsBack_iff_origins, leadsBack_iff_origins,
    howner, ← hfirst, ← hsecond]
  simp only [eq_comm (b := l.origins[i]?), eq_comm (b := m.origins[i]?), h.origins]

end Congruent

/-- Samples with the same bounds in both domains make legends that look alike, provided that a category which
has real values is listed again at the same positions in both. -/
theorem congruent_ofMembers (token token' : Nat) (config config' : Config) (hp : p = .unpaired ∨ p = .samples)
    (h : ms.map Category.bounds = ns.map Category.bounds)
    (hrepeats : p = .samples → SameRepeats (ofMembers token config p ms) (ofMembers token' config' p ns)) :
    Congruent (ofMembers token config p ms) (ofMembers token' config' p ns) := by
  have hne : p ≠ .reals := by
    rintro rfl
    simp at hp
  have hlength : ms.length = ns.length := by simpa using congrArg List.length h
  have hnone : ∀ i : Nat, (ms.map Category.origin)[i]? = none ↔ (ns.map Category.origin)[i]? = none := by
    simp [hlength]
  have hsides : (ofMembers token config p ms).table.sides.map Side.bounds =
      (ofMembers token' config' p ns).table.sides.map Side.bounds := by
    rw [bounds_table, bounds_table, categories_of_ne_reals _ hne, categories_of_ne_reals _ hne]
    exact congrArg (List.map Prod.fst) h
  rcases hp with rfl | rfl
  -- Without real values the converse lists nothing.
  · refine ⟨rfl, hsides, rfl, fun i j => ?_⟩
    rw [origins_ofMembers _ _ hne, origins_ofMembers _ _ hne]
    exact hnone i
  · have hsorted := sortedConverses_eq_of_bounds h
    have horder : (sortedConverses ms).map Prod.snd = (sortedConverses ns).map Prod.snd := by
      simpa [List.map_map, Function.comp_def] using congrArg (List.map Prod.snd) hsorted
    refine ⟨rfl, hsides, ?_, fun i j => ?_⟩
    · rw [bounds_table, bounds_table, categories_converse_ofMembers, categories_converse_ofMembers]
      simpa [List.map_map, Function.comp_def] using congrArg (List.map fun e => e.1.1) hsorted
    -- The converses are in the same order, so the question is about two positions of the samples.
    · rw [origins_ofMembers _ _ hne, origins_ofMembers _ _ hne, getElem?_origins_converse, getElem?_origins_converse,
        horder]
      cases ((sortedConverses ns).map Prod.snd)[j]? with
      | none => exact hnone i
      | some k => exact hrepeats rfl i k

/-! ### Built legends -/

/-- The categories of a built legend are declared ones. -/
theorem IsBuilt.isDeclared (hl : l.IsBuilt) : ∀ c ∈ l.categories, c.IsDeclared := by
  intro c hc
  obtain ⟨token, config, cs, m, hdeclared, hm, hlm⟩ := hl.exists_construction
  obtain ⟨members, hmembers, rfl, -, -⟩ := ofCategories_eq_ok_iff.mp hm
  have hmember : ∀ d ∈ members, d.IsDeclared := by
    intro d hd
    obtain ⟨e, he, _, rfl⟩ := exists_of_mem_members hmembers hd
    exact (hdeclared e he).asPlain
  rcases hlm with rfl | rfl
  · exact hmember c (mem_categories_ofMembers.mp hc)
  · obtain ⟨d, hd, rfl | rfl⟩ := mem_categories_converse hc
    · exact hmember _ hd
    · exact (hmember _ hd).converse

/-- The categories of a legend of samples are original ones. -/
theorem IsBuilt.isOriginal (hl : l.IsBuilt) (h : l.pairing ≠ .reals) : ∀ c ∈ l.categories, c.IsOriginal := by
  intro c hc
  obtain ⟨token, config, cs, m, hdeclared, hm, hlm⟩ := hl.exists_construction
  obtain ⟨members, hmembers, rfl, -, -⟩ := ofCategories_eq_ok_iff.mp hm
  have hmember : ∀ d ∈ members, d.IsOriginal := by
    intro d hd
    obtain ⟨e, he, _, rfl⟩ := exists_of_mem_members hmembers hd
    exact (hdeclared e he).original_asPlain
  rcases hlm with rfl | rfl
  · exact hmember c (mem_categories_ofMembers.mp hc)
  · rcases converse_of_ne_samples (mt pairing_converse_eq_reals_iff.mpr h) (pairingOf_ne_reals members) with
      hself | hempty
    · rw [hself] at hc
      exact hmember c (mem_categories_ofMembers.mp hc)
    · rw [hempty] at hc
      cases hc

/-- A legend of samples is made of the categories that it shows, unless it is the empty one. -/
theorem IsBuilt.eq_ofMembers (hl : l.IsBuilt) (h : l.pairing ≠ .reals) :
    l = empty ∨ l = ofMembers l.token l.config (pairingOf l.categories) l.categories := by
  obtain ⟨token, config, cs, m, -, hm, hlm⟩ := hl.exists_construction
  obtain ⟨members, -, rfl, -, -⟩ := ofCategories_eq_ok_iff.mp hm
  have hself : (ofMembers token config (pairingOf members) members).categories = members :=
    categories_of_ne_reals _ (pairingOf_ne_reals members)
  rcases hlm with rfl | rfl
  · right
    rw [hself]
    rfl
  · rcases converse_of_ne_samples (mt pairing_converse_eq_reals_iff.mpr h) (pairingOf_ne_reals members) with
      heq | hempty
    · right
      rw [heq, hself]
      rfl
    · exact Or.inl hempty

/-- The categories of a legend of samples call for its relation to the real values. -/
theorem IsBuilt.pairing_eq_pairingOf (hl : l.IsBuilt) (h : l.pairing ≠ .reals) (hne : l ≠ empty) :
    l.pairing = pairingOf l.categories :=
  congrArg pairing ((hl.eq_ofMembers h).resolve_left hne)

/-- A legend of samples with real values of its own is made of the categories that it shows. -/
theorem IsBuilt.eq_ofMembers_samples (hl : l.IsBuilt) (hsamples : l.pairing = .samples) :
    l = ofMembers l.token l.config .samples l.categories ∧ pairingOf l.categories = .samples := by
  have hreals : l.pairing ≠ .reals := by simp [hsamples]
  have hne : l ≠ empty := by
    rintro rfl
    cases hsamples
  have hpairing : pairingOf l.categories = .samples := (hl.pairing_eq_pairingOf hreals hne).symm.trans hsamples
  have heq := (hl.eq_ofMembers hreals).resolve_left hne
  rw [hpairing] at heq
  exact ⟨heq, hpairing⟩

/-- Some category of a legend of samples has real values of its own. -/
theorem IsBuilt.exists_there (hl : l.IsBuilt) (hsamples : l.pairing = .samples) :
    ∃ c ∈ l.categories, ∃ s, c.there = some s := by
  have hpairing := (hl.eq_ofMembers_samples hsamples).2
  unfold pairingOf at hpairing
  split at hpairing
  · cases hpairing
  · split at hpairing
    · next hany => simpa [Option.isSome_iff_exists] using hany
    · cases hpairing

/-- The legend of the real values shows the converse of each category of the samples. -/
theorem mem_converse (hl : l.IsBuilt) (hsamples : l.pairing = .samples) (hc : c ∈ l.categories) :
    c.converse ∈ l.converse.categories := by
  rw [(hl.eq_ofMembers_samples hsamples).1]
  exact (categories_converse_perm _ _ _).mem_iff.mpr (List.mem_map_of_mem hc)

/-- Exactly the legends of real values show converted categories. -/
theorem IsBuilt.pairing_eq_reals_iff (hl : l.IsBuilt) :
    l.pairing = .reals ↔ ∃ c ∈ l.categories, c.here.converted = true := by
  constructor
  · intro hreals
    obtain ⟨c, hc, s, hs⟩ := hl.converse.exists_there (by rw [Legend.converse, hreals])
    have hconverse : l.converse.converse = l := converse_converse l (by simp [isPaired, hreals])
    rw [← hconverse]
    refine ⟨c.converse, mem_converse hl.converse (by rw [Legend.converse, hreals]) hc, ?_⟩
    have hplain := (hl.converse.isOriginal (by simp [Legend.converse, hreals]) c hc).not_converted
    have hflip := ((hl.converse.sound.categories c hc).there s hs).2
    rw [Category.here_converse, Category.converseSide, hs, Option.getD_some, hflip, hplain]
    rfl
  · rintro ⟨c, hc, hconverted⟩
    by_contra hne
    rw [(hl.isOriginal hne c hc).not_converted] at hconverted
    cases hconverted

/-- Whether none of the real values is a number is told by the bounds. -/
theorem all_interval_isNone_eq (hms : ∀ c ∈ ms, c.Sound) :
    (ms.all fun c => c.converseSide.interval.isNone) = (ms.map Category.bounds).all fun b => b.2.1.isNaN := by
  rw [List.all_map, Bool.eq_iff_iff, List.all_eq_true, List.all_eq_true]
  refine forall₂_congr fun c hc => ?_
  have hiff := (hms c hc).converseSide.interval_isSome_iff
  show c.converseSide.interval.isNone = true ↔ c.converseSide.low.isNaN = true
  cases hinterval : c.converseSide.interval <;> cases hnan : c.converseSide.low.isNaN <;> simp_all

/-- The bounds of categories and whether they convert anything decide which relation they call for. -/
theorem pairingOf_eq (hms : ∀ c ∈ ms, c.Sound) (hns : ∀ d ∈ ns, d.Sound)
    (h : ms.map Category.bounds = ns.map Category.bounds)
    (hthere : ms.map (fun c => c.there.isSome) = ns.map fun d => d.there.isSome) :
    pairingOf ms = pairingOf ns := by
  have hany : ∀ ks : List (Category Transform), (ks.any fun c => c.there.isSome) =
      (ks.map fun c => c.there.isSome).any id := fun ks => by rw [List.any_map]; rfl
  unfold pairingOf
  rw [all_interval_isNone_eq hms, all_interval_isNone_eq hns, hany ms, hany ns, h, hthere]

/-- Legends of samples that convert something look alike if their categories have the same bounds in both domains,
and those with real values are listed again at the same positions. -/
theorem IsBuilt.congruent_of_samples (hl : l.IsBuilt) (hm : m.IsBuilt) (hlne : l.pairing ≠ .reals)
    (hmne : m.pairing ≠ .reals) (hidentity : l.pairing ≠ .identity) (hnonempty : l.categories ≠ [])
    (h : l.categories.map Category.bounds = m.categories.map Category.bounds)
    (hthere : (l.categories.map fun c => c.there.isSome) = m.categories.map fun d => d.there.isSome)
    (hrepeats : l.pairing = .samples → SameRepeats l m) : Congruent l m := by
  have hpairing := pairingOf_eq hl.sound.categories hm.sound.categories h hthere
  have hnonempty' : m.categories ≠ [] := fun hnil => hnonempty (by simpa [hnil] using h)
  rcases hl.eq_ofMembers hlne with hempty | heq
  · exact absurd (congrArg categories hempty) hnonempty
  · rcases hm.eq_ofMembers hmne with hempty | heq'
    · exact absurd (congrArg categories hempty) hnonempty'
    · have hp : l.pairing = pairingOf l.categories :=
        hl.pairing_eq_pairingOf hlne fun hempty => hnonempty (congrArg categories hempty)
      have hcases : pairingOf l.categories = .unpaired ∨ pairingOf l.categories = .samples := by
        rcases pairingOf_cases l.categories with hcase | hcase | hcase
        · exact Or.inl hcase
        · exact Or.inr hcase
        · exact absurd (hp.trans hcase) hidentity
      have hcongruent := congruent_ofMembers l.token m.token l.config m.config hcases h
      rw [← heq, hpairing, ← heq', ← hpairing, ← hp] at hcongruent
      exact hcongruent hrepeats

/-- The order of the real values and their bounds tell the bounds of the samples at each position. -/
theorem getElem?_bounds_of_sortedConverses
    (h : (sortedConverses ms).map (fun e => (e.1.bounds, e.2)) =
      (sortedConverses ns).map fun e => (e.1.bounds, e.2))
    {i : Nat} (hc : ms[i]? = some c) : (ns[i]?).map Category.bounds = some c.bounds := by
  have hmem : (c.converse.bounds, i) ∈ (sortedConverses ms).map fun e => (e.1.bounds, e.2) :=
    List.mem_map.mpr ⟨(c.converse, i), mem_sortedConverses.mpr ⟨c, hc, rfl⟩, rfl⟩
  rw [h] at hmem
  obtain ⟨e, he, heq⟩ := List.mem_map.mp hmem
  obtain ⟨hbounds, rfl⟩ := Prod.mk.inj heq
  obtain ⟨d, hd, hconverse⟩ := mem_sortedConverses.mp he
  rw [← hconverse, Category.bounds_converse, Category.bounds_converse] at hbounds
  rw [hd, Option.map_some, Prod.swap_injective hbounds]

/-- The order of the real values and their bounds tell the bounds of the samples. -/
theorem bounds_eq_of_sortedConverses
    (h : (sortedConverses ms).map (fun e => (e.1.bounds, e.2)) =
      (sortedConverses ns).map fun e => (e.1.bounds, e.2)) :
    ms.map Category.bounds = ns.map Category.bounds := by
  refine List.ext_getElem? fun i => ?_
  rw [List.getElem?_map, List.getElem?_map]
  cases hc : ms[i]? with
  | some c => exact (getElem?_bounds_of_sortedConverses h hc).symm
  | none =>
    cases hd : ns[i]? with
    | none => rfl
    | some d =>
      have hms := getElem?_bounds_of_sortedConverses h.symm hd
      rw [hc] at hms
      cases hms

/-- The converse has the same samples. -/
theorem sampleOrigins_converse (hpaired : l.isPaired = true) : l.converse.sampleOrigins = l.sampleOrigins := by
  rcases l with ⟨token, config, _ | _ | _ | _ | _, members, order⟩ <;> first | rfl | cases hpaired

/-- The legend of the real values stands in the order that it keeps. -/
theorem IsBuilt.placed_of_reals (hl : l.IsBuilt) (hreals : l.pairing = .reals) :
    l.placed = sortedConverses l.converse.categories
      ∧ l.realOrder = (sortedConverses l.converse.categories).map Prod.snd := by
  have hself := (hl.converse.eq_ofMembers_samples (by rw [Legend.converse, hreals])).1
  have hconverse : l.converse.converse = l := converse_converse l (by simp [isPaired, hreals])
  generalize l.converse.categories = ms at hself
  rw [hself] at hconverse
  rw [← hconverse]
  exact ⟨placed_ofMembers_reals _ _ _, rfl⟩

/-- What a legend of real values shows and keeps is the sorted list of the converses of its samples. -/
theorem IsBuilt.bounds_sortedConverses_of_reals (hl : l.IsBuilt) (hreals : l.pairing = .reals) :
    (sortedConverses l.converse.categories).map (fun e => (e.1.bounds, e.2)) =
      (l.categories.map Category.bounds).zip l.realOrder := by
  obtain ⟨hplaced, horder⟩ := hl.placed_of_reals hreals
  have hcategories : l.categories = (sortedConverses l.converse.categories).map Prod.fst :=
    congrArg (List.map Prod.fst) hplaced
  rw [horder, hcategories, List.map_map, List.zip_map']
  rfl

/-- Legends of real values look alike if their categories have the same bounds in both domains, and the
categories of the samples stand in the same order and are listed again at the same positions. -/
theorem IsBuilt.congruent_of_reals (hl : l.IsBuilt) (hm : m.IsBuilt) (hlreals : l.pairing = .reals)
    (hmreals : m.pairing = .reals)
    (h : l.categories.map Category.bounds = m.categories.map Category.bounds)
    (horder : l.realOrder = m.realOrder) (hrepeats : SameRepeats l m) : Congruent l m := by
  have hmembers : l.converse.categories.map Category.bounds = m.converse.categories.map Category.bounds := by
    refine bounds_eq_of_sortedConverses ?_
    rw [hl.bounds_sortedConverses_of_reals hlreals, hm.bounds_sortedConverses_of_reals hmreals, h, horder]
  have hconverse : Congruent l.converse m.converse := by
    have hself := (hl.converse.eq_ofMembers_samples (by rw [Legend.converse, hlreals])).1
    have hself' := (hm.converse.eq_ofMembers_samples (by rw [Legend.converse, hmreals])).1
    have hcongruent := congruent_ofMembers l.converse.token m.converse.token l.converse.config m.converse.config
      (Or.inr rfl) hmembers
    rw [← hself, ← hself', SameRepeats, sampleOrigins_converse (by simp [isPaired, hlreals]),
      sampleOrigins_converse (by simp [isPaired, hmreals])] at hcongruent
    exact hcongruent fun _ => hrepeats
  have hback := hconverse.converse (by rw [isPaired, Legend.converse, hlreals])
  rwa [converse_converse l (by simp [isPaired, hlreals]), converse_converse m (by simp [isPaired, hmreals])]
    at hback

end Legend

end RasterCategories
