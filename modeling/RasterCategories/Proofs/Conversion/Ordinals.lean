import Mathlib.Data.List.Nodup
import RasterCategories.Proofs.Conversion.Return
/-!
# Ordinals of converted samples

A sample of a qualitative category is converted to the NaN of the ordinal of that category. If the legend has
real values, these NaNs key sides of its converse, so no two of its qualitative categories share an ordinal.
A legend without real values has no such converse, and ordinals may repeat in it.

* `Legend.convert_of_qualitative`: what a sample of a qualitative category is converted to.
* `Legend.convert_qualitative_eq_iff`: when the samples of two qualitative categories merge.
* `Legend.convert_sharedOrdinal`: two qualitative categories of which the samples merge.
-/

namespace RasterCategories.Legend

section Qualitative

variable {token : Nat} {config : Config} {cs : List (Category Transform)} {l : Legend Transform}
  {c d : Category Transform} {origin origin' : Origin} {name name' : String} {samples samples' : Samples}
  {m n : Int} {x y : Binary64} {i j : Nat}

/-- A legend with a qualitative category has real values, or no category that converts to an interval. -/
theorem pairing_of_qualitative (hl : ofCategories token config cs = .ok l) (hc : c ∈ l.categories)
    (hq : Category.qualitative origin name samples n = .ok c) :
    l.pairing = .samples ∨ l.pairing = .unpaired := by
  obtain ⟨members, -, rfl, -, -⟩ := ofCategories_eq_ok_iff.mp hl
  have hmem := mem_categories_ofMembers.mp hc
  show pairingOf members = .samples ∨ pairingOf members = .unpaired
  unfold pairingOf
  split
  · exact Or.inr rfl
  · split
    · exact Or.inl rfl
    -- The category has a side among the real values.
    · next hnone =>
      obtain ⟨side, nan, -, -, -, -, rfl⟩ := Category.qualitative_ok hq
      exact absurd (List.any_eq_true.mpr ⟨_, hmem, rfl⟩) hnone

/-- Among the real values, the NaN of an ordinal is found where its category stands. -/
theorem exists_place_of_ordinal (hdeclared : ∀ c ∈ cs, Category.IsDeclared c)
    (hl : ofCategories token config cs = .ok l) (hsamples : l.pairing = .samples)
    (hc : l.categories[i]? = some c) (hq : Category.qualitative origin name samples n = .ok c) :
    ∃ p : Nat, l.converse.placed[p]? = some (c.converse, i) ∧ l.converse.categories[p]? = some c.converse
      ∧ l.converse.owner? (.ofOrdinal n.toNat) = some p := by
  have hordered := (sound_of_ofCategories hdeclared hl).2.ordered
  obtain ⟨p, hplaced, hconverse⟩ := exists_place hl hsamples hc
  obtain ⟨side, nan, -, -, hle, rfl, rfl⟩ := Category.qualitative_ok hq
  have hnan : (Binary64.ofOrdinal n.toNat).isNaN = true := Binary64.isNaN_ofOrdinal (by omega)
  -- The NaN keys the real side of the category, and no other side contains it.
  obtain ⟨s, hs, hlow⟩ : ∃ s, l.converse.table.sides[p]? = some s ∧ s.low = .ofOrdinal n.toNat := by
    refine ⟨.ofImages name (.ofOrdinal n.toNat) (.ofOrdinal n.toNat) none, ?_, rfl⟩
    rw [table, List.getElem?_map, hconverse]
    rfl
  have hcontains := SearchTable.Ordered.contains_low hlow
  refine ⟨p, hplaced, hconverse, hordered.owner?_eq_of_unique hs hcontains fun q b hb hbx => ?_⟩
  exact hordered.eq_of_contains (Binary64.isZero_of_isNaN hnan) hb hs hbx hcontains

/-- If the legend has real values, the NaN of an ordinal tells for which category it stands. -/
theorem eq_of_ofOrdinal_eq (hdeclared : ∀ c ∈ cs, Category.IsDeclared c)
    (hl : ofCategories token config cs = .ok l) (hsamples : l.pairing = .samples)
    (hc : l.categories[i]? = some c) (hd : l.categories[j]? = some d)
    (hm : Category.qualitative origin name samples m = .ok c)
    (hn : Category.qualitative origin' name' samples' n = .ok d)
    (hsame : Binary64.ofOrdinal m.toNat = .ofOrdinal n.toNat) : i = j := by
  obtain ⟨p, hplacedc, -, hp⟩ := exists_place_of_ordinal hdeclared hl hsamples hc hm
  obtain ⟨q, hplacedd, -, hq⟩ := exists_place_of_ordinal hdeclared hl hsamples hd hn
  -- One side among the real values stands for both categories.
  obtain rfl : p = q := by
    rw [hsame, hq] at hp
    exact (Option.some.inj hp).symm
  exact (Prod.mk.inj (Option.some.inj (hplacedc.symm.trans hplacedd))).2

/-- A sample of a qualitative category is converted to the NaN of its ordinal, and never refused. -/
theorem convert_of_qualitative (hdeclared : ∀ c ∈ cs, Category.IsDeclared c)
    (hbuilt : ∀ c ∈ cs, c.forward.IsBuilt) (hl : ofCategories token config cs = .ok l)
    (hc : l.categories[i]? = some c) (hq : Category.qualitative origin name samples n = .ok c)
    (howner : l.owner? x = some i) (hints : Hints) :
    ((l.convert x).run hints).1 = .ok (.ofOrdinal n.toNat) := by
  have hlbuilt : l.IsBuilt := .legend hdeclared hbuilt hl
  have hy : (c.forward.apply x).fresh = .ok (.ofOrdinal n.toNat) := by
    obtain ⟨side, nan, -, -, -, rfl, rfl⟩ := Category.qualitative_ok hq
    rfl
  rcases pairing_of_qualitative hl (List.mem_of_getElem? hc) hq with hsamples | hunpaired
  · obtain ⟨p, -, hconverse, hfound⟩ := exists_place_of_ordinal hdeclared hl hsamples hc hq
    have hleads : l.leadsBack c (.ofOrdinal n.toNat) = true :=
      leadsBack_iff.mpr ⟨p, _, hfound, hconverse, c.origin_converse⟩
    rw [convert_of_samples hlbuilt hsamples howner hc hy, if_neg fun h => h.2 hleads]
  · have hpaired : l.isPaired = false := by simp [isPaired, hunpaired]
    rw [convert_eq hlbuilt (by simp [hunpaired]) howner hc hy, hpaired]
    simp

/-- Samples of two qualitative categories are converted to NaNs, which differ if the ordinals do. They are the
same only in legends without real values. -/
theorem convert_qualitative_eq_iff (hdeclared : ∀ c ∈ cs, Category.IsDeclared c)
    (hbuilt : ∀ c ∈ cs, c.forward.IsBuilt) (hl : ofCategories token config cs = .ok l) (hij : i ≠ j)
    (hc : l.categories[i]? = some c) (hd : l.categories[j]? = some d)
    (hm : Category.qualitative origin name samples m = .ok c)
    (hn : Category.qualitative origin' name' samples' n = .ok d)
    (hx : l.owner? x = some i) (hy : l.owner? y = some j) :
    ∃ u v : Binary64, u.isNaN = true ∧ v.isNaN = true
      ∧ (∀ hints : Hints, ((l.convert x).run hints).1 = .ok u)
      ∧ (∀ hints : Hints, ((l.convert y).run hints).1 = .ok v)
      ∧ (u = v ↔ m = n) ∧ (u = v → l.pairing = .unpaired) := by
  obtain ⟨-, -, -, hmnonneg, hmle, -, -⟩ := Category.qualitative_ok hm
  obtain ⟨-, -, -, hnnonneg, hnle, -, -⟩ := Category.qualitative_ok hn
  refine ⟨.ofOrdinal m.toNat, .ofOrdinal n.toNat, Binary64.isNaN_ofOrdinal (by omega),
    Binary64.isNaN_ofOrdinal (by omega), convert_of_qualitative hdeclared hbuilt hl hc hm hx,
    convert_of_qualitative hdeclared hbuilt hl hd hn hy, ?_, fun hsame => ?_⟩
  · rw [Binary64.ofOrdinal_inj (by omega) (by omega)]
    omega
  · rcases pairing_of_qualitative hl (List.mem_of_getElem? hc) hm with hsamples | hunpaired
    · exact absurd (eq_of_ofOrdinal_eq hdeclared hl hsamples hc hd hm hn hsame) hij
    · exact hunpaired

end Qualitative

/-! ### Marks of clouds and land -/

section Marks

variable {token : Nat} {config : Config} {cs others : List (Category Transform)} {l : Legend Transform}
  {d : Category Transform} {m n : Int} {i : Nat}

/-- A key that tells the given categories apart tells which of them stands at a position. -/
theorem getElem?_categories_of_key {α : Type} {key : Category Transform → α}
    (hl : ofCategories token config cs = .ok l) (hplain : ∀ c ∈ cs, c.here.converted = false)
    (hnodup : (cs.map key).Nodup) (hd : d ∈ cs) (h : (l.categories[i]?).map key = some (key d)) :
    l.categories[i]? = some d := by
  obtain ⟨c, hc, hkey⟩ := Option.map_eq_some_iff.mp h
  obtain ⟨e, he, _, rfl⟩ := exists_of_mem_categories hl (List.mem_of_getElem? hc)
  rw [Category.asPlain_of_not_converted (hplain e he)] at hc hkey
  rw [hc, List.inj_on_of_nodup_map hnodup he hd hkey]

/-- Marks of clouds and of land with the given ordinals, beside other categories. -/
def markCategories (m n : Int) (others : List (Category Transform)) :
    Except Error (List (Category Transform)) := do
  let cloud ← Category.qualitative 3 "Cloud" (.number (.ofInt 254)) m
  let land ← Category.qualitative 4 "Land" (.number (.ofInt 255)) n
  return cloud :: land :: others

theorem of_markCategories (h : markCategories m n others = .ok cs) :
    ∃ cloud land, Category.qualitative 3 "Cloud" (.number (.ofInt 254)) m = .ok cloud
      ∧ Category.qualitative 4 "Land" (.number (.ofInt 255)) n = .ok land
      ∧ cs = cloud :: land :: others := by
  obtain ⟨cloud, hcloud, h⟩ := exists_of_bind_eq_ok h
  obtain ⟨land, hland, h⟩ := exists_of_bind_eq_ok h
  exact ⟨cloud, land, hcloud, hland, (Except.ok.inj h).symm⟩

/-- Beside depths, marks with the ordinals one and two are converted to different NaNs. -/
theorem convert_qualitative_eq_iff_marks : ∃ depths cs l cloud land u v,
    depthCategories = .ok depths ∧ markCategories 1 2 depths = .ok cs
    ∧ ofCategories 0 .default cs = .ok l ∧ l.pairing = .samples
    ∧ l.categories[2]? = some cloud ∧ l.categories[3]? = some land
    ∧ l.owner? (.ofInt 254) = some 2 ∧ l.owner? (.ofInt 255) = some 3
    ∧ u.isNaN = true ∧ v.isNaN = true
    ∧ (∀ hints : Hints, ((l.convert (.ofInt 254)).run hints).1 = .ok u)
    ∧ (∀ hints : Hints, ((l.convert (.ofInt 255)).run hints).1 = .ok v)
    ∧ (u = v ↔ (1 : Int) = 2) ∧ (u = v → l.pairing = .unpaired) := by
  have hpasses : passes 0 .default (depthCategories >>= markCategories 1 2) (fun cs l =>
      (cs.map sortKey).Nodup ∧ (∀ c ∈ cs, c.here.converted = false)
        ∧ (l.categories[2]?).map sortKey = (cs[0]?).map sortKey
        ∧ (l.categories[3]?).map sortKey = (cs[1]?).map sortKey ∧ l.pairing = .samples
        ∧ l.owner? (.ofInt 254) = some 2 ∧ l.owner? (.ofInt 255) = some 3) = true := by
    decide +kernel
  obtain ⟨cs, l, h, hl, hall⟩ := exists_of_passes hpasses
  obtain ⟨hnodup, hplain, hcloudAt, hlandAt, hsamples, hx, hy⟩ := of_decide_eq_true hall
  obtain ⟨depths, hdepths, hcs⟩ := exists_of_bind_eq_ok h
  obtain ⟨hdeclared, haffine⟩ := of_depthCategories hdepths
  obtain ⟨cloud, land, hcloud, hland, rfl⟩ := of_markCategories hcs
  have hc := getElem?_categories_of_key hl hplain hnodup (by simp) hcloudAt
  have hd := getElem?_categories_of_key hl hplain hnodup (by simp) hlandAt
  have hdeclaredAll : ∀ c ∈ cloud :: land :: depths, Category.IsDeclared c := by
    simpa using ⟨Category.IsDeclared.qualitative hcloud, Category.IsDeclared.qualitative hland, hdeclared⟩
  have hbuilt : ∀ c ∈ cloud :: land :: depths, c.forward.IsBuilt := by
    simpa using ⟨(Category.isAffine_of_qualitative hcloud).isBuilt,
      (Category.isAffine_of_qualitative hland).isBuilt, fun c hc => (haffine c hc).isBuilt⟩
  obtain ⟨u, v, hresult⟩ := convert_qualitative_eq_iff hdeclaredAll hbuilt hl (by decide) hc hd
    hcloud hland hx hy
  exact ⟨depths, _, l, cloud, land, u, v, hdepths, hcs, hl, hsamples, hc, hd, hx, hy, hresult⟩

/-- Alone, marks with the same ordinal make a legend, and their samples are converted to the same NaN. -/
theorem convert_sharedOrdinal : ∃ cs l cloud land, markCategories 1 1 [] = .ok cs
    ∧ (∀ c ∈ cs, Category.IsDeclared c) ∧ (∀ c ∈ cs, c.forward.IsBuilt)
    ∧ ofCategories 0 .default cs = .ok l
    ∧ l.categories[0]? = some cloud ∧ l.categories[1]? = some land
    ∧ Category.qualitative 3 "Cloud" (.number (.ofInt 254)) 1 = .ok cloud
    ∧ Category.qualitative 4 "Land" (.number (.ofInt 255)) 1 = .ok land ∧ cloud ≠ land
    ∧ l.owner? (.ofInt 254) = some 0 ∧ l.owner? (.ofInt 255) = some 1
    ∧ ((l.convert (.ofInt 254)).run .empty).1 = .ok (.ofOrdinal 1)
    ∧ ((l.convert (.ofInt 255)).run .empty).1 = .ok (.ofOrdinal 1) := by
  have hpasses : passes 0 .default (markCategories 1 1 []) (fun cs l =>
      (cs.map sortKey).Nodup ∧ (∀ c ∈ cs, c.here.converted = false)
        ∧ (l.categories[0]?).map sortKey = (cs[0]?).map sortKey
        ∧ (l.categories[1]?).map sortKey = (cs[1]?).map sortKey
        ∧ l.owner? (.ofInt 254) = some 0 ∧ l.owner? (.ofInt 255) = some 1
        ∧ ((l.convert (.ofInt 254)).run .empty).1 = .ok (.ofOrdinal 1)
        ∧ ((l.convert (.ofInt 255)).run .empty).1 = .ok (.ofOrdinal 1)) = true := by
    decide +kernel
  obtain ⟨cs, l, hcs, hl, hall⟩ := exists_of_passes hpasses
  obtain ⟨hnodup, hplain, hcloudAt, hlandAt, hfound⟩ := of_decide_eq_true hall
  obtain ⟨cloud, land, hcloud, hland, rfl⟩ := of_markCategories hcs
  have hc := getElem?_categories_of_key hl hplain hnodup (by simp) hcloudAt
  have hd := getElem?_categories_of_key hl hplain hnodup (by simp) hlandAt
  have hne : cloud ≠ land := by
    rintro rfl
    simp at hnodup
  refine ⟨_, l, cloud, land, hcs, ?_, ?_, hl, hc, hd, hcloud, hland, hne, hfound⟩
  · simpa using ⟨Category.IsDeclared.qualitative hcloud, Category.IsDeclared.qualitative hland⟩
  · simpa using ⟨(Category.isAffine_of_qualitative hcloud).isBuilt,
      (Category.isAffine_of_qualitative hland).isBuilt⟩

end Marks

end RasterCategories.Legend
