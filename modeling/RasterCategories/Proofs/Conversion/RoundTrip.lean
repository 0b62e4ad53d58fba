import RasterCategories.Proofs.Conversion.Failure
import RasterCategories.Proofs.Conversion.Ordinals
/-!
# Marks travel to the real values and back

A sample of a qualitative category is a mark. It becomes the NaN of an ordinal, which keeps its bits where it is
stored at half the width. Among the real values that NaN is found in the converse of its category, and it is
converted back to the least sample. Arrays take the same way, except that positive zero is located at the last
of several categories that start at it.

* `Legend.Stores`: what a legend writes for a value, whatever else a window holds.
* `Legend.RoundTrip`: the way of a value to the real values and back.
* `Legend.roundTrip_of_qualitative`: every sample of a qualitative category takes it.
* `Legend.convertInto_startingTwice`: a mark that an array takes for a depth.
-/

namespace RasterCategories

namespace Category

variable {c : Category Transform} {origin : Origin} {name : String} {samples : Samples} {n : Int}

/-- The conversions of a qualitative category are constant: to the NaN of the ordinal, and to the least
sample. -/
theorem constant_of_qualitative (h : qualitative origin name samples n = .ok c) : n.toNat ≤ maxOrdinal
    ∧ c.forward = .constant (.ofOrdinal n.toNat) c.here.low
    ∧ c.converse.forward = .constant c.here.low (.ofOrdinal n.toNat) := by
  obtain ⟨side, nan, -, -, hle, rfl, rfl⟩ := qualitative_ok h
  exact ⟨by omega, rfl, rfl⟩

end Category

/-- A constant is converted to value by value, and refuses nothing. -/
theorem Transform.pointwise_constant (v w : Binary64) :
    (constant v w).behaviour.Pointwise .double ∧ (constant v w).Total := by
  refine ⟨?_, total_of_isFunction (.constant v w) rfl⟩
  rw [behaviour]
  exact .ofFunction _ _

namespace Legend

/-! ### Values in arrays -/

/-- What a legend writes for a value, from any hints. -/
structure Stores (l : Legend Transform) (x y : Binary64) : Prop where
  /-- In each window that is converted, the cell of the value holds the result at the width of the array. -/
  cell : ∀ {source : Elements} {target : Target} {w : Window} {b : Transfer} {after : Cells} {k : Nat}
    (hints : Hints), target.Holds source → Transfer.plan source target w = .ok b →
    ((l.convertInto source target w).run hints).1 = (.ok (), after) → b.samples[k]? = some x →
    after.cell? (b.target + k) = some (Cell.toWidth target.memory.width (.double y))
  /-- A window that holds no other values is converted. -/
  alone : ∀ {source : Elements} {target : Target} {w : Window} {b : Transfer} (hints : Hints),
    target.Holds source → Transfer.plan source target w = .ok b → (∀ z ∈ b.samples, z = x) →
    ∃ after, ((l.convertInto source target w).run hints).1 = (.ok (), after)

section Located

variable {l : Legend Transform} {c : Category Transform} {x y : Binary64} {i : Nat}

/-- What is written for a value that is located at a category which converts arrays value by value. -/
theorem stores_of_located (hl : l.IsBuilt) (hlocate : l.table.locate x = i)
    (hc : l.categories[i]? = some c) (hpointwise : c.forward.behaviour.Pointwise .double)
    (htotal : c.forward.Total) (hy : (c.forward.apply x).fresh = .ok y) :
    l.Stores x (l.active.settle (c.map Transform.behaviour) y) := by
  have hactive := getElem?_active hc
  rw [← table_map Transform.behaviour l] at hlocate
  refine ⟨fun hints hholds hplan h hx => ?_, fun {source target w b} hints hholds hplan hall => ?_⟩
  · rw [hl.run_convertInto] at h
    obtain ⟨b', runs, hplan', hruns, hwritten⟩ := written_of_pureInto hl.active_keepsLength hholds h
    obtain rfl := Except.ok.inj (hplan.symm.trans hplan')
    have hwf := (hl.sound.categories c (List.mem_of_getElem? hc)).converseSide
    exact cell_of_written hwritten hruns hx hlocate hactive hwf hpointwise hy
  · obtain ⟨after, hafter⟩ := pureInto_of_total hl.active_keepsLength hholds hplan fun z hz => by
      obtain rfl := hall z hz
      exact ⟨i, _, hlocate, hactive, htotal⟩
    exact ⟨after, (hl.run_convertInto hints).trans hafter⟩

end Located

/-! ### The way of a mark -/

/-- The way of a sample of a category to a real value and back, from any hints. -/
structure RoundTrip (l : Legend Transform) (i : Nat) (c : Category Transform) (x y : Binary64) : Prop where
  /-- The real value keeps its bits where it is stored at half the width. -/
  narrow : y.narrow.widen = y
  /-- The sample is converted to the real value. -/
  there : ∀ hints : Hints, ((l.convert x).run hints).1 = .ok y
  /-- So it is in arrays, unless a later category starts at the bits of the sample. -/
  stored : (∀ j, i < j → l.table.lows[j]? ≠ some x) → l.Stores x y
  /-- The real value is found in the converse of the category. -/
  found : ∃ p : Nat, l.converse.placed[p]? = some (c.converse, i)
    ∧ l.converse.categories[p]? = some c.converse ∧ l.converse.owner? y = some p
  /-- It is converted to the least sample of the category. -/
  back : ∀ hints : Hints, ((l.converse.convert y).run hints).1 = .ok c.here.low
  /-- So it is in arrays. -/
  storedBack : l.converse.Stores y c.here.low

section Qualitative

variable {token : Nat} {config : Config} {cs : List (Category Transform)} {l : Legend Transform}
  {c : Category Transform} {origin : Origin} {name : String} {samples : Samples} {n : Int} {x : Binary64} {i : Nat}

/-- Legends of samples confine nothing. -/
theorem settle_of_samples (hsamples : l.pairing = .samples) (d : Category Behaviour) (y : Binary64) :
    l.active.settle d y = y := by
  have htable : l.active.table = l.table := table_map _ _
  rw [settle, htable]
  simp [table, SearchTable.top?, hsamples]

/-- Every sample of a qualitative category takes the way to the NaN of its ordinal and back. -/
theorem roundTrip_of_qualitative (hdeclared : ∀ c ∈ cs, Category.IsDeclared c)
    (hbuilt : ∀ c ∈ cs, c.forward.IsBuilt) (hl : ofCategories token config cs = .ok l)
    (hsamples : l.pairing = .samples) (hverify : l.config.verifyReturn = false)
    (hc : l.categories[i]? = some c) (hq : Category.qualitative origin name samples n = .ok c)
    (howner : l.owner? x = some i) : l.RoundTrip i c x (.ofOrdinal n.toNat) := by
  have hlbuilt : l.IsBuilt := .legend hdeclared hbuilt hl
  obtain ⟨hsound, hsound'⟩ := sound_of_ofCategories hdeclared hl
  obtain ⟨p, hplaced, hconverse, hfound⟩ := exists_place_of_ordinal hdeclared hl hsamples hc hq
  have hverify' : l.converse.config.verifyReturn = false := by
    rw [config_converse hsamples]
    exact hverify
  obtain ⟨hordinal, hforward, hback⟩ := Category.constant_of_qualitative hq
  have hthere := fun hints => convert_of_qualitative hdeclared hbuilt hl hc hq howner hints
  have hy : (c.forward.apply x).fresh = .ok (.ofOrdinal n.toNat) := by
    rw [hforward]
    rfl
  have hx : (c.converse.forward.apply (.ofOrdinal n.toNat)).fresh = .ok c.here.low := by
    rw [hback]
    rfl
  -- Confining the least sample to the samples keeps it.
  have hsettle : l.converse.active.settle (c.converse.map Transform.behaviour) c.here.low = c.here.low := by
    unfold settle
    split
    · show c.converse.converseSide.confine c.here.low = c.here.low
      rw [Category.converseSide_converse]
      exact Side.confine_low (hsound.categories c (List.mem_of_getElem? hc)).here
    · rfl
  refine ⟨Binary64.widen_narrow_ofOrdinal hordinal, hthere, fun hlast => ?_, ⟨p, hplaced, hconverse, hfound⟩,
    fun hints => ?_, ?_⟩
  · have hlocate := ((hsound.ordered.locates_locate x).same i howner).mpr hlast
    have hconstant := Transform.pointwise_constant (.ofOrdinal n.toNat) c.here.low
    rw [← hforward] at hconstant
    have hstores := stores_of_located hlbuilt hlocate hc hconstant.1 hconstant.2 hy
    rwa [settle_of_samples hsamples] at hstores
  · rw [hlbuilt.converse.convert_of_unverified hverify' hfound hconverse hx hints, hsettle]
  -- A NaN is the least value of one side at most, so both searches agree on it.
  · have honce := hsound'.ordered.leastOnce_of_isNaN (Binary64.isNaN_ofOrdinal hordinal)
    have hlocate := (hsound'.ordered.locate_eq_iff honce).mpr hfound
    have hconstant := Transform.pointwise_constant c.here.low (.ofOrdinal n.toNat)
    rw [← hback] at hconstant
    have hstores := stores_of_located hlbuilt.converse hlocate hconverse hconstant.1 hconstant.2 hx
    rwa [hsettle] at hstores

/-- The mark of land takes the way to a real value and back. -/
theorem roundTrip_of_qualitative_depths : ∃ cs l land, depthCategories = .ok cs
    ∧ ofCategories 0 .default cs = .ok l ∧ l.pairing = .samples ∧ l.config.verifyReturn = false
    ∧ l.categories[0]? = some land ∧ Category.qualitative 1 "Land" (.number .zero) 0 = .ok land
    ∧ l.owner? .zero = some 0 ∧ (∀ j, 0 < j → l.table.lows[j]? ≠ some .zero)
    ∧ l.RoundTrip 0 land .zero (.ofOrdinal 0) := by
  have hpasses : passes 0 .default depthCategories (fun cs l =>
      (cs.map sortKey).Nodup ∧ (∀ c ∈ cs, c.here.converted = false)
        ∧ (l.categories[0]?).map sortKey = (cs[0]?).map sortKey ∧ l.pairing = .samples
        ∧ l.config.verifyReturn = false ∧ l.owner? .zero = some 0 ∧ l.table.lows = [.zero, .one]) = true := by
    decide +kernel
  obtain ⟨cs, l, hcs, hl, hall⟩ := exists_of_passes hpasses
  obtain ⟨hnodup, hplain, hat, hsamples, hverify, howner, hlows⟩ := of_decide_eq_true hall
  obtain ⟨hdeclared, haffine⟩ := of_depthCategories hcs
  have hbuilt := fun c hc => (haffine c hc).isBuilt
  obtain ⟨land, hland, h⟩ := exists_of_bind_eq_ok hcs
  obtain ⟨depth, hdepth, h⟩ := exists_of_bind_eq_ok h
  obtain rfl := Except.ok.inj h
  have hc := getElem?_categories_of_key hl hplain hnodup (by simp) hat
  have hlast : ∀ j, 0 < j → l.table.lows[j]? ≠ some .zero := by
    intro j hj hzero
    rw [hlows] at hzero
    rcases j with _ | _ | j
    · exact absurd hj (lt_irrefl 0)
    · exact absurd (Option.some.inj hzero) (by decide)
    · cases hzero
  exact ⟨_, l, land, hcs, hl, hsamples, hverify, hc, hland, howner, hlast,
    roundTrip_of_qualitative hdeclared hbuilt hl hsamples hverify hc hland howner⟩

/-- A mark from positive to negative zero, and depths that start at positive zero again. -/
def fillCategories : Except Error (List (Category Transform)) := do
  let fill ← Category.qualitative 1 "Fill" (.bounds [.zero, .negZero]) 0
  let depth ← Category.quantitative 2 "Depth" (.bounds [.zero, .ofInt 5]) (some (.linear metersOfPacked)) none
  return [fill, depth]

/-- Positive zero alone is found in the mark, and becomes a NaN. In an array it is taken for a depth. -/
theorem convertInto_startingTwice : ∃ cs l fill, fillCategories = .ok cs
    ∧ (∀ c ∈ cs, Category.IsDeclared c) ∧ (∀ c ∈ cs, c.forward.IsBuilt)
    ∧ ofCategories 0 .default cs = .ok l ∧ l.pairing = .samples ∧ l.config.verifyReturn = false
    ∧ l.categories[0]? = some fill ∧ Category.qualitative 1 "Fill" (.bounds [.zero, .negZero]) 0 = .ok fill
    ∧ l.owner? .zero = some 0 ∧ ((l.convert .zero).run .empty).1 = .ok (.ofOrdinal 0)
    ∧ ((l.convertInto (.real (.double [.zero])) ⟨.zeros .double 1, 0, 1, false, none⟩ .whole).run
        .empty).1 = (.ok (), .double [.one]) := by
  have hpasses : passes 0 .default fillCategories (fun cs l =>
      (cs.map fun c => c.here.high).Nodup ∧ (∀ c ∈ cs, c.here.converted = false)
        ∧ (l.categories[0]?).map (fun c => c.here.high) = (cs[0]?).map (fun c => c.here.high)
        ∧ l.pairing = .samples ∧ l.config.verifyReturn = false ∧ l.owner? .zero = some 0
        ∧ ((l.convert .zero).run .empty).1 = .ok (.ofOrdinal 0)
        ∧ ((l.convertInto (.real (.double [.zero])) ⟨.zeros .double 1, 0, 1, false, none⟩ .whole).run
            .empty).1 = (.ok (), .double [.one])) = true := by decide +kernel
  obtain ⟨cs, l, hcs, hl, hall⟩ := exists_of_passes hpasses
  obtain ⟨hnodup, hplain, hat, hsamples, hverify, hfound⟩ := of_decide_eq_true hall
  obtain ⟨fill, hfill, h⟩ := exists_of_bind_eq_ok hcs
  obtain ⟨depth, hdepth, h⟩ := exists_of_bind_eq_ok h
  obtain rfl := Except.ok.inj h
  have hc := getElem?_categories_of_key hl hplain hnodup (by simp) hat
  have hdeclared : ∀ c ∈ [fill, depth], Category.IsDeclared c := by
    simpa using ⟨Category.IsDeclared.qualitative hfill, Category.IsDeclared.quantitative hdepth⟩
  have hbuilt : ∀ c ∈ [fill, depth], c.forward.IsBuilt := by
    simpa using ⟨(Category.isAffine_of_qualitative hfill).isBuilt,
      (Category.isAffine_of_quantitative hdepth (by rintro _ ⟨⟩; exact .linear _)).isBuilt⟩
  exact ⟨_, l, fill, hcs, hdeclared, hbuilt, hl, hsamples, hverify, hc, hfill, hfound⟩

end Qualitative

end Legend

end RasterCategories
