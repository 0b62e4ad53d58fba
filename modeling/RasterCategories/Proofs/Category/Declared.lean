import RasterCategories.Category.Declaration
import RasterCategories.Proofs.Binary64.Payload
import RasterCategories.Proofs.Interval.Membership
import RasterCategories.Proofs.Search.Hint
/-!
# Declared categories

The categories that legends take are declared, seen from the other domain, or taken as plain. Whichever way
one was made, the bounds of both its sides are in order or the same NaN twice, and its two conversions are
the inverses of each other.

* `Category.IsDeclared`: how categories are made.
* `Category.Sound`: what holds for all of them.
* `Category.IsDeclared.sound`: it holds for all of them.
* `Category.IsDeclared.original`: seen from the right domain, each of them converts samples.
-/

namespace RasterCategories

/-! ### Bounds -/

theorem Binary64.isFinite_one : Binary64.one.isFinite = true := by decide +kernel

namespace Side

variable {s : Side} {name : String} {samples : Samples} {low high : Binary64}

/-- The side of declared samples is not converted, and its bounds are in order or its NaN. -/
theorem of_ofSamples (h : ofSamples name samples = .ok s) : s.WellFormed ∧ s.converted = false := by
  -- A single NaN keys the side; all other samples are an interval, which must hold a number.
  unfold ofSamples at h
  split at h
  · next nan hkey =>
    obtain rfl := Except.ok.inj h
    refine ⟨.key ?_ rfl rfl, rfl⟩
    unfold Samples.key? at hkey
    split at hkey
    · split at hkey
      · next hnan => exact Option.some.inj hkey ▸ hnan
      · cases hkey
    · cases hkey
    · cases hkey
  · obtain ⟨r, -, hr⟩ := exists_of_bind_eq_ok h
    unfold ofInterval at hr
    split at hr
    · cases hr
    · next hempty =>
      obtain rfl := Except.ok.inj hr
      exact ⟨.interval (Interval.least_le_greatest (Bool.eq_false_iff.mpr hempty)) rfl, rfl⟩

theorem wellFormed_ofImages_interval {units : Option String} (h : low ≤ high) :
    (ofImages name low high units).WellFormed := by
  refine .interval h ?_
  simp [ofImages, h.1, Interval.ofBounds?, h]

theorem wellFormed_ofImages_key {units : Option String} (h : low.isNaN = true) :
    (ofImages name low low units).WellFormed := by
  refine .key h rfl ?_
  simp [ofImages, h]

end Side

/-! ### Categories -/

namespace Category

variable {c : Category Transform} {origin : Origin} {name : String} {samples : Samples}

/-- Seen from the other domain, the side in this domain is the other one. -/
theorem converseSide_converse (c : Category Transform) : c.converse.converseSide = c.here := by
  rw [← here_converse, converse_converse]

/-- How categories are made. -/
inductive IsDeclared : Category Transform → Prop
  /-- By the declaration of a qualitative category. -/
  | qualitative {origin : Origin} {name : String} {samples : Samples} {ordinal : Int} {c : Category Transform}
      (h : Category.qualitative origin name samples ordinal = .ok c) : IsDeclared c
  /-- By the declaration of a quantitative category. -/
  | quantitative {origin : Origin} {name : String} {samples : Samples} {transform : Option Transform}
      {units : Option String} {c : Category Transform}
      (h : Category.quantitative origin name samples transform units = .ok c) : IsDeclared c
  /-- As the converse of a category. -/
  | converse {c : Category Transform} (h : IsDeclared c) : IsDeclared c.converse
  /-- By taking a converted category as plain. -/
  | asPlain {origin : Origin} {c : Category Transform} (h : IsDeclared c) : IsDeclared (c.asPlain origin)

/-- What holds for the categories of legends: the bounds of their sides are well formed, exactly one of two
sides is converted, and the conversion of the samples is inverted by that of the real values. -/
structure Sound (c : Category Transform) : Prop where
  here : c.here.WellFormed
  there : ∀ s, c.there = some s → s.WellFormed ∧ s.converted = !c.here.converted
  single : c.there = none → c.here.converted = false
  inverse : if c.here.converted then c.back.inverse = .ok c.forward
    else c.forward.inverse = .ok c.back

namespace Sound

/-- A category that converts nothing is sound if its side is. -/
theorem plain {s : Side} (hs : s.WellFormed) (hconverted : s.converted = false) :
    (Category.plain origin s).Sound where
  here := hs
  there := by rintro _ ⟨⟩
  single _ := hconverted
  inverse := by simp only [Category.plain, hconverted, Bool.false_eq_true, if_false]; rfl

/-- The converse of a sound category is sound. -/
theorem converse (hc : c.Sound) : c.converse.Sound := by
  rcases c with ⟨origin, here, _ | there, forward, back⟩
  · exact hc
  -- The two sides change places, and with them which of the two conversions is the inverse.
  · obtain ⟨hthere, hconverted⟩ := hc.there there rfl
    refine ⟨hthere, ?_, by rintro ⟨⟩, ?_⟩
    · rintro s ⟨⟩
      exact ⟨hc.here, by simp [Category.converse, hconverted]⟩
    · have hinverse := hc.inverse
      simp only [Category.converse, hconverted] at hinverse ⊢
      cases hhere : here.converted <;> simp only [hhere] at hinverse ⊢ <;> exact hinverse

/-- A sound category taken as plain is sound. -/
theorem asPlain (hc : c.Sound) : (c.asPlain origin).Sound := by
  unfold Category.asPlain
  split
  · exact plain (hc.here.congr rfl rfl rfl) rfl
  · exact hc

/-- The side in the other domain is well formed. -/
theorem converseSide (hc : c.Sound) : c.converseSide.WellFormed := by
  rw [← here_converse]
  exact hc.converse.here

end Sound

/-- What a qualitative declaration needs and gives. -/
theorem qualitative_ok {ordinal : Int} (h : qualitative origin name samples ordinal = .ok c) :
    ∃ side nan, Side.ofSamples name samples = .ok side ∧ 0 ≤ ordinal ∧ ordinal ≤ maxOrdinal
      ∧ nan = Binary64.ofOrdinal ordinal.toNat
      ∧ c = ⟨origin, side, some (Side.ofImages name nan nan none), .constant nan side.low,
          .constant side.low nan⟩ := by
  obtain ⟨side, hside, h⟩ := exists_of_bind_eq_ok h
  obtain ⟨nan, hnan, h⟩ := exists_of_bind_eq_ok h
  obtain rfl := Except.ok.inj h
  unfold Binary64.checkedOfOrdinal at hnan
  split at hnan
  · next hrange => exact ⟨side, nan, hside, hrange.1, hrange.2, (Except.ok.inj hnan).symm, rfl⟩
  · cases hnan

/-- A qualitative category is sound. -/
theorem sound_of_qualitative {ordinal : Int} (h : qualitative origin name samples ordinal = .ok c) :
    c.Sound := by
  obtain ⟨side, nan, hside, -, hle, hnan, rfl⟩ := qualitative_ok h
  obtain ⟨hwf, hconverted⟩ := Side.of_ofSamples hside
  have hisNaN : nan.isNaN = true := hnan ▸ Binary64.isNaN_ofOrdinal (by omega)
  refine ⟨hwf, ?_, by rintro ⟨⟩, ?_⟩
  · rintro s ⟨⟩
    exact ⟨Side.wellFormed_ofImages_key hisNaN, by simp [Side.ofImages, hconverted]⟩
  · simp only [hconverted, Bool.false_eq_true, if_false]
    rfl

/-- What a conversion by a transform that is no identity needs and gives. -/
theorem convertedBy_ok {side : Side} {transform : Transform} {units : Option String}
    (h : convertedBy origin side transform units = .ok c) :
    ∃ first last back, side.interval.isSome = true
      ∧ (transform.apply side.low).fresh = .ok first
      ∧ (transform.apply side.high).fresh = .ok last
      ∧ first.isNaN = false ∧ last.isNaN = false ∧ transform.inverse = .ok back
      ∧ c = ⟨origin, side, some (Side.ofImages side.name (if last < first then last else first)
          (if last < first then first else last) units), transform, back⟩ := by
  unfold convertedBy at h
  dsimp only at h
  split at h
  · cases h
  · next hinterval =>
    obtain ⟨first, hfirst, h⟩ := exists_of_bind_eq_ok h
    obtain ⟨last, hlast, h⟩ := exists_of_bind_eq_ok h
    have hsome : side.interval.isSome = true := by
      cases hside : side.interval <;> simp_all
    -- A decreasing transform swaps the images of the bounds.
    by_cases hlt : last < first
    all_goals
      simp only [hlt, if_true, if_false] at h ⊢
      split at h
      · cases h
      · next hnan =>
        rw [Bool.or_eq_true, not_or, Bool.not_eq_true, Bool.not_eq_true] at hnan
        obtain ⟨back, hback, h⟩ := exists_of_bind_eq_ok h
        obtain rfl := Except.ok.inj h
        refine ⟨first, last, back, hsome, hfirst, hlast, ?_, ?_, hback, by simp [hlt]⟩
        exacts [by simp [hnan], by simp [hnan]]

/-- A category converted by a transform is sound. -/
theorem sound_of_convertedBy {side : Side} {transform : Transform} {units : Option String}
    (hside : side.WellFormed) (hconverted : side.converted = false)
    (h : convertedBy origin side transform units = .ok c) : c.Sound := by
  obtain ⟨first, last, back, -, -, -, hfirst, hlast, hback, rfl⟩ := convertedBy_ok h
  refine ⟨hside, ?_, by rintro ⟨⟩, ?_⟩
  · rintro s ⟨⟩
    refine ⟨Side.wellFormed_ofImages_interval ?_, by simp [Side.ofImages, hconverted]⟩
    split
    · next hlt => exact Binary64.le_of_lt hlt
    · next hlt => exact Binary64.le_of_not_lt hlast hfirst hlt
  · simp only [hconverted, Bool.false_eq_true, if_false]
    exact hback

/-- A quantitative category is sound. -/
theorem sound_of_quantitative {transform : Option Transform} {units : Option String}
    (h : quantitative origin name samples transform units = .ok c) : c.Sound := by
  obtain ⟨side, hside, h⟩ := exists_of_bind_eq_ok h
  obtain ⟨hwf, hconverted⟩ := Side.of_ofSamples hside
  split at h
  · obtain rfl := Except.ok.inj h
    exact Sound.plain (hwf.congr rfl rfl rfl) hconverted
  · exact sound_of_convertedBy hwf hconverted h

/-- A qualitative category converts to a constant. -/
theorem forward_of_qualitative {ordinal : Int} (h : qualitative origin name samples ordinal = .ok c) :
    ∃ value inverseValue, c.forward = .constant value inverseValue := by
  obtain ⟨side, nan, -, -, -, -, rfl⟩ := qualitative_ok h
  exact ⟨_, _, rfl⟩

/-- A quantitative category converts by the declared transform, or nothing at all. -/
theorem forward_of_quantitative {transform : Option Transform} {units : Option String}
    (h : quantitative origin name samples transform units = .ok c) :
    c.forward = .identity ∨ transform = some c.forward := by
  obtain ⟨side, -, h⟩ := exists_of_bind_eq_ok h
  split at h
  · obtain rfl := Except.ok.inj h
    exact Or.inl rfl
  · next t ht =>
    obtain ⟨_, _, _, -, -, -, -, -, -, rfl⟩ := convertedBy_ok h
    exact Or.inr (Option.filter_eq_some_iff.mp ht).1

/-- How the categories of samples come about. -/
inductive IsOriginal : Category Transform → Prop
  /-- A side is taken as it is. -/
  | plain {origin : Origin} {s : Side} (hs : s.WellFormed) (hconverted : s.converted = false) :
      IsOriginal (Category.plain origin s)
  /-- Samples are given an ordinal. -/
  | qualitative {origin : Origin} {name : String} {samples : Samples} {ordinal : Int} {c : Category Transform}
      (h : Category.qualitative origin name samples ordinal = .ok c) : IsOriginal c
  /-- A side is converted by a transform. -/
  | convertedBy {origin : Origin} {s : Side} {transform : Transform} {units : Option String} {c : Category Transform}
      (hs : s.WellFormed) (hconverted : s.converted = false)
      (h : Category.convertedBy origin s transform units = .ok c) : IsOriginal c

/-- A category of samples was not computed from another one. -/
theorem IsOriginal.not_converted (h : c.IsOriginal) : c.here.converted = false := by
  cases h with
  | plain _ hconverted => exact hconverted
  | qualitative h =>
    obtain ⟨side, nan, hside, -, -, -, rfl⟩ := qualitative_ok h
    exact (Side.of_ofSamples hside).2
  | convertedBy _ hconverted h =>
    obtain ⟨_, _, _, -, -, -, -, -, -, rfl⟩ := convertedBy_ok h
    exact hconverted

theorem isOriginal_of_quantitative {transform : Option Transform} {units : Option String}
    (h : quantitative origin name samples transform units = .ok c) : c.IsOriginal := by
  obtain ⟨side, hside, h⟩ := exists_of_bind_eq_ok h
  obtain ⟨hwf, hconverted⟩ := Side.of_ofSamples hside
  split at h
  · obtain rfl := Except.ok.inj h
    exact .plain (hwf.congr rfl rfl rfl) hconverted
  · exact .convertedBy hwf hconverted h

/-- Whichever way a category was made, it is sound. -/
theorem IsDeclared.sound (h : c.IsDeclared) : c.Sound := by
  induction h with
  | qualitative h => exact sound_of_qualitative h
  | quantitative h => exact sound_of_quantitative h
  | converse _ ih => exact ih.converse
  | asPlain _ ih => exact ih.asPlain

/-- In one of its two domains a declared category is one of samples. -/
theorem IsDeclared.original (h : c.IsDeclared) :
    if c.here.converted then c.converse.IsOriginal else c.IsOriginal := by
  induction h with
  | qualitative h =>
    have horiginal := IsOriginal.qualitative h
    rwa [horiginal.not_converted, if_neg Bool.false_ne_true]
  | quantitative h =>
    have horiginal := isOriginal_of_quantitative h
    rwa [horiginal.not_converted, if_neg Bool.false_ne_true]
  | @converse c h ih =>
    rcases hc : c with ⟨origin, here, _ | there, forward, back⟩
    · rwa [hc] at ih
    -- Exactly one of the two sides is converted, so the converse is taken once or twice.
    · have hflip := (h.sound.there there (by rw [hc])).2
      rw [converse_converse]
      rw [hc] at hflip ih
      show if there.converted then _ else _
      rw [hflip]
      cases hhere : here.converted <;> simpa [hhere] using ih
  | @asPlain _ c h ih =>
    cases hconverted : c.here.converted with
    | true =>
      simp only [Category.asPlain, hconverted, if_true]
      exact .plain (h.sound.here.congr rfl rfl rfl) rfl
    | false =>
      rw [asPlain_of_not_converted hconverted]
      exact ih

/-- A declared category taken as plain is one of samples. -/
theorem IsDeclared.original_asPlain (h : c.IsDeclared) : (c.asPlain origin).IsOriginal := by
  have hplain : (c.asPlain origin).IsDeclared := h.asPlain
  have horiginal := hplain.original
  have hconverted : (c.asPlain origin).here.converted = false := by
    unfold Category.asPlain
    split
    · rfl
    · next hconverted => exact Bool.eq_false_iff.mpr hconverted
  rwa [hconverted, if_neg Bool.false_ne_true] at horiginal

/-- A declared category that converts anything converts its samples by a transform that is no identity. -/
theorem IsDeclared.isIdentity_eq_false (h : c.IsDeclared) (hthere : c.there.isSome = true) :
    (if c.here.converted then c.back else c.forward).isIdentity = false := by
  induction h with
  | qualitative h =>
    have hplain := (IsOriginal.qualitative h).not_converted
    rw [hplain, if_neg Bool.false_ne_true]
    obtain ⟨side, nan, -, -, -, -, rfl⟩ := qualitative_ok h
    rfl
  | quantitative h =>
    have hplain := (isOriginal_of_quantitative h).not_converted
    rw [hplain, if_neg Bool.false_ne_true]
    obtain ⟨side, -, h⟩ := exists_of_bind_eq_ok h
    split at h
    · obtain rfl := Except.ok.inj h
      cases hthere
    -- A transform that is an identity was taken for none.
    · next t ht =>
      obtain ⟨_, _, _, -, -, -, -, -, -, rfl⟩ := convertedBy_ok h
      simpa using (Option.filter_eq_some_iff.mp ht).2
  | @converse c h ih =>
    rcases hc : c with ⟨origin, here, _ | there, forward, back⟩
    · rw [hc] at hthere
      cases hthere
    · have hflip := (h.sound.there there (by rw [hc])).2
      have hback := ih (by rw [hc]; rfl)
      rw [hc] at hflip hback
      show (if there.converted then forward else back).isIdentity = false
      rw [hflip]
      cases hhere : here.converted <;> simpa [hhere] using hback
  | @asPlain _ c h ih =>
    cases hconverted : c.here.converted with
    | true => simp [Category.asPlain, hconverted, plain] at hthere
    | false =>
      rw [asPlain_of_not_converted hconverted] at hthere ⊢
      exact ih hthere

end Category

end RasterCategories
