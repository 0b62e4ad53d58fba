import RasterCategories.Proofs.Conversion.Composition
import RasterCategories.Proofs.Conversion.Landing
import RasterCategories.Proofs.Legend.Matching
/-!
# Equal transforms convert alike

The equality test compares legends by what they show of their categories: names, bounds and conversions in the
domain in which they are seen. Equal transforms give the same results and fail alike, as long as the legends of
real values that stand at the same places in them are those of the same samples. If returns are verified, legends at
the same places must also agree in which of their entries are one and the same category: what one entry makes may
be found in the other.

* `Transform.BuiltUnder`: the transforms that are built under some settings.
* `Transform.SamePlace`: the legends that stand at the same place in two transforms.
* `Transform.Kindred`: transforms of which the parts correspond.
* `Transform.apply_eq_of_same`: equal transforms convert alike.
* `Transform.apply_ne_of_same`: equal legends that do not, for each thing that the test leaves out.
-/

namespace RasterCategories

namespace Transform

/-- How transforms are made, with all their legends under the same settings. The settings of a legend without
categories do not matter. -/
inductive BuiltUnder (config : Config) : Transform → Prop
  /-- The function `x`. -/
  | identity : BuiltUnder config .identity
  /-- A linear function. -/
  | linear (p : Linear) : BuiltUnder config (.linear p)
  /-- A constant. -/
  | constant (value inverseValue : Binary64) : BuiltUnder config (.constant value inverseValue)
  /-- A power. -/
  | exponential (p : Exponential) : BuiltUnder config (.exponential p)
  /-- A logarithm. -/
  | logarithmic (p : Logarithmic) : BuiltUnder config (.logarithmic p)
  /-- One transform after another. -/
  | chain {first second : Transform} (hfirst : BuiltUnder config first) (hsecond : BuiltUnder config second) :
      BuiltUnder config (.chain first second)
  /-- A legend, of either domain. -/
  | legend {l : Legend Transform} (hl : l.IsBuilt) (hconfig : l.categories ≠ [] → l.config = config)
      (hforward : ∀ c ∈ l.categories, BuiltUnder config c.forward) : BuiltUnder config (.legend l)

theorem BuiltUnder.isBuilt {config : Config} {t : Transform} (h : t.BuiltUnder config) : t.IsBuilt := by
  induction h with
  | identity => exact .identity
  | linear p => exact .linear p
  | constant v w => exact .constant v w
  | exponential p => exact .exponential p
  | logarithmic p => exact .logarithmic p
  | chain _ _ ihfirst ihsecond => exact .chain ihfirst ihsecond
  | legend hl => exact hl

/-- The legends that stand at the same place in two transforms. -/
inductive SamePlace : Transform → Transform → Legend Transform → Legend Transform → Prop
  /-- The transforms are these legends. -/
  | here {l m : Legend Transform} : SamePlace (.legend l) (.legend m) l m
  /-- The legends stand in the first parts of chains. -/
  | first {f f' s s' : Transform} {l m : Legend Transform} (h : SamePlace f f' l m) :
      SamePlace (.chain f s) (.chain f' s') l m
  /-- The legends stand in the second parts of chains. -/
  | second {f f' s s' : Transform} {l m : Legend Transform} (h : SamePlace s s' l m) :
      SamePlace (.chain f s) (.chain f' s') l m
  /-- The legends stand in the conversions of corresponding categories. -/
  | category {k k' l m : Legend Transform} {c d : Category Transform}
      (hcd : (c, d) ∈ k.categories.zip k'.categories) (h : SamePlace c.forward d.forward l m) :
      SamePlace (.legend k) (.legend k') l m

variable {config : Config} {t u : Transform}

/-- Legends are compared as transforms by their own test. -/
theorem same_legend (l m : Legend Transform) : (legend l).same (.legend m) = l.same m := by
  show (legendTests l).sameBy (fun test t => test t) m = l.same m
  simp only [legendTests_eq, Legend.same, Legend.sameBy, Legend.categories_map, List.length_map,
    List.zip_map_left, List.all_map]
  rfl

/-- Transforms of which the parts correspond. Legends at the same place verify returns alike, and agree in what the
equality test leaves out. -/
inductive Kindred : Transform → Transform → Prop
  /-- The transforms are one and the same. -/
  | refl (t : Transform) : Kindred t t
  /-- The parts of two chains correspond. -/
  | chain {f f' s s' : Transform} (hfirst : Kindred f f') (hsecond : Kindred s s') :
      Kindred (.chain f s) (.chain f' s')
  /-- The categories of two legends correspond. -/
  | legend {l m : Legend Transform} (hverify : l.categories ≠ [] → l.config.verifyReturn = m.config.verifyReturn)
      (hrest : l.Interchangeable m)
      (hforward : ∀ c d, (c, d) ∈ l.categories.zip m.categories → Kindred c.forward d.forward) :
      Kindred (.legend l) (.legend m)

/-- Equal transforms that correspond give the same results and fail alike, from no hints. -/
theorem Kindred.sameOutcome (h : Kindred t u) (ht : t.IsBuilt) (hu : u.IsBuilt) (hsame : t.same u = true)
    (x : Binary64) : SameOutcome (t.apply x).fresh (u.apply x).fresh := by
  induction h generalizing x with
  | refl t => exact .refl _
  | chain _ _ ihfirst ihsecond =>
    rw [same, Bool.and_eq_true] at hsame
    cases ht with
    | chain hf hs =>
      cases hu with
      | chain hf' hs' =>
        have hbind := (ihfirst hf hf' hsame.1 x).bind (ihsecond hs hs' hsame.2)
        rw [apply_chain, apply_chain]
        rwa [← run_apply_apply hf hs x .empty, ← run_apply_apply hf' hs' x .empty] at hbind
  | @legend l m hverify hrest _ ih =>
    have hl : l.IsBuilt := ht
    have hm : m.IsBuilt := hu
    rw [same_legend] at hsame
    have hmatches : Legend.Matches l m := ⟨hsame, fun c d hcd hequal y =>
      ih c d hcd (hl.forward c (List.of_mem_zip hcd).1) (hm.forward d (List.of_mem_zip hcd).2) hequal y⟩
    have hvalue := hmatches.pureValue hl hm hverify hrest x
    rw [apply_legend, apply_legend]
    rwa [← hl.run_convert .empty, ← hm.run_convert .empty] at hvalue

/-- Equal transforms correspond if they are built under the same settings and the legends at the same places in them
agree in what the equality test leaves out. -/
theorem BuiltUnder.kindred (ht : t.BuiltUnder config) (hu : u.BuiltUnder config) (hsame : t.same u = true)
    (hrest : ∀ l m, SamePlace t u l m → l.Interchangeable m) : Kindred t u := by
  -- The second transform follows the first one, part by part.
  induction ht generalizing u with
  | chain _ _ ihfirst ihsecond =>
    cases hu with
    | chain hfirst' hsecond' =>
      rw [same, Bool.and_eq_true] at hsame
      exact .chain (ihfirst hfirst' hsame.1 fun l m h => hrest l m (.first h))
        (ihsecond hsecond' hsame.2 fun l m h => hrest l m (.second h))
    | _ => simp [same] at hsame
  | @legend l hl hconfig hforward ih =>
    cases hu with
    | @legend m hm hconfig' hforward' =>
      rw [same_legend] at hsame
      obtain ⟨hlength, hequal⟩ := List.forall₂_iff_zip.mp (Legend.forall₂_of_same hsame)
      refine .legend (fun hne => ?_) (hrest l m .here) fun c d hcd => ?_
      · have hne' : m.categories ≠ [] := by
          rwa [← List.length_pos_iff_ne_nil, ← hlength, List.length_pos_iff_ne_nil]
        rw [hconfig hne, hconfig' hne']
      · obtain ⟨hc, hd⟩ := List.of_mem_zip hcd
        exact ih c hc (hforward' d hd) (Category.same_iff.mp (hequal hcd)).2.2.2
          fun l m h => hrest l m (.category hcd h)
    | _ => simp [same] at hsame
  | identity | linear | constant | exponential | logarithmic =>
    -- Without parts, a transform is equal only to one of its kind with its parameters.
    cases hu <;> simp_all [same]
    exact .refl _

/-- Equal transforms give the same results and fail alike, from no hints. -/
theorem sameOutcome_of_same (ht : t.BuiltUnder config) (hu : u.BuiltUnder config) (hsame : t.same u = true)
    (hrest : ∀ l m, SamePlace t u l m → l.Interchangeable m) (x : Binary64) :
    SameOutcome (t.apply x).fresh (u.apply x).fresh :=
  (ht.kindred hu hsame hrest).sameOutcome ht.isBuilt hu.isBuilt hsame x

/-! ### Affine categories -/

namespace IsAffine

theorem builtUnder (h : t.IsAffine) (config : Config) : t.BuiltUnder config := by
  cases h with
  | identity => exact .identity
  | linear p => exact .linear p
  | constant v w => exact .constant v w

/-- No legend is part of an affine transform. -/
theorem not_samePlace {l m : Legend Transform} (h : t.IsAffine) : ¬ SamePlace t u l m := by
  intro hplace
  cases h <;> cases hplace

/-- The inverse of an affine transform is affine. -/
theorem inverse (h : t.IsAffine) (hu : t.inverse = .ok u) : u.IsAffine := by
  cases h with
  | identity =>
    cases hu
    exact .identity
  | linear p =>
    rw [Transform.inverse] at hu
    cases hp : p.inverse with
    | error e => rw [hp] at hu; cases hu
    | ok q => rw [hp] at hu; cases hu; exact .linear q
  | constant v w =>
    cases hu
    exact .constant w v

end IsAffine

end Transform

namespace Legend

variable {l m : Legend Transform} {token token' : Nat} {config : Config}

/-- If the samples are converted by affine transforms, the real values are too. -/
theorem isAffine_converse (hl : l.IsBuilt) (hsamples : l.pairing = .samples)
    (haffine : ∀ c ∈ l.categories, c.forward.IsAffine) : ∀ c ∈ l.converse.categories, c.forward.IsAffine := by
  intro c hc
  obtain ⟨d, hd, rfl, horiginal⟩ := exists_original hl hsamples hc
  have hinverse := (hl.sound.categories d hd).inverse
  rw [horiginal.not_converted, if_neg Bool.false_ne_true] at hinverse
  have hforward := haffine d hd
  rcases d with ⟨origin, here, _ | there, forward, back⟩
  · exact hforward
  · exact hforward.inverse hinverse

/-- Legends of affine categories are built under their own settings. -/
theorem builtUnder_of_isAffine (hl : l.IsBuilt) (hconfig : l.config = config)
    (haffine : ∀ c ∈ l.categories, c.forward.IsAffine) : (Transform.legend l).BuiltUnder config :=
  .legend hl (fun _ => hconfig) fun c hc => (haffine c hc).builtUnder config

/-- The only legends at the same place in two legends of affine categories are these. -/
theorem eq_of_samePlace {k k' : Legend Transform} (haffine : ∀ c ∈ l.categories, c.forward.IsAffine)
    (h : Transform.SamePlace (.legend l) (.legend m) k k') : k = l ∧ k' = m := by
  cases h with
  | here => exact ⟨rfl, rfl⟩
  | category hcd hplace => exact absurd hplace (haffine _ (List.of_mem_zip hcd).1).not_samePlace

/-- Two lists of categories that make legends which pass a test together. -/
theorem exists_of_passes_passes {e e' : Except Error (List (Category Transform))}
    {test : Legend Transform → Legend Transform → Bool}
    (h : passes token config e (fun _ l => passes token' config e' fun _ m => test l m) = true) :
    ∃ cs ds l m, e = .ok cs ∧ e' = .ok ds ∧ ofCategories token config cs = .ok l
      ∧ ofCategories token' config ds = .ok m ∧ test l m = true := by
  obtain ⟨cs, l, hcs, hl, h⟩ := exists_of_passes h
  obtain ⟨ds, m, hds, hm, h⟩ := exists_of_passes h
  exact ⟨cs, ds, l, m, hcs, hds, hl, hm, h⟩

/-! ### Shifted depths -/

/-- A category that is converted by adding a number. -/
def shifted (origin : Origin) (name : String) (low high offset : Binary64) (units : Option String) :
    Except Error (Category Transform) := do
  let shift ← Transform.linearOrIdentity .one offset
  Category.quantitative origin name (.bounds [low, high]) (some shift) units

theorem of_shifted {origin : Origin} {name : String} {low high offset : Binary64} {units : Option String}
    {c : Category Transform} (h : shifted origin name low high offset units = .ok c) :
    c.IsDeclared ∧ c.forward.IsAffine := by
  obtain ⟨shift, hshift, h⟩ := exists_of_bind_eq_ok h
  refine ⟨.quantitative h, Category.isAffine_of_quantitative h ?_⟩
  rintro _ ⟨⟩
  exact Transform.isAffine_of_linearOrIdentity hshift

/-- The number `10 ^ 300`. -/
def distance : Binary64 := .ofPattern 0x7E37E43C8800759C

/-- Depths from zero to some limit, which are all converted to the same number. -/
def distantCategories (origin : Origin) (limit : Binary64) (units : Option String) :
    Except Error (List (Category Transform)) := do
  let depth ← shifted origin "Depth" .zero limit distance units
  return [depth]

theorem of_distantCategories {origin : Origin} {limit : Binary64} {units : Option String}
    {cs : List (Category Transform)} (h : distantCategories origin limit units = .ok cs) :
    (∀ c ∈ cs, Category.IsDeclared c) ∧ ∀ c ∈ cs, c.forward.IsAffine := by
  obtain ⟨depth, hdepth, h⟩ := exists_of_bind_eq_ok h
  obtain rfl := Except.ok.inj h
  simpa using of_shifted hdepth

/-- Two categories from positive zero to negative zero, in either order. -/
def twinCategories (swapped : Bool) : Except Error (List (Category Transform)) := do
  let ten ← shifted 1 "Ten" .zero .negZero .ten none
  let twenty ← shifted 2 "Twenty" .zero .negZero (.ofInt 20) none
  return if swapped then [twenty, ten] else [ten, twenty]

theorem of_twinCategories {swapped : Bool} {cs : List (Category Transform)}
    (h : twinCategories swapped = .ok cs) :
    (∀ c ∈ cs, Category.IsDeclared c) ∧ ∀ c ∈ cs, c.forward.IsAffine := by
  obtain ⟨ten, hten, h⟩ := exists_of_bind_eq_ok h
  obtain ⟨twenty, htwenty, h⟩ := exists_of_bind_eq_ok h
  obtain rfl := Except.ok.inj h
  have hten := of_shifted hten
  have htwenty := of_shifted htwenty
  cases swapped <;> simp [hten, htwenty]

/-- The function `x * 2 + -0`, which keeps both zeros. -/
def doubling : Linear where
  scale := .two
  offset := .negZero
  scale_ne_zero := metersOfPacked.scale_ne_zero
  scale_finite := metersOfPacked.scale_finite
  offset_finite := by decide +kernel

/-- A category from positive to negative zero, and two that are doubled, of which the second is listed or the first
one is listed again. -/
def doubledCategories (again : Bool) : Except Error (List (Category Transform)) := do
  let ten ← shifted 1 "Ten" .zero .negZero .ten none
  let first ← Category.quantitative 2 "Doubled" (.bounds [.zero, .negZero]) (some (.linear doubling)) none
  let second ← Category.quantitative 3 "Doubled" (.bounds [.zero, .negZero]) (some (.linear doubling)) none
  return [ten, first, if again then first else second]

theorem of_doubledCategories {again : Bool} {cs : List (Category Transform)}
    (h : doubledCategories again = .ok cs) :
    (∀ c ∈ cs, Category.IsDeclared c) ∧ ∀ c ∈ cs, c.forward.IsAffine := by
  obtain ⟨ten, hten, h⟩ := exists_of_bind_eq_ok h
  obtain ⟨first, hfirst, h⟩ := exists_of_bind_eq_ok h
  obtain ⟨second, hsecond, h⟩ := exists_of_bind_eq_ok h
  obtain rfl := Except.ok.inj h
  have hten := of_shifted hten
  have hdoubled : ∀ {origin : Origin} {c : Category Transform},
      Category.quantitative origin "Doubled" (.bounds [.zero, .negZero]) (some (.linear doubling)) none = .ok c →
        c.IsDeclared ∧ c.forward.IsAffine := fun h =>
    ⟨.quantitative h, Category.isAffine_of_quantitative h (by rintro _ ⟨⟩; exact .linear _)⟩
  cases again <;> simp [hten, hdoubled hfirst, hdoubled hsecond]

/-- A legend of affine categories is built under its settings. -/
theorem builtUnder_of_ofCategories {cs : List (Category Transform)} (hdeclared : ∀ c ∈ cs, Category.IsDeclared c)
    (haffine : ∀ c ∈ cs, c.forward.IsAffine) (hl : ofCategories token config cs = .ok l) :
    (Transform.legend l).BuiltUnder config :=
  builtUnder_of_isAffine (isBuilt_of_isAffine hdeclared haffine hl) (config_ofCategories hl)
    (isAffine_of_ofCategories haffine hl)

/-- The legend of the real values of affine categories is built under the settings of the samples. -/
theorem builtUnder_converse {cs : List (Category Transform)} (hdeclared : ∀ c ∈ cs, Category.IsDeclared c)
    (haffine : ∀ c ∈ cs, c.forward.IsAffine) (hl : ofCategories token config cs = .ok l)
    (hsamples : l.pairing = .samples) :
    (Transform.legend l.converse).BuiltUnder config ∧ ∀ c ∈ l.converse.categories, c.forward.IsAffine := by
  have hbuilt := isBuilt_of_isAffine hdeclared haffine hl
  have hreals := isAffine_converse hbuilt hsamples (isAffine_of_ofCategories haffine hl)
  have hconfig : l.converse.config = config := by
    rw [config_converse hsamples, config_ofCategories hl]
  exact ⟨builtUnder_of_isAffine hbuilt.converse hconfig hreals, hreals⟩

end Legend

namespace Transform

variable {config : Config} {t u : Transform}

/-! ### Single values -/

/-- Equal transforms give the same results and fail alike, provided that the legends which stand at the same places
in them agree in what the equality test leaves out: those of real values belong to the same samples, and if returns
are verified, a category that is converted is listed again at the same positions. -/
theorem apply_eq_of_same (ht : t.BuiltUnder config) (hu : u.BuiltUnder config) (hsame : t.same u = true)
    (hrest : ∀ l m, SamePlace t u l m → l.Interchangeable m) (x : Binary64) (hints other : Hints) :
    SameOutcome ((t.apply x).run hints).1 ((u.apply x).run other).1 := by
  rw [ht.isBuilt.run_apply, hu.isBuilt.run_apply]
  exact sameOutcome_of_same ht hu hsame hrest x

/-- The units of the real values make no difference, even if returns are verified. -/
theorem apply_eq_of_same_distant : ∃ cs ds l m, Legend.distantCategories 1 .one none = .ok cs
    ∧ Legend.distantCategories 2 .one (some "m") = .ok ds
    ∧ Legend.ofCategories 0 { verifyReturn := true } cs = .ok l
    ∧ Legend.ofCategories 3 { verifyReturn := true } ds = .ok m
    ∧ (legend l.converse).BuiltUnder { verifyReturn := true }
    ∧ (legend m.converse).BuiltUnder { verifyReturn := true }
    ∧ (legend l.converse).same (.legend m.converse) = true
    ∧ (∀ k k', SamePlace (.legend l.converse) (.legend m.converse) k k' → k.Interchangeable k')
    ∧ ∀ (x : Binary64) (hints other : Hints), SameOutcome (((legend l.converse).apply x).run hints).1
        (((legend m.converse).apply x).run other).1 := by
  have hpasses : Legend.passes 0 { verifyReturn := true } (Legend.distantCategories 1 .one none) (fun _ l =>
      Legend.passes 3 { verifyReturn := true } (Legend.distantCategories 2 .one (some "m")) fun _ m =>
        l.pairing = .samples ∧ m.pairing = .samples
          ∧ (legend l.converse).same (.legend m.converse) = true
          ∧ (l.converse.categories.map fun c => c.converseSide.bounds)
            = (m.converse.categories.map fun d => d.converseSide.bounds)
          ∧ l.converse.realOrder = m.converse.realOrder
          ∧ l.converse.sampleOrigins.Nodup ∧ m.converse.sampleOrigins.Nodup
          ∧ l.converse.sampleOrigins.length = m.converse.sampleOrigins.length) = true := by decide +kernel
  obtain ⟨cs, ds, l, m, hcs, hds, hl, hm, hall⟩ := Legend.exists_of_passes_passes hpasses
  obtain ⟨hlsamples, hmsamples, hsame, hbounds, horder, hlnodup, hmnodup, hlength⟩ := of_decide_eq_true hall
  obtain ⟨hldeclared, hlaffine⟩ := Legend.of_distantCategories hcs
  obtain ⟨hmdeclared, hmaffine⟩ := Legend.of_distantCategories hds
  obtain ⟨hlunder, hlreals⟩ := Legend.builtUnder_converse hldeclared hlaffine hl hlsamples
  obtain ⟨hmunder, -⟩ := Legend.builtUnder_converse hmdeclared hmaffine hm hmsamples
  have hrest : ∀ k k', SamePlace (.legend l.converse) (.legend m.converse) k k' → k.Interchangeable k' := by
    intro k k' hplace
    obtain ⟨rfl, rfl⟩ := Legend.eq_of_samePlace hlreals hplace
    exact ⟨fun _ => ⟨hbounds, fun _ => horder⟩,
      fun _ _ => Legend.sameRepeats_of_nodup hlnodup hmnodup hlength⟩
  exact ⟨cs, ds, l, m, hcs, hds, hl, hm, hlunder, hmunder, hsame, hrest,
    apply_eq_of_same hlunder hmunder hsame hrest⟩

/-- Legends that are equal but convert differently. In the first pair of legends of real values the samples end at
one and at two, and confine the same result to these bounds. In the second pair the samples are the same, in another
order, and only one of the legends leads back to the category that it came from. In the pair of legends of samples
the last two entries are one category or two, and what the first of them makes is found in the second. -/
theorem apply_ne_of_same :
    (∃ cs ds l m, Legend.distantCategories 1 .one none = .ok cs ∧ Legend.distantCategories 2 .two none = .ok ds
      ∧ Legend.ofCategories 0 .default cs = .ok l ∧ Legend.ofCategories 3 .default ds = .ok m
      ∧ (legend l.converse).BuiltUnder .default ∧ (legend m.converse).BuiltUnder .default
      ∧ (legend l.converse).same (.legend m.converse) = true
      ∧ (((legend l.converse).apply (Legend.distance + Legend.distance)).run .empty).1 = .ok .one
      ∧ (((legend m.converse).apply (Legend.distance + Legend.distance)).run .empty).1 = .ok .two)
    ∧ (∃ cs ds l m s, Legend.twinCategories false = .ok cs ∧ Legend.twinCategories true = .ok ds
      ∧ Legend.ofCategories 0 { verifyReturn := true } cs = .ok l
      ∧ Legend.ofCategories 3 { verifyReturn := true } ds = .ok m
      ∧ (legend l.converse).BuiltUnder { verifyReturn := true }
      ∧ (legend m.converse).BuiltUnder { verifyReturn := true }
      ∧ (legend l.converse).same (.legend m.converse) = true
      ∧ (((legend l.converse).apply .ten).run .empty).1 = .ok .zero
      ∧ (((legend m.converse).apply .ten).run .empty).1 = .error (.notReversible .ten .zero s))
    ∧ ∃ cs ds l m s, Legend.doubledCategories true = .ok cs ∧ Legend.doubledCategories false = .ok ds
      ∧ Legend.ofCategories 0 { verifyReturn := true } cs = .ok l
      ∧ Legend.ofCategories 4 { verifyReturn := true } ds = .ok m
      ∧ (legend l).BuiltUnder { verifyReturn := true } ∧ (legend m).BuiltUnder { verifyReturn := true }
      ∧ (legend l).same (.legend m) = true
      ∧ (((legend l).apply .zero).run .empty).1 = .ok .zero
      ∧ (((legend m).apply .zero).run .empty).1 = .error (.notReversible .zero .zero s) := by
  refine ⟨?_, ?_, ?_⟩
  · have hpasses : Legend.passes 0 .default (Legend.distantCategories 1 .one none) (fun _ l =>
        Legend.passes 3 .default (Legend.distantCategories 2 .two none) fun _ m =>
          l.pairing = .samples ∧ m.pairing = .samples
            ∧ (legend l.converse).same (.legend m.converse) = true
            ∧ (((legend l.converse).apply (Legend.distance + Legend.distance)).run .empty).1 = .ok .one
            ∧ (((legend m.converse).apply (Legend.distance + Legend.distance)).run .empty).1 = .ok .two) = true := by
      decide +kernel
    obtain ⟨cs, ds, l, m, hcs, hds, hl, hm, hall⟩ := Legend.exists_of_passes_passes hpasses
    obtain ⟨hlsamples, hmsamples, hresult⟩ := of_decide_eq_true hall
    obtain ⟨hldeclared, hlaffine⟩ := Legend.of_distantCategories hcs
    obtain ⟨hmdeclared, hmaffine⟩ := Legend.of_distantCategories hds
    exact ⟨cs, ds, l, m, hcs, hds, hl, hm, (Legend.builtUnder_converse hldeclared hlaffine hl hlsamples).1,
      (Legend.builtUnder_converse hmdeclared hmaffine hm hmsamples).1, hresult⟩
  · have hpasses : Legend.passes 0 { verifyReturn := true } (Legend.twinCategories false) (fun _ l =>
        Legend.passes 3 { verifyReturn := true } (Legend.twinCategories true) fun _ m =>
          l.pairing = .samples ∧ m.pairing = .samples
            ∧ (legend l.converse).same (.legend m.converse) = true
            ∧ (((legend l.converse).apply .ten).run .empty).1 = .ok .zero
            ∧ (m.converse.categories[0]?).any fun c =>
              (((legend m.converse).apply .ten).run .empty).1 = .error (.notReversible .ten .zero c.here)) = true := by
      decide +kernel
    obtain ⟨cs, ds, l, m, hcs, hds, hl, hm, hall⟩ := Legend.exists_of_passes_passes hpasses
    obtain ⟨hlsamples, hmsamples, hsame, haccepted, hrefused⟩ := of_decide_eq_true hall
    obtain ⟨c, -, hrefused⟩ := (Option.any_eq_true _ _).mp hrefused
    obtain ⟨hldeclared, hlaffine⟩ := Legend.of_twinCategories hcs
    obtain ⟨hmdeclared, hmaffine⟩ := Legend.of_twinCategories hds
    exact ⟨cs, ds, l, m, c.here, hcs, hds, hl, hm,
      (Legend.builtUnder_converse hldeclared hlaffine hl hlsamples).1,
      (Legend.builtUnder_converse hmdeclared hmaffine hm hmsamples).1, hsame, haccepted,
      of_decide_eq_true hrefused⟩
  · have hpasses : Legend.passes 0 { verifyReturn := true } (Legend.doubledCategories true) (fun _ l =>
        Legend.passes 4 { verifyReturn := true } (Legend.doubledCategories false) fun _ m =>
          (legend l).same (.legend m) = true ∧ (((legend l).apply .zero).run .empty).1 = .ok .zero
            ∧ (m.categories[1]?).any fun c =>
              (((legend m).apply .zero).run .empty).1 = .error (.notReversible .zero .zero c.here)) = true := by
      decide +kernel
    obtain ⟨cs, ds, l, m, hcs, hds, hl, hm, hall⟩ := Legend.exists_of_passes_passes hpasses
    obtain ⟨hsame, haccepted, hrefused⟩ := of_decide_eq_true hall
    obtain ⟨c, -, hrefused⟩ := (Option.any_eq_true _ _).mp hrefused
    obtain ⟨hldeclared, hlaffine⟩ := Legend.of_doubledCategories hcs
    obtain ⟨hmdeclared, hmaffine⟩ := Legend.of_doubledCategories hds
    exact ⟨cs, ds, l, m, c.here, hcs, hds, hl, hm, Legend.builtUnder_of_ofCategories hldeclared hlaffine hl,
      Legend.builtUnder_of_ofCategories hmdeclared hmaffine hm, hsame, haccepted, of_decide_eq_true hrefused⟩

end Transform

end RasterCategories
