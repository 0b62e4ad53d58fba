import RasterCategories.Legend.Conversion
import RasterCategories.Proofs.Category.Declared
/-!
# Built legends

A legend is built from declared categories, whose transforms may be legends that were built before, or seen
from the other domain. Its search table is ordered in both domains: the construction compares neighbours
only, and well formed bounds carry the order from neighbour to neighbour.

* `Transform.IsBuilt` and `Legend.IsBuilt`: how transforms and legends are made.
* `Legend.Sound`: what holds for built legends.
* `Transform.IsBuilt.induct`: induction on built transforms, where a legend is reached from the transforms
  of its categories in the domain in which it is seen.
-/

namespace RasterCategories

/-- How transforms are made. A legend is made from categories, or is the converse of a legend. -/
inductive Transform.IsBuilt : Transform → Prop
  /-- The function `x`. -/
  | identity : IsBuilt .identity
  /-- A linear function. -/
  | linear (p : Linear) : IsBuilt (.linear p)
  /-- A constant. -/
  | constant (value inverseValue : Binary64) : IsBuilt (.constant value inverseValue)
  /-- A power. -/
  | exponential (p : Exponential) : IsBuilt (.exponential p)
  /-- A logarithm. -/
  | logarithmic (p : Logarithmic) : IsBuilt (.logarithmic p)
  /-- One transform after another. -/
  | chain {first second : Transform} (hfirst : IsBuilt first) (hsecond : IsBuilt second) :
      IsBuilt (.chain first second)
  /-- A transform that a caller supplies. -/
  | supplied {mark : Mark} {like : Transform} (h : IsBuilt like) : IsBuilt (.supplied mark like)
  /-- A legend of declared categories. -/
  | legend {token : Nat} {config : Config} {cs : List (Category Transform)} {l : Legend Transform}
      (hdeclared : ∀ c ∈ cs, Category.IsDeclared c) (hbuilt : ∀ c ∈ cs, IsBuilt c.forward)
      (hl : Legend.ofCategories token config cs = .ok l) : IsBuilt (.legend l)
  /-- A legend seen from the other domain. -/
  | converse {l : Legend Transform} (h : IsBuilt (.legend l)) : IsBuilt (.legend l.converse)

/-- The transforms of qualitative categories, and of measurements that are converted by a scale and an offset
or not at all. -/
inductive Transform.IsAffine : Transform → Prop
  /-- The function `x`. -/
  | identity : IsAffine .identity
  /-- A linear function. -/
  | linear (p : Linear) : IsAffine (.linear p)
  /-- A constant. -/
  | constant (value inverseValue : Binary64) : IsAffine (.constant value inverseValue)

theorem Transform.IsAffine.isBuilt {t : Transform} (h : t.IsAffine) : t.IsBuilt := by
  cases h with
  | identity => exact .identity
  | linear p => exact .linear p
  | constant v w => exact .constant v w

/-- A scale and an offset make an affine transform. -/
theorem Transform.isAffine_of_linearOrIdentity {scale offset : Binary64} {t : Transform}
    (h : Transform.linearOrIdentity scale offset = .ok t) : t.IsAffine := by
  unfold Transform.linearOrIdentity at h
  split at h
  · obtain rfl := Except.ok.inj h
    exact .identity
  · cases hp : Linear.of scale offset with
    | error e => rw [hp] at h; cases h
    | ok p => rw [hp] at h; cases h; exact .linear p

namespace Category

variable {c : Category Transform} {origin : Origin} {name : String} {samples : Samples}

theorem isAffine_of_qualitative {ordinal : Int} (h : qualitative origin name samples ordinal = .ok c) :
    c.forward.IsAffine := by
  obtain ⟨v, w, hforward⟩ := forward_of_qualitative h
  rw [hforward]
  exact .constant v w

theorem isAffine_of_quantitative {transform : Option Transform} {units : Option String}
    (h : quantitative origin name samples transform units = .ok c)
    (ht : ∀ t, transform = some t → t.IsAffine) : c.forward.IsAffine := by
  rcases forward_of_quantitative h with hidentity | hforward
  · rw [hidentity]
    exact .identity
  · exact ht _ hforward

/-- A quantitative category converts by a built transform if the declared one is. -/
theorem isBuilt_of_quantitative {transform : Transform} {units : Option String}
    (h : quantitative origin name samples (some transform) units = .ok c) (ht : transform.IsBuilt) :
    c.forward.IsBuilt := by
  rcases forward_of_quantitative h with hidentity | hforward
  · rw [hidentity]
    exact .identity
  · rw [← Option.some.inj hforward]
    exact ht

theorem isAffine_asPlain (h : c.forward.IsAffine) : (c.asPlain origin).forward.IsAffine := by
  unfold asPlain
  split
  · exact .identity
  · exact h

end Category

namespace Legend

variable {l : Legend Transform} {c : Category Transform}

/-- How legends are made. -/
def IsBuilt (l : Legend Transform) : Prop := (Transform.legend l).IsBuilt

theorem IsBuilt.converse (h : l.IsBuilt) : l.converse.IsBuilt := Transform.IsBuilt.converse h

/-- What holds for built legends: their categories are sound, and their search table is ordered. -/
structure Sound (l : Legend Transform) : Prop where
  categories : ∀ c ∈ l.categories, c.Sound
  ordered : l.table.Ordered

/-! ### Disjoint sides -/

/-- If no neighbours overlap, each side lies before all following ones. -/
theorem separate_of_overlap? {sides : List Side} (hwf : ∀ s ∈ sides, s.WellFormed)
    (h : overlap? sides = none) : sides.Pairwise fun a b => a.high.place < b.low.place := by
  -- The check looks at neighbours only, so the induction is on the list from its second side on.
  induction sides with
  | nil => exact List.Pairwise.nil
  | cons a rest ih =>
    cases rest with
    | nil => exact List.pairwise_singleton _ _
    | cons b rest =>
      rw [overlap?] at h
      split at h
      · next hgt =>
        have hab : a.high.place < b.low.place := Binary64.compare_eq_gt_iff.mp hgt
        have hrest := ih (fun s hs => hwf s (List.mem_cons_of_mem _ hs)) h
        refine List.pairwise_cons.mpr ⟨fun s hs => ?_, hrest⟩
        rcases List.mem_cons.mp hs with rfl | hs
        · exact hab
        -- What lies after the neighbour lies after the first side too.
        · have hbs := (List.pairwise_cons.mp hrest).1 s hs
          have hb := (hwf b (by simp)).places
          omega
      · cases h

theorem ordered_of_checkDisjoint (hc : ∀ c ∈ l.categories, c.Sound)
    (h : checkDisjoint l.table.sides = .ok ()) : l.table.Ordered := by
  have hwf : ∀ s ∈ l.table.sides, s.WellFormed := by
    intro s hs
    obtain ⟨c, hmem, rfl⟩ := List.mem_map.mp hs
    exact (hc c hmem).here
  refine ⟨hwf, separate_of_overlap? hwf ?_⟩
  unfold checkDisjoint at h
  split at h
  · cases h
  · assumption

/-! ### Construction -/

/-- A plain copy is a given category taken as plain. -/
theorem exists_of_mem_plainCopies {token : Nat} {cs : List (Category Transform)}
    (hc : c ∈ plainCopies token cs) : ∃ d ∈ cs, ∃ origin, d.asPlain origin = c := by
  obtain ⟨place, hplace, rfl⟩ := List.mem_mapIdx.mp hc
  exact ⟨_, List.getElem_mem hplace, _, rfl⟩

/-- A category that is not converted is taken as it is. -/
theorem mem_plainCopies {token : Nat} {cs : List (Category Transform)} (hc : c ∈ cs)
    (hplain : c.here.converted = false) : c ∈ plainCopies token cs := by
  obtain ⟨place, hplace, rfl⟩ := List.mem_iff_getElem.mp hc
  exact List.mem_mapIdx.mpr ⟨place, hplace, Category.asPlain_of_not_converted hplain⟩

/-- What a construction needs and gives. -/
theorem ofCategories_eq_ok_iff {token : Nat} {config : Config} {cs : List (Category Transform)} :
    ofCategories token config cs = .ok l ↔
      ∃ members, members = sortBy sortKey (plainCopies token cs)
        ∧ l = ofMembers token config (pairingOf members) members
        ∧ checkDisjoint l.table.sides = .ok () ∧ checkDisjoint l.converse.table.sides = .ok () := by
  constructor
  · intro h
    obtain ⟨⟨⟩, hfirst, h⟩ := exists_of_bind_eq_ok h
    obtain ⟨⟨⟩, hsecond, h⟩ := exists_of_bind_eq_ok h
    obtain rfl := Except.ok.inj h
    exact ⟨_, rfl, rfl, hfirst, hsecond⟩
  · rintro ⟨members, rfl, rfl, hfirst, hsecond⟩
    unfold ofCategories
    dsimp only
    rw [hfirst, hsecond]
    rfl

theorem pairingOf_ne_reals (members : List (Category Transform)) : pairingOf members ≠ .reals := by
  unfold pairingOf
  split
  · simp
  · split <;> simp

/-- The members of a built legend are the given categories taken as plain. -/
theorem members_perm {token : Nat} {cs members : List (Category Transform)}
    (h : members = sortBy sortKey (plainCopies token cs)) : members.Perm (plainCopies token cs) := by
  rw [h]
  exact sortBy_perm _ _

/-- A member of a built legend is a given category taken as plain. -/
theorem exists_of_mem_members {token : Nat} {cs members : List (Category Transform)}
    (h : members = sortBy sortKey (plainCopies token cs)) (hc : c ∈ members) :
    ∃ d ∈ cs, ∃ origin, d.asPlain origin = c :=
  exists_of_mem_plainCopies ((members_perm h).mem_iff.mp hc)

/-- A legend of samples shows its members. -/
theorem mem_categories_ofMembers {token : Nat} {config : Config} {members : List (Category Transform)} :
    c ∈ (ofMembers token config (pairingOf members) members).categories ↔ c ∈ members := by
  rw [categories_of_ne_reals _ (pairingOf_ne_reals members)]
  rfl

/-- The legend of the real values shows the converses of the members, sorted by their least values. -/
theorem categories_converse_ofMembers (token : Nat) (config : Config)
    (members : List (Category Transform)) :
    (ofMembers token config .samples members).converse.categories = (sortedConverses members).map Prod.fst :=
  congrArg (List.map Prod.fst) (placed_ofMembers_reals token config members)

/-- The legend of the real values shows the converse of each member once. -/
theorem categories_converse_perm (token : Nat) (config : Config)
    (members : List (Category Transform)) :
    (ofMembers token config .samples members).converse.categories.Perm (members.map Category.converse) := by
  rw [categories_converse_ofMembers]
  have hperm := (sortBy_perm (fun entry => sortKey entry.1)
    (members.map Category.converse).zipIdx).map Prod.fst
  rwa [List.zipIdx_map_fst] at hperm

/-- The converse legend shows members or their converses. -/
theorem mem_categories_converse {token : Nat} {config : Config} {members : List (Category Transform)}
    (h : c ∈ (ofMembers token config (pairingOf members) members).converse.categories) :
    ∃ d ∈ members, c = d ∨ c = d.converse := by
  generalize hp : pairingOf members = p at h
  have hne := pairingOf_ne_reals members
  rw [hp] at hne
  cases p with
  | empty | identity =>
    rw [converse, ofMembers, categories_of_ne_reals _ hne] at h
    exact ⟨c, h, Or.inl rfl⟩
  | unpaired => cases h
  | samples =>
    obtain ⟨d, hd, rfl⟩ := List.mem_map.mp ((categories_converse_perm token config members).mem_iff.mp h)
    exact ⟨d, hd, Or.inr rfl⟩
  | reals => exact absurd rfl hne

/-- Members are declared categories taken as plain, and the converse legend shows them or their converses.
All of them are sound. -/
theorem sound_categories (token : Nat) (config : Config) {cs members : List (Category Transform)}
    (hdeclared : ∀ c ∈ cs, Category.IsDeclared c)
    (hmembers : members = sortBy sortKey (plainCopies token cs)) :
    (∀ c ∈ (ofMembers token config (pairingOf members) members).categories, c.Sound) ∧
      ∀ c ∈ (ofMembers token config (pairingOf members) members).converse.categories, c.Sound := by
  have hsound : ∀ c ∈ members, c.Sound := by
    intro c hc
    obtain ⟨d, hd, _, rfl⟩ := exists_of_mem_members hmembers hc
    exact (hdeclared d hd).sound.asPlain
  refine ⟨fun c hc => hsound c (mem_categories_ofMembers.mp hc), fun c hc => ?_⟩
  obtain ⟨d, hd, rfl | rfl⟩ := mem_categories_converse hc
  · exact hsound _ hd
  · exact (hsound _ hd).converse

/-- Both legends of a construction are sound. -/
theorem sound_of_ofCategories {token : Nat} {config : Config} {cs : List (Category Transform)}
    (hdeclared : ∀ c ∈ cs, Category.IsDeclared c) (h : ofCategories token config cs = .ok l) :
    l.Sound ∧ l.converse.Sound := by
  obtain ⟨members, hmembers, rfl, hfirst, hsecond⟩ := ofCategories_eq_ok_iff.mp h
  obtain ⟨hhere, hthere⟩ := sound_categories token config hdeclared hmembers
  exact ⟨⟨hhere, ordered_of_checkDisjoint hhere hfirst⟩,
    hthere, ordered_of_checkDisjoint hthere hsecond⟩

theorem converse_converse_cases (l : Legend Transform) :
    l.converse.converse = l ∨ l.converse.converse = l.converse := by
  rcases l with ⟨token, config, _ | _ | _ | _ | _, members, order⟩
  · exact Or.inl rfl
  · exact Or.inr rfl
  · exact Or.inl rfl
  · exact Or.inl rfl
  · exact Or.inl rfl

/-- A legend of real values has the settings of its samples. -/
theorem config_converse (hsamples : l.pairing = .samples) : l.converse.config = l.config := by
  rw [converse, hsamples]

/-- A legend has the token that it is made with. -/
theorem token_ofCategories {token : Nat} {config : Config} {cs : List (Category Transform)}
    (hl : ofCategories token config cs = .ok l) : l.token = token := by
  obtain ⟨members, -, rfl, -, -⟩ := ofCategories_eq_ok_iff.mp hl
  rfl

/-- A legend has the settings that it is made with. -/
theorem config_ofCategories {token : Nat} {config : Config} {cs : List (Category Transform)}
    (hl : ofCategories token config cs = .ok l) :
    l.config = config := by
  obtain ⟨members, -, rfl, -, -⟩ := ofCategories_eq_ok_iff.mp hl
  rfl

/-- A category of a legend is a given one taken as plain. -/
theorem exists_of_mem_categories {token : Nat} {config : Config} {cs : List (Category Transform)}
    (hl : ofCategories token config cs = .ok l) (hc : c ∈ l.categories) :
    ∃ d ∈ cs, ∃ origin, d.asPlain origin = c := by
  obtain ⟨members, hmembers, rfl, -, -⟩ := ofCategories_eq_ok_iff.mp hl
  exact exists_of_mem_members hmembers (mem_categories_ofMembers.mp hc)

/-- A given category that is not converted is shown as it is. -/
theorem mem_categories_of_mem {token : Nat} {config : Config} {cs : List (Category Transform)}
    (hl : ofCategories token config cs = .ok l) (hc : c ∈ cs) (hplain : c.here.converted = false) :
    c ∈ l.categories := by
  obtain ⟨members, hmembers, rfl, -, -⟩ := ofCategories_eq_ok_iff.mp hl
  exact mem_categories_ofMembers.mpr ((members_perm hmembers).mem_iff.mpr (mem_plainCopies hc hplain))

/-- A legend of affine categories shows affine categories. -/
theorem isAffine_of_ofCategories {token : Nat} {config : Config} {cs : List (Category Transform)}
    (haffine : ∀ c ∈ cs, c.forward.IsAffine) (hl : ofCategories token config cs = .ok l) :
    ∀ c ∈ l.categories, c.forward.IsAffine := by
  intro c hc
  obtain ⟨d, hd, _, rfl⟩ := exists_of_mem_categories hl hc
  exact Category.isAffine_asPlain (haffine d hd)

/-- A legend of affine categories is built. -/
theorem isBuilt_of_isAffine {token : Nat} {config : Config} {cs : List (Category Transform)}
    (hdeclared : ∀ c ∈ cs, Category.IsDeclared c) (haffine : ∀ c ∈ cs, c.forward.IsAffine)
    (hl : ofCategories token config cs = .ok l) : l.IsBuilt :=
  Transform.IsBuilt.legend hdeclared (fun c hc => (haffine c hc).isBuilt) hl

end Legend

/-! ### Induction -/

namespace Transform

/-- Induction on built transforms. A legend is reached from the transforms of its categories in the domain in
which it is seen, so the inverses of transforms are reached too. -/
theorem IsBuilt.induct {motive : Transform → Prop} (identity : motive .identity)
    (linear : ∀ p, motive (.linear p)) (constant : ∀ v w, motive (.constant v w))
    (exponential : ∀ p, motive (.exponential p)) (logarithmic : ∀ p, motive (.logarithmic p))
    (chain : ∀ first second, motive first → motive second → motive (.chain first second))
    (supplied : ∀ mark like, motive like → motive (.supplied mark like))
    (legend : ∀ l : Legend Transform, l.IsBuilt → l.Sound → (∀ c ∈ l.categories, motive c.forward) →
      motive (.legend l))
    {t : Transform} (h : t.IsBuilt) : motive t := by
  -- The conversions of a category are a transform and its inverse, so both are carried along.
  suffices hboth : motive t ∧ ∀ u, t.inverse = .ok u → motive u from hboth.1
  induction h with
  | identity =>
    refine ⟨identity, ?_⟩
    rintro u ⟨⟩
    exact identity
  | linear p =>
    refine ⟨linear p, fun u hu => ?_⟩
    rw [inverse] at hu
    cases hp : p.inverse with
    | error e => rw [hp] at hu; cases hu
    | ok q => rw [hp] at hu; cases hu; exact linear q
  | constant v w =>
    refine ⟨constant v w, ?_⟩
    rintro u ⟨⟩
    exact constant w v
  | exponential p =>
    refine ⟨exponential p, fun u hu => ?_⟩
    rw [inverse] at hu
    cases hp : p.inverse with
    | error e => rw [hp] at hu; cases hu
    | ok q => rw [hp] at hu; cases hu; exact logarithmic q
  | logarithmic p =>
    refine ⟨logarithmic p, fun u hu => ?_⟩
    rw [inverse] at hu
    cases hp : p.inverse with
    | error e => rw [hp] at hu; cases hu
    | ok q => rw [hp] at hu; cases hu; exact exponential q
  | @chain first second _ _ ihfirst ihsecond =>
    refine ⟨chain _ _ ihfirst.1 ihsecond.1, fun u hu => ?_⟩
    rw [inverse] at hu
    obtain ⟨undoSecond, hsecond, hu⟩ := exists_of_bind_eq_ok hu
    obtain ⟨undoFirst, hfirst, hu⟩ := exists_of_bind_eq_ok hu
    obtain rfl := Except.ok.inj hu
    -- The inverse of a chain leaves out a part that converts nothing.
    unfold andThen
    split
    · exact ihfirst.2 _ hfirst
    · split
      · exact ihsecond.2 _ hsecond
      · exact chain _ _ (ihsecond.2 _ hsecond) (ihfirst.2 _ hfirst)
  | supplied _ ih =>
    refine ⟨supplied _ _ ih.1, fun u hu => ?_⟩
    rw [inverse] at hu
    obtain ⟨like, hlike, hu⟩ := exists_of_bind_eq_ok hu
    obtain rfl := Except.ok.inj hu
    exact supplied _ _ (ih.2 _ hlike)
  | legend hdeclared hforward hl ih =>
    have hbuilt : Legend.IsBuilt _ := .legend hdeclared hforward hl
    obtain ⟨hsound, hconverse⟩ := Legend.sound_of_ofCategories hdeclared hl
    obtain ⟨members, hmembers, rfl, -, -⟩ := Legend.ofCategories_eq_ok_iff.mp hl
    -- The members of the legend hold transforms and their inverses, and so does its converse.
    have hboth : ∀ c ∈ members, motive c.forward ∧ motive c.back := by
      intro c hc
      obtain ⟨d, hd, _, rfl⟩ := Legend.exists_of_mem_members hmembers hc
      unfold Category.asPlain
      split
      · exact ⟨identity, identity⟩
      · next hconverted =>
        have hinverse := (hdeclared d hd).sound.inverse
        rw [if_neg hconverted] at hinverse
        exact ⟨(ih d hd).1, (ih d hd).2 _ hinverse⟩
    refine ⟨legend _ hbuilt hsound fun c hc =>
      (hboth c (Legend.mem_categories_ofMembers.mp hc)).1, ?_⟩
    rintro u ⟨⟩
    refine legend _ hbuilt.converse hconverse fun c hc => ?_
    obtain ⟨d, hd, rfl | rfl⟩ := Legend.mem_categories_converse hc
    · exact (hboth _ hd).1
    · rcases d with ⟨origin, here, _ | there, forward, back⟩
      · exact (hboth _ hd).1
      · exact (hboth _ hd).2
  | @converse l _ ih =>
    have hconverse := ih.2 _ rfl
    refine ⟨hconverse, ?_⟩
    rintro u ⟨⟩
    rcases l.converse_converse_cases with heq | heq
    · rw [heq]; exact ih.1
    · rw [heq]; exact hconverse

end Transform

namespace Legend.IsBuilt

variable {l : Legend Transform}

/-- The categories of a built legend convert by built transforms, in both domains. -/
theorem forward (h : l.IsBuilt) : ∀ c ∈ l.categories, c.forward.IsBuilt := by
  have hall : (Transform.legend l).IsBuilt ∧
      ∀ m, Transform.legend l = .legend m → ∀ c ∈ m.categories, c.forward.IsBuilt := by
    apply Transform.IsBuilt.induct (motive := fun t => t.IsBuilt ∧
      ∀ m, t = .legend m → ∀ c ∈ m.categories, c.forward.IsBuilt) (h := h)
    case legend =>
      intro l hl _ hc
      refine ⟨hl, ?_⟩
      rintro m ⟨⟩ c hmem
      exact (hc c hmem).1
    case chain => exact fun _ _ hf hs => ⟨.chain hf.1 hs.1, by simp⟩
    case supplied => exact fun _ _ hl => ⟨.supplied hl.1, by simp⟩
    case identity => exact ⟨.identity, by simp⟩
    case linear => exact fun p => ⟨.linear p, by simp⟩
    case constant => exact fun v w => ⟨.constant v w, by simp⟩
    case exponential => exact fun p => ⟨.exponential p, by simp⟩
    case logarithmic => exact fun p => ⟨.logarithmic p, by simp⟩
  exact hall.2 l rfl

/-- A built legend is what a construction gives, or the converse of that. -/
theorem exists_construction (h : l.IsBuilt) :
    ∃ token config cs m, (∀ c ∈ cs, Category.IsDeclared c) ∧ ofCategories token config cs = .ok m
      ∧ (l = m ∨ l = m.converse) := by
  obtain ⟨t, ht, hbuilt⟩ : ∃ t, Transform.legend l = t ∧ t.IsBuilt := ⟨_, rfl, h⟩
  induction hbuilt generalizing l with
  | @legend token config cs m hdeclared _ hm _ =>
    obtain rfl := Transform.legend.inj ht
    exact ⟨token, config, cs, l, hdeclared, hm, Or.inl rfl⟩
  | @converse k hk ih =>
    obtain rfl := Transform.legend.inj ht
    obtain ⟨token, config, cs, m, hdeclared, hm, rfl | rfl⟩ := ih hk rfl
    · exact ⟨token, config, cs, k, hdeclared, hm, Or.inr rfl⟩
    -- Seen from the other domain twice, a legend is itself, or still the empty legend.
    · rcases m.converse_converse_cases with heq | heq
      · exact ⟨token, config, cs, m, hdeclared, hm, Or.inl heq⟩
      · exact ⟨token, config, cs, m, hdeclared, hm, Or.inr heq⟩
  | _ => cases ht

/-- Built legends are sound. -/
theorem sound (h : l.IsBuilt) : l.Sound := by
  obtain ⟨_, _, cs, m, hdeclared, hm, rfl | rfl⟩ := h.exists_construction
  · exact (sound_of_ofCategories hdeclared hm).1
  · exact (sound_of_ofCategories hdeclared hm).2

end Legend.IsBuilt

/-! ### Small legends -/

namespace Legend

variable {token : Nat} {config : Config} {e : Except Error (List (Category Transform))}
  {test : List (Category Transform) → Legend Transform → Bool}

/-- Whether categories make a legend that passes a test. -/
def passes (token : Nat) (config : Config) (e : Except Error (List (Category Transform)))
    (test : List (Category Transform) → Legend Transform → Bool) : Bool :=
  match e with
  | .error _ => false
  | .ok cs =>
    match ofCategories token config cs with
    | .error _ => false
    | .ok l => test cs l

theorem exists_of_passes (h : passes token config e test = true) :
    ∃ cs l, e = .ok cs ∧ ofCategories token config cs = .ok l ∧ test cs l = true := by
  unfold passes at h
  split at h
  · cases h
  · next cs =>
    split at h
    · cases h
    · next l hl => exact ⟨cs, l, rfl, hl, h⟩

/-- The depth in meters of a packed depth. -/
def metersOfPacked : Linear where
  scale := .two
  offset := .one
  scale_ne_zero := by decide +kernel
  scale_finite := by decide +kernel
  offset_finite := Binary64.isFinite_one

/-- The categories of a raster of packed depths: zero marks land, and the numbers from one to ten are
depths. -/
def depthCategories : Except Error (List (Category Transform)) := do
  let land ← Category.qualitative 1 "Land" (.number .zero) 0
  let depth ← Category.quantitative 2 "Depth" (.bounds [.one, .ten]) (some (.linear metersOfPacked)) none
  return [land, depth]

/-- These categories are declared, and affine. -/
theorem of_depthCategories {cs : List (Category Transform)} (h : depthCategories = .ok cs) :
    (∀ c ∈ cs, Category.IsDeclared c) ∧ ∀ c ∈ cs, c.forward.IsAffine := by
  obtain ⟨land, hland, h⟩ := exists_of_bind_eq_ok h
  obtain ⟨depth, hdepth, h⟩ := exists_of_bind_eq_ok h
  obtain rfl := Except.ok.inj h
  simp only [List.mem_cons, List.not_mem_nil, or_false, forall_eq_or_imp, forall_eq]
  exact ⟨⟨.qualitative hland, .quantitative hdepth⟩, Category.isAffine_of_qualitative hland,
    Category.isAffine_of_quantitative hdepth (by rintro _ ⟨⟩; exact .linear _)⟩

/-- These categories make a legend in which no least value repeats. -/
theorem exists_depths : ∃ cs l, depthCategories = .ok cs ∧ (∀ c ∈ cs, Category.IsDeclared c)
    ∧ (∀ c ∈ cs, c.forward.IsAffine) ∧ ofCategories 0 .default cs = .ok l ∧ l.table.lows.Nodup := by
  have hpasses : passes 0 .default depthCategories (fun _ l => l.table.lows.Nodup) = true := by
    decide +kernel
  obtain ⟨cs, l, hcs, hl, hnodup⟩ := exists_of_passes hpasses
  obtain ⟨hdeclared, haffine⟩ := of_depthCategories hcs
  exact ⟨cs, l, hcs, hdeclared, haffine, hl, of_decide_eq_true hnodup⟩

end Legend

end RasterCategories
