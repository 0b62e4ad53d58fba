import RasterCategories.Proofs.Evaluation.Built
import RasterCategories.Proofs.Legend.Shape
/-!
# Legends that match

Two legends convert alike if their categories have the same names, kinds and bounds in both domains and convert
alike themselves. Among the samples this follows from what the equality test compares, since the bounds of the
real values are images of those of the samples. Among the real values the bounds of the samples confine the
results, and if returns are verified the order of the samples shows too, and in both domains which of them are one
and the same category. The test compares none of these.

* `SameOutcome`: results and errors that are the same.
* `Legend.Matches`: equal legends of which the categories convert alike.
* `Legend.SameSamples` and `Legend.Interchangeable`: what the equality test leaves out.
* `Legend.Matches.pureValue`: legends that match convert alike.
-/

namespace RasterCategories

/-! ### Outcomes -/

/-- An error without the interval and the units of a side, which equality does not compare. -/
def Error.bare : Error → Error
  | .notReversible value result side => .notReversible value result { side with interval := none, units := none }
  | e => e

/-- Both results are the same number or the same error. -/
def SameOutcome {α : Type} (e e' : Except Error α) : Prop := e.mapError Error.bare = e'.mapError Error.bare

namespace SameOutcome

variable {α β : Type} {e e' : Except Error α} {a : α}

theorem refl (e : Except Error α) : SameOutcome e e := rfl

theorem of_ok (h : SameOutcome (.ok a) e') : e' = .ok a := by
  cases e' with
  | ok b => exact congrArg Except.ok (Except.ok.inj h).symm
  | error x => cases h

theorem of_error {x : Error} (h : SameOutcome (.error x : Except Error α) e') :
    ∃ y, e' = .error y ∧ x.bare = y.bare := by
  cases e' with
  | ok b => cases h
  | error y => exact ⟨y, rfl, Except.error.inj h⟩

theorem bind {f f' : α → Except Error β} (h : SameOutcome e e') (hf : ∀ a, SameOutcome (f a) (f' a)) :
    SameOutcome (e >>= f) (e' >>= f') := by
  cases e with
  | ok a =>
    rw [of_ok h]
    exact hf a
  | error x =>
    obtain ⟨y, rfl, hxy⟩ := of_error h
    exact congrArg Except.error hxy

end SameOutcome

/-! ### Categories -/

/-- Two categories have the same name, kind and bounds, and convert alike. -/
structure Category.Matches (c d : Category Transform) : Prop where
  name : c.here.name = d.here.name
  converted : c.here.converted = d.here.converted
  bounds : c.here.bounds = d.here.bounds
  forward : ∀ x, SameOutcome (c.forward.apply x).fresh (d.forward.apply x).fresh

namespace Transform

variable {t u : Transform}

/-- Only the identity is equal to the identity. -/
theorem eq_identity_iff_of_same (h : t.same u = true) : t = .identity ↔ u = .identity := by
  constructor
  · rintro rfl
    cases u with
    | identity => rfl
    | _ => simp [same] at h
  · rintro rfl
    cases t with
    | identity => rfl
    | _ => simp [same] at h

end Transform

namespace Category

variable {c d : Category Transform}

/-- What the equality test of categories compares. -/
theorem same_iff : c.same d = true ↔ c.here.name = d.here.name ∧ c.here.converted = d.here.converted
    ∧ c.here.bounds = d.here.bounds ∧ c.forward.same d.forward = true := by
  simp only [same, sameBy, Bool.and_eq_true, beq_iff_eq, decide_eq_true_eq, Side.bounds, Prod.mk.injEq,
    and_assoc]

/-- A category of samples converts by the identity exactly if it converts nothing. -/
theorem IsDeclared.there_isSome_eq_false_iff (hc : c.IsDeclared) (hplain : c.here.converted = false) :
    c.there.isSome = false ↔ c.forward = .identity := by
  constructor
  · intro hnone
    have horiginal := hc.original
    rw [hplain, if_neg Bool.false_ne_true] at horiginal
    exact horiginal.imaged.alone (by simpa using hnone)
  · intro hidentity
    rw [← Bool.not_eq_true]
    intro hsome
    have hforward := hc.isIdentity_eq_false hsome
    rw [hplain, if_neg Bool.false_ne_true, hidentity] at hforward
    cases hforward

/-- Of two equal categories of samples, both convert something or neither does. -/
theorem there_isSome_eq_of_same (hc : c.IsDeclared) (hd : d.IsDeclared) (hplain : c.here.converted = false)
    (h : c.same d = true) : c.there.isSome = d.there.isSome := by
  obtain ⟨-, hconverted, -, hforward⟩ := same_iff.mp h
  have hiff := hc.there_isSome_eq_false_iff hplain
  rw [Transform.eq_identity_iff_of_same hforward, ← hd.there_isSome_eq_false_iff (hconverted ▸ hplain)] at hiff
  cases hthere : d.there.isSome with
  | false => exact hiff.mpr hthere
  | true => simpa [hthere, Option.isSome_iff_ne_none] using hiff

/-- Categories of samples that convert alike have the same real bounds. -/
theorem Matches.bounds_eq (h : c.Matches d) (hc : c.IsOriginal) (hd : d.IsOriginal)
    (hthere : c.there.isSome = d.there.isSome) : c.bounds = d.bounds := by
  obtain ⟨hlow, hhigh⟩ := Prod.mk.inj h.bounds
  refine Prod.ext h.bounds ?_
  show c.converseSide.bounds = d.converseSide.bounds
  cases hs : c.there with
  | none =>
    have hr : d.there = none := by simpa [hs] using hthere.symm
    rw [converseSide, converseSide, hs, hr]
    exact h.bounds
  | some s =>
    obtain ⟨r, hr⟩ := Option.isSome_iff_exists.mp (hthere ▸ congrArg Option.isSome hs : d.there.isSome = true)
    -- The real bounds are the images of the bounds of the samples.
    obtain ⟨first, last, hfirst, hlast, hslow, hshigh⟩ := hc.imaged.bounds s hs
    obtain ⟨first', last', hfirst', hlast', hrlow, hrhigh⟩ := hd.imaged.bounds r hr
    have hsamefirst := (hfirst ▸ h.forward c.here.low).of_ok
    have hsamelast := (hlast ▸ h.forward c.here.high).of_ok
    rw [hlow, hfirst'] at hsamefirst
    rw [hhigh, hlast'] at hsamelast
    obtain rfl := Except.ok.inj hsamefirst
    obtain rfl := Except.ok.inj hsamelast
    rw [converseSide, converseSide, hs, hr, Option.getD_some, Option.getD_some, Side.bounds, Side.bounds,
      hslow, hshigh, hrlow, hrhigh]

end Category

/-! ### Legends -/

/-- Confining to a side depends on its bounds alone. -/
theorem Side.confine_eq_of_bounds {a b : Side} (h : a.bounds = b.bounds) (x : Binary64) :
    a.confine x = b.confine x := by
  obtain ⟨hlow, hhigh⟩ := Prod.mk.inj h
  rw [confine, confine, hlow, hhigh]

namespace Legend

variable {l m : Legend Transform} {c d : Category Transform}

/-- A result is confined alike in legends of which the sides have the same bounds. -/
theorem settle_eq_of_bounds (hsides : l.active.table.sides.map Side.bounds = m.active.table.sides.map Side.bounds)
    (hext : l.active.table.extrapolates = m.active.table.extrapolates)
    (hcd : c.converseSide.bounds = d.converseSide.bounds) (y : Binary64) :
    l.active.settle (c.map Transform.behaviour) y = m.active.settle (d.map Transform.behaviour) y := by
  rw [settle, settle, SearchTable.top?_eq_of_bounds hsides hext]
  exact if_congr Iff.rfl (Side.confine_eq_of_bounds hcd y) rfl

/-- Legends of which the categories match and look alike convert alike. -/
theorem pureValue_of_matches (hl : l.IsBuilt) (hmatches : List.Forall₂ Category.Matches l.categories m.categories)
    (hbounds : l.categories.map Category.bounds = m.categories.map Category.bounds)
    (hreals : l.pairing = .reals ↔ m.pairing = .reals)
    (hverify : l.categories ≠ [] → l.config.verifyReturn = m.config.verifyReturn)
    (hcongruent : l.categories ≠ [] → l.config.verifyReturn = true → Congruent l m) (x : Binary64) :
    SameOutcome (l.active.pureValue x) (m.active.pureValue x) := by
  have hsides : l.active.table.sides.map Side.bounds = m.active.table.sides.map Side.bounds := by
    rw [active, active, table_map, table_map, bounds_table, bounds_table, hbounds]
  have hext : l.active.table.extrapolates = m.active.table.extrapolates :=
    decide_eq_decide.mpr hreals
  have howner := SearchTable.owner?_eq_of_bounds hsides hext x
  cases hi : l.active.table.owner? x with
  | none =>
    rw [pureValue_of_owner?_none hi, pureValue_of_owner?_none (howner ▸ hi)]
    exact .refl _
  | some i =>
    have hi' : m.active.table.owner? x = some i := howner ▸ hi
    obtain ⟨_, hactive⟩ := exists_category hl.active_ordered hi
    rw [active, categories_map, List.getElem?_map] at hactive
    obtain ⟨c, hc, rfl⟩ := Option.map_eq_some_iff.mp hactive
    obtain ⟨d, hd, hcd⟩ := getElem?_of_forall₂ hmatches hc
    have hsame := hcd.forward x
    cases hy : (c.forward.apply x).fresh with
    | error e =>
      obtain ⟨e', he', hbare⟩ := (hy ▸ hsame).of_error
      rw [pureValue_of_owner?_error hi (getElem?_active hc) hy,
        pureValue_of_owner?_error hi' (getElem?_active hd) he']
      exact congrArg Except.error hbare
    | ok y =>
      have hy' := (hy ▸ hsame).of_ok
      have hconverse : c.converseSide.bounds = d.converseSide.bounds := by
        have hat := congrArg (·[i]?) hbounds
        simp only [List.getElem?_map, hc, hd, Option.map_some] at hat
        exact (Prod.mk.inj (Option.some.inj hat)).2
      rw [pureValue_of_owner? hi (getElem?_active hc) hy, pureValue_of_owner? hi' (getElem?_active hd) hy',
        settle_eq_of_bounds hsides hext hconverse]
      generalize m.active.settle (d.map Transform.behaviour) y = z
      have hnonempty : l.categories ≠ [] := List.ne_nil_of_mem (List.mem_of_getElem? hc)
      have hside : (Error.notReversible x z c.here).bare = (Error.notReversible x z d.here).bare := by
        obtain ⟨hlow, hhigh⟩ := Prod.mk.inj hcd.bounds
        rw [Error.bare, Error.bare, hcd.name, hlow, hhigh, hcd.converted]
      rw [show l.active.config = l.config from rfl, show m.active.config = m.config from rfl,
        show l.active.isPaired = l.isPaired from rfl, show m.active.isPaired = m.isPaired from rfl,
        ← hverify hnonempty]
      cases hon : l.config.verifyReturn with
      | false => exact .refl _
      -- If returns are verified, a result leads back in both legends or in neither.
      | true =>
        have hback := hcongruent hnonempty hon
        rw [hback.isPaired, hback.leadsBack_eq hc hd]
        split
        · exact congrArg Except.error hside
        · exact .refl _

/-- Equal legends show equal categories. -/
theorem forall₂_of_same (h : l.same m = true) :
    List.Forall₂ (fun c d => c.same d = true) l.categories m.categories := by
  rw [same, sameBy, Bool.and_eq_true, beq_iff_eq, List.all_eq_true] at h
  exact List.forall₂_iff_zip.mpr ⟨h.1, fun {c d} hcd => h.2 (c, d) hcd⟩

theorem map_eq_of_forall₂ {α β γ : Type} {f : α → γ} {g : β → γ} {as : List α} {bs : List β}
    (h : List.Forall₂ (fun a b => f a = g b) as bs) : as.map f = bs.map g := by
  rwa [← List.forall₂_eq_eq_eq, List.forall₂_map_left_iff, List.forall₂_map_right_iff]

/-- The bounds of categories are those in this domain and those in the other one. -/
theorem map_bounds (cs : List (Category Transform)) : cs.map Category.bounds =
    (cs.map fun c => c.here.bounds).zip (cs.map fun c => c.converseSide.bounds) :=
  List.zip_map'.symm

/-- What the equality test leaves out about two legends of real values: the bounds of the samples, and their
order, which matters only where returns are verified. -/
structure SameSamples (l m : Legend Transform) : Prop where
  /-- The samples of corresponding categories have the same bounds. -/
  bounds : (l.categories.map fun c => c.converseSide.bounds) = m.categories.map fun d => d.converseSide.bounds
  /-- If returns are verified, the samples are in the same order. -/
  order : l.config.verifyReturn = true → l.realOrder = m.realOrder

/-- What the equality test leaves out about two legends. -/
structure Interchangeable (l m : Legend Transform) : Prop where
  /-- If they show real values, these belong to the same samples. -/
  samples : l.pairing = .reals → l.SameSamples m
  /-- If returns are verified, a category that is converted is listed again at the same positions. -/
  repeats : l.config.verifyReturn = true → l.kind = "distinct" → l.SameRepeats m

/-- Equal legends of which the categories convert alike. -/
structure Matches (l m : Legend Transform) : Prop where
  same : l.same m = true
  forward : ∀ c d, (c, d) ∈ l.categories.zip m.categories → c.forward.same d.forward = true →
    ∀ x, SameOutcome (c.forward.apply x).fresh (d.forward.apply x).fresh

namespace Matches

/-- Their categories match. -/
theorem categories (h : Matches l m) : List.Forall₂ Category.Matches l.categories m.categories := by
  obtain ⟨hlength, hzip⟩ := List.forall₂_iff_zip.mp (forall₂_of_same h.same)
  refine List.forall₂_iff_zip.mpr ⟨hlength, fun {c d} hcd => ?_⟩
  obtain ⟨hname, hconverted, hbounds, hboth⟩ := Category.same_iff.mp (hzip hcd)
  exact ⟨hname, hconverted, hbounds, h.forward c d hcd hboth⟩

/-- Both of them show real values, or neither does. -/
theorem reals_iff (h : Matches l m) (hl : l.IsBuilt) (hm : m.IsBuilt) :
    l.pairing = .reals ↔ m.pairing = .reals := by
  have hconverted := map_eq_of_forall₂ (h.categories.imp fun _ _ hcd => hcd.converted)
  have hany := congrArg (true ∈ ·) hconverted
  simpa only [List.mem_map, hl.pairing_eq_reals_iff, hm.pairing_eq_reals_iff, eq_iff_iff] using hany

/-- Their categories have the same bounds in the domain in which they are seen. -/
theorem map_here (h : Matches l m) :
    (l.categories.map fun c => c.here.bounds) = m.categories.map fun d => d.here.bounds :=
  map_eq_of_forall₂ (h.categories.imp fun _ _ hcd => hcd.bounds)

/-- Legends of samples that match have the same bounds among the real values too. -/
theorem bounds_of_samples (h : Matches l m) (hl : l.IsBuilt) (hm : m.IsBuilt) (hlne : l.pairing ≠ .reals)
    (hmne : m.pairing ≠ .reals) :
    (l.categories.map fun c => c.there.isSome) = (m.categories.map fun d => d.there.isSome)
      ∧ l.categories.map Category.bounds = m.categories.map Category.bounds := by
  obtain ⟨hlength, hequal⟩ := List.forall₂_iff_zip.mp (forall₂_of_same h.same)
  obtain ⟨-, hmatch⟩ := List.forall₂_iff_zip.mp h.categories
  have hthere : ∀ {c d}, (c, d) ∈ l.categories.zip m.categories → c.there.isSome = d.there.isSome := by
    intro c d hcd
    obtain ⟨hc, hd⟩ := List.of_mem_zip hcd
    exact Category.there_isSome_eq_of_same (hl.isDeclared c hc) (hm.isDeclared d hd)
      (hl.isOriginal hlne c hc).not_converted (hequal hcd)
  refine ⟨map_eq_of_forall₂ (List.forall₂_iff_zip.mpr ⟨hlength, hthere⟩),
    map_eq_of_forall₂ (List.forall₂_iff_zip.mpr ⟨hlength, fun {c d} hcd => ?_⟩)⟩
  obtain ⟨hc, hd⟩ := List.of_mem_zip hcd
  exact (hmatch hcd).bounds_eq (hl.isOriginal hlne c hc) (hm.isOriginal hmne d hd) (hthere hcd)

/-- Legends that match convert alike if one of them converts nothing. -/
theorem pureValue_of_identity (h : Matches l m) (hl : l.IsBuilt) (hm : m.IsBuilt) (hidentity : l.pairing = .identity)
    (x : Binary64) : SameOutcome (l.active.pureValue x) (m.active.pureValue x) := by
  have hlne : l.pairing ≠ .reals := by simp [hidentity]
  have hmne := mt (h.reals_iff hl hm).mpr hlne
  obtain ⟨hthere, hbounds⟩ := h.bounds_of_samples hl hm hlne hmne
  have hpairing : pairingOf l.categories = .identity := by
    rw [← hl.pairing_eq_pairingOf hlne (by rintro rfl; cases hidentity), hidentity]
  rw [pairingOf_eq hl.sound.categories hm.sound.categories hbounds hthere] at hpairing
  have hidentity' : m.pairing = .identity := by
    rw [hm.pairing_eq_pairingOf hmne (by rintro rfl; cases hpairing), hpairing]
  have hsides : l.table.sides.map Side.bounds = m.table.sides.map Side.bounds := by
    rw [bounds_table, bounds_table, hbounds]
  have howner : l.owner? x = m.owner? x :=
    SearchTable.owner?_eq_of_bounds hsides (by simp [table, hidentity, hidentity']) x
  rw [← hl.run_convert .empty, ← hm.run_convert .empty,
    hl.run_convert_of_isIdentity (by simp [isIdentity, hidentity]),
    hm.run_convert_of_isIdentity (by simp [isIdentity, hidentity']), howner]
  exact .refl _

/-- Legends that match convert alike, as long as what the equality test leaves out agrees too. -/
theorem pureValue (h : Matches l m) (hl : l.IsBuilt) (hm : m.IsBuilt)
    (hverify : l.categories ≠ [] → l.config.verifyReturn = m.config.verifyReturn)
    (hrest : l.Interchangeable m) (x : Binary64) :
    SameOutcome (l.active.pureValue x) (m.active.pureValue x) := by
  have hreals := h.reals_iff hl hm
  by_cases hpairing : l.pairing = .reals
  · obtain ⟨hconverse, horder⟩ := hrest.samples hpairing
    have hbounds : l.categories.map Category.bounds = m.categories.map Category.bounds := by
      rw [map_bounds, map_bounds, h.map_here, hconverse]
    exact pureValue_of_matches hl h.categories hbounds hreals hverify
      (fun _ hon => hl.congruent_of_reals hm hpairing (hreals.mp hpairing) hbounds (horder hon)
        (hrest.repeats hon (by simp [kind, hpairing]))) x
  by_cases hidentity : l.pairing = .identity
  · exact h.pureValue_of_identity hl hm hidentity x
  · have hpairing' := mt hreals.mpr hpairing
    obtain ⟨hthere, hbounds⟩ := h.bounds_of_samples hl hm hpairing hpairing'
    exact pureValue_of_matches hl h.categories hbounds hreals hverify
      (fun hne hon => hl.congruent_of_samples hm hpairing hpairing' hidentity hne hbounds hthere
        fun hsamples => hrest.repeats hon (by simp [kind, hsamples])) x

end Matches

end Legend

end RasterCategories
