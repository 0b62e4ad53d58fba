import RasterCategories.Proofs.Evaluation.Built
/-!
# Failed conversions

A batch checks its windows and finds an owner for each value before it writes anything, so neither of these
failures changes the memory. What a batch can not know in advance is whether the transforms of its categories
accept the values: if one of them refuses a run, the runs converted before it stay written. Only legends
refuse values, so this takes a legend with gaps among the transforms.

* `Legend.Fails`: the ways in which a conversion into an array fails.
* `Behaviour.Total`: behaviours that refuse nothing, such as those of functions.
* `Legend.convertInto_of_error`: what the memory holds after a failure.
* `Legend.convertInto_gap`: a failure that leaves a run behind.
-/

namespace RasterCategories

/-! ### Behaviours that refuse nothing -/

/-- All values and all arrays are accepted. -/
structure Behaviour.Total (b : Behaviour) : Prop where
  apply : ∀ x, ∃ y, (b.apply x).fresh = .ok y
  applyAll : ∀ xs, ∃ ys, (b.applyAll xs).fresh = .ok ys

namespace Behaviour.Total

variable {b first second : Behaviour}

theorem ofFunction (f d : Binary64 → Binary64) : (Behaviour.ofFunction f d).Total :=
  ⟨fun x => ⟨f x, rfl⟩, fun xs => ⟨.double (xs.map f), rfl⟩⟩

theorem andThen (hi : first.IgnoresHints) (hj : second.IgnoresHints) (hfirst : first.Total)
    (hsecond : second.Total) : (first.andThen second).Total := by
  refine ⟨fun x => ?_, fun xs => ?_⟩
  · obtain ⟨y, hy⟩ := hfirst.apply x
    rw [fresh_apply_andThen hi hj, hy]
    exact hsecond.apply y
  · obtain ⟨ys, hys⟩ := hfirst.applyAll xs
    rw [fresh_applyAll_andThen hi hj, hys]
    exact hsecond.applyAll ys.toDoubles

theorem elementwise (hi : b.IgnoresHints) (hb : b.Total) : b.elementwise.Total := by
  refine ⟨hb.apply, fun xs => ?_⟩
  rcases accepted_or_refused (fun x => (b.apply x).fresh) xs with ⟨ys, hys⟩ | ⟨x, -, e, he⟩
  · exact ⟨_, (Pointwise.elementwise hi).accepted hys⟩
  · obtain ⟨y, hy⟩ := hb.apply x
    rw [hy] at he
    cases he

end Behaviour.Total

namespace Transform

/-- All values and all arrays are accepted. -/
def Total (t : Transform) : Prop := t.behaviour.Total

/-- Whether the transform is made of functions of one variable, with no legend among its parts. -/
def isFunction : Transform → Bool
  | .identity | .linear _ | .constant _ _ | .exponential _ | .logarithmic _ => true
  | .chain first second => first.isFunction && second.isFunction
  | .legend _ => false
  | .supplied _ like => like.isFunction

/-- Transforms that are made of functions accept all values. -/
theorem total_of_isFunction {t : Transform} (hbuilt : t.IsBuilt) (h : t.isFunction = true) : t.Total := by
  unfold Total
  induction hbuilt with
  | chain hfirst hsecond ihfirst ihsecond =>
    rw [isFunction, Bool.and_eq_true] at h
    rw [behaviour]
    exact .andThen hfirst.regular.1 hsecond.regular.1 (ihfirst h.1) (ihsecond h.2)
  | supplied hlike ih =>
    rw [isFunction] at h
    rw [behaviour]
    exact .elementwise hlike.regular.1 (ih h)
  | legend | converse => cases h
  | _ =>
    rw [behaviour]
    exact .ofFunction _ _

end Transform

namespace Legend

section Plain

variable {l : Legend Behaviour} {source : Elements} {target : Target} {w : Window} {b : Transfer}
  {rs : List Run} {memory after : Cells} {e : Error}

/-- A batch that reads from a copy fails at a run that can not be converted, after it converted the runs before
it. -/
theorem pureRuns_frozen_error (h : l.pureRuns b.frozen rs memory = (.error e, after)) :
    ∃ done r rest, rs = done ++ r :: rest ∧ l.pureRuns b.frozen done memory = (.ok (), after)
      ∧ l.pureRun r.position (b.segment r) = .error e := by
  induction rs generalizing memory with
  | nil => cases h
  | cons r rs ih =>
    rw [pureRuns, Transfer.read_frozen] at h
    cases hrun : l.pureRun r.position (b.segment r) with
    | error e' =>
      rw [hrun] at h
      obtain ⟨he, rfl⟩ := Prod.mk.inj h
      obtain rfl := Except.error.inj he
      exact ⟨[], r, rs, rfl, rfl, hrun⟩
    | ok results =>
      rw [hrun] at h
      obtain ⟨done, q, rest, rfl, hdone, hfails⟩ := ih h
      refine ⟨r :: done, q, rest, rfl, ?_, hfails⟩
      rw [pureRuns, Transfer.read_frozen, hrun]
      exact hdone

/-- The ways in which a conversion into an array fails, with what the memory holds then. -/
inductive Fails (l : Legend Behaviour) (source : Elements) (target : Target) (w : Window) :
    Error → Cells → Prop
  /-- The windows do not fit. Nothing was written. -/
  | unplanned {e : Error} (plan : Transfer.plan source target w = .error e) :
      Fails l source target w e target.memory
  /-- A value has no owner. Nothing was written. -/
  | unowned {b : Transfer} {x : Binary64} (plan : Transfer.plan source target w = .ok b)
      (unowned : l.table.unowned? b.samples b.backward = some x) :
      Fails l source target w (.noCategory x) target.memory
  /-- Every value has an owner, but a run can not be converted. The runs before it were written. -/
  | interrupted {b : Transfer} {runs done rest : List Run} {r : Run} {e : Error} {after : Cells}
      (plan : Transfer.plan source target w = .ok b)
      (runs_eq : l.table.searchedRuns b.samples b.backward = .ok runs)
      (order : b.directed runs = done ++ r :: rest)
      (fails : l.pureRun r.position (b.segment r) = .error e)
      (written : l.Written b done target.memory after) : Fails l source target w e after

/-- Every failure of a conversion into an array is of this kind. -/
theorem fails_of_pureInto (hk : ∀ c ∈ l.categories, c.forward.KeepsLength)
    (hholds : target.Holds source) (h : l.pureInto source target w = (.error e, after)) :
    l.Fails source target w e after := by
  unfold pureInto at h
  cases hplan : Transfer.plan source target w with
  | error e' =>
    rw [hplan] at h
    obtain ⟨he, rfl⟩ := Prod.mk.inj h
    obtain rfl := Except.error.inj he
    exact .unplanned hplan
  | ok b =>
    rw [hplan] at h
    dsimp only at h
    split at h
    · cases h
    · unfold purePerform SearchTable.searchedRuns at h
      cases hunowned : l.table.unowned? b.samples b.backward with
      | some x =>
        rw [hunowned] at h
        obtain ⟨he, rfl⟩ := Prod.mk.inj h
        obtain rfl := Except.error.inj he
        exact .unowned hplan hunowned
      | none =>
        rw [hunowned] at h
        have hruns : l.table.searchedRuns b.samples b.backward =
            .ok (Run.ofPositions 0 ((l.table.locateAll b.samples).map Int.toNat)) := by
          rw [SearchTable.searchedRuns, hunowned]
        generalize Run.ofPositions 0 ((l.table.locateAll b.samples).map Int.toNat) = runs at h hruns
        have htile := (SearchTable.tile_searchedRuns hruns).1
        have hfits := Transfer.fits_of_plan hholds hplan
        -- The values of the runs are not overwritten before they are read, so they may as well be copied.
        have hfrozen : l.pureRuns b.frozen (b.directed runs) target.memory = (.error e, after) :=
          (pureRuns_directed hk hfits htile).symm.trans h
        obtain ⟨done, r, rest, horder, hdone, hfails⟩ := pureRuns_frozen_error hfrozen
        have hmem : ∀ q ∈ done, q ∈ b.directed runs := fun q hq => by
          rw [horder]
          exact List.mem_append_left _ hq
        have hdisjoint := Transfer.disjoint_directed (b := b) htile
        rw [horder] at hdisjoint
        exact .interrupted hplan hruns horder hfails (written_of_pureRuns hk
          (fun q hq => Transfer.bounds_of_mem_directed htile (hmem q hq)) hfits.target
          (List.pairwise_append.mp hdisjoint).1 hdone)

/-- The run at which a batch stops is one of its runs, so its first value is located at its category. -/
theorem exists_first {runs done rest : List Run} {r : Run}
    (hruns : l.table.searchedRuns b.samples b.backward = .ok runs)
    (horder : b.directed runs = done ++ r :: rest) :
    ∃ x ∈ b.samples, l.table.locate x = r.position := by
  obtain ⟨htile, hposition⟩ := SearchTable.tile_searchedRuns hruns
  have hmem : r ∈ b.directed runs := by
    rw [horder]
    exact List.mem_append_right _ List.mem_cons_self
  have hr : r ∈ runs := (SearchTable.mem_directed b.backward).mp hmem
  have hbounds := htile.bounds hr
  have hfirst := List.getElem?_eq_getElem (l := b.samples) (i := r.start) (by omega)
  exact ⟨_, List.mem_of_getElem? hfirst, hposition r hr r.start _ (Nat.le_refl _) hbounds.2.1 hfirst⟩

/-- A category that refuses nothing converts every run. -/
theorem pureRun_of_total {i : Nat} {c : Category Behaviour} (hc : l.categories[i]? = some c)
    (htotal : c.forward.Total) (xs : List Binary64) : ∃ results, l.pureRun i xs = .ok results := by
  obtain ⟨ys, hys⟩ := htotal.applyAll xs
  unfold pureRun
  simp only [hc, hys, bind, Except.bind]
  split <;> exact ⟨_, rfl⟩

/-- If the categories refuse nothing, a failure changes nothing. -/
theorem Fails.unchanged (h : l.Fails source target w e after) (ht : l.table.Ordered)
    (htotal : ∀ c ∈ l.categories, c.forward.Total) : after = target.memory := by
  cases h with
  | unplanned => rfl
  | unowned => rfl
  | interrupted _ hruns horder hfails _ =>
    exfalso
    obtain ⟨x, -, hlocate⟩ := exists_first hruns horder
    obtain ⟨c, hc⟩ := exists_category_of_lt (ht.locate_lt_length hlocate)
    obtain ⟨results, hresults⟩ := pureRun_of_total hc (htotal c (List.mem_of_getElem? hc)) _
    rw [hresults] at hfails
    cases hfails

/-- A window is converted if its values are located at categories that refuse nothing. -/
theorem pureInto_of_total (hk : ∀ c ∈ l.categories, c.forward.KeepsLength)
    (hholds : target.Holds source) (hplan : Transfer.plan source target w = .ok b)
    (hlocated : ∀ x ∈ b.samples, ∃ i c, l.table.locate x = (i : Nat) ∧ l.categories[i]? = some c
      ∧ c.forward.Total) : ∃ after, l.pureInto source target w = (.ok (), after) := by
  cases hinto : l.pureInto source target w with
  | mk outcome after =>
    cases outcome with
    | ok => exact ⟨after, rfl⟩
    | error e =>
      exfalso
      cases fails_of_pureInto hk hholds hinto with
      | unplanned hplan' =>
        rw [hplan] at hplan'
        cases hplan'
      | unowned hplan' hunowned =>
        obtain rfl := Except.ok.inj (hplan.symm.trans hplan')
        unfold SearchTable.unowned? at hunowned
        have hx := (SearchTable.mem_directed _).mp (List.mem_of_find?_eq_some hunowned)
        have hneg := List.find?_some hunowned
        rw [decide_eq_true_eq] at hneg
        obtain ⟨i, -, hlocate, -⟩ := hlocated _ hx
        omega
      | interrupted hplan' hruns horder hfails _ =>
        obtain rfl := Except.ok.inj (hplan.symm.trans hplan')
        obtain ⟨x, hx, hlocate⟩ := exists_first hruns horder
        obtain ⟨i, c, hi, hc, htotal⟩ := hlocated x hx
        obtain rfl := Int.ofNat.inj (hi.symm.trans hlocate)
        obtain ⟨results, hresults⟩ := pureRun_of_total hc htotal _
        rw [hresults] at hfails
        cases hfails

end Plain

/-! ### Built legends -/

variable {l : Legend Transform} {source : Elements} {target : Target} {w : Window} {hints : Hints}
  {after : Cells} {e : Error}

/-- A conversion into an array that fails leaves the memory as it was, or as the runs before the refused one
made it. The latter takes a category whose transform refuses values. -/
theorem convertInto_of_error (hl : l.IsBuilt) (hholds : target.Holds source)
    (h : ((l.convertInto source target w).run hints).1 = (.error e, after)) :
    l.active.Fails source target w e after
      ∧ ((∀ c ∈ l.categories, c.forward.Total) → after = target.memory) := by
  rw [hl.run_convertInto] at h
  have hfails := fails_of_pureInto hl.active_keepsLength hholds h
  refine ⟨hfails, fun htotal => hfails.unchanged hl.active_ordered fun c hc => ?_⟩
  obtain ⟨d, hd, rfl⟩ := mem_categories_map _ _ hc
  exact htotal d hd

/-- Twenty is no packed depth, so a window with it is refused, and the array keeps its zeros. -/
theorem convertInto_of_error_depths :
    let source : Elements := .real (.double [.two, .ofInt 20])
    let target : Target := ⟨.zeros .double 2, 0, 2, false, none⟩
    ∃ cs l after, depthCategories = .ok cs ∧ ofCategories 0 .default cs = .ok l ∧ l.IsBuilt
      ∧ target.Holds source ∧ (∀ c ∈ l.categories, c.forward.Total)
      ∧ ((l.convertInto source target .whole).run .empty).1 = (.error (.noCategory (.ofInt 20)), after)
      ∧ l.active.Fails source target .whole (.noCategory (.ofInt 20)) after
      ∧ after = target.memory := by
  intro source target
  have hpasses : passes 0 .default depthCategories (fun _ l =>
      ((l.convertInto source target .whole).run .empty).1.1 = .error (.noCategory (.ofInt 20))
        ∧ ∀ c ∈ l.categories, c.forward.isFunction = true) = true := by decide +kernel
  obtain ⟨cs, l, hcs, hl, hall⟩ := exists_of_passes hpasses
  obtain ⟨hrun, hfunction⟩ := of_decide_eq_true hall
  obtain ⟨hdeclared, haffine⟩ := of_depthCategories hcs
  have hbuilt := isBuilt_of_isAffine hdeclared haffine hl
  have hholds : target.Holds source := holds_zeros _ _ _
  have htotal : ∀ c ∈ l.categories, c.forward.Total := fun c hc =>
    Transform.total_of_isFunction (hbuilt.forward c hc) (hfunction c hc)
  obtain ⟨hfails, hunchanged⟩ := convertInto_of_error hbuilt hholds (Prod.ext hrun rfl)
  exact ⟨cs, l, _, hcs, hl, hbuilt, hholds, htotal, Prod.ext hrun rfl, hfails, hunchanged htotal⟩

/-- Shallow depths in meters, and packed ones that are converted by a legend. That legend leaves a gap which
its own category spans. -/
def gapCategories : Except Error (List (Category Transform)) := do
  let low ← Category.quantitative 1 "Low" (.bounds [.ofInt 20, .ofInt 22]) (some (.linear metersOfPacked)) none
  let high ← Category.quantitative 2 "High" (.bounds [.ofInt 28, .ofInt 30]) (some (.linear metersOfPacked)) none
  let nested ← ofCategories 3 .default [low, high]
  let shallow ← Category.quantitative 4 "Shallow" (.bounds [.zero, .ten]) none none
  let deep ← Category.quantitative 5 "Deep" (.bounds [.ofInt 20, .ofInt 30]) (some (.legend nested)) none
  return [shallow, deep]

/-- These categories are declared, and convert by built transforms. -/
theorem of_gapCategories {cs : List (Category Transform)} (h : gapCategories = .ok cs) :
    (∀ c ∈ cs, Category.IsDeclared c) ∧ ∀ c ∈ cs, c.forward.IsBuilt := by
  obtain ⟨low, hlow, h⟩ := exists_of_bind_eq_ok h
  obtain ⟨high, hhigh, h⟩ := exists_of_bind_eq_ok h
  obtain ⟨nested, hnested, h⟩ := exists_of_bind_eq_ok h
  obtain ⟨shallow, hshallow, h⟩ := exists_of_bind_eq_ok h
  obtain ⟨deep, hdeep, h⟩ := exists_of_bind_eq_ok h
  obtain rfl := Except.ok.inj h
  have hdeclared : ∀ c ∈ [low, high], Category.IsDeclared c := by
    simpa using ⟨Category.IsDeclared.quantitative hlow, Category.IsDeclared.quantitative hhigh⟩
  have haffine : ∀ c ∈ [low, high], c.forward.IsAffine := by
    simpa using ⟨Category.isAffine_of_quantitative hlow (by rintro _ ⟨⟩; exact .linear _),
      Category.isAffine_of_quantitative hhigh (by rintro _ ⟨⟩; exact .linear _)⟩
  have hbuilt := isBuilt_of_isAffine hdeclared haffine hnested
  have hforward := Category.isBuilt_of_quantitative hdeep hbuilt
  simp only [List.mem_cons, List.not_mem_nil, or_false, forall_eq_or_imp, forall_eq]
  exact ⟨⟨.quantitative hshallow, .quantitative hdeep⟩,
    (Category.isAffine_of_quantitative hshallow (by rintro _ ⟨⟩)).isBuilt, hforward⟩

/-- The value twenty-five lies in the gap. It has an owner, so the depth before it is written, and then the
conversion fails. -/
theorem convertInto_gap :
    let memory : Cells := .double [.ofInt (-7), .ofInt (-7)]
    ∃ cs l, gapCategories = .ok cs ∧ (∀ c ∈ cs, Category.IsDeclared c) ∧ (∀ c ∈ cs, c.forward.IsBuilt)
      ∧ ofCategories 0 .default cs = .ok l
      ∧ ((l.convertInto (.real (.double [.one, .ofInt 25])) ⟨memory, 0, 2, false, none⟩ .whole).run
          .empty).1 = (.error (.noCategory (.ofInt 25)), .double [.one, .ofInt (-7)])
      ∧ .double [.one, .ofInt (-7)] ≠ memory := by
  intro memory
  have hpasses : passes 0 .default gapCategories (fun _ l =>
      ((l.convertInto (.real (.double [.one, .ofInt 25])) ⟨memory, 0, 2, false, none⟩ .whole).run
        .empty).1 = (.error (.noCategory (.ofInt 25)), .double [.one, .ofInt (-7)])) = true := by
    decide +kernel
  obtain ⟨cs, l, hcs, hl, hrun⟩ := exists_of_passes hpasses
  obtain ⟨hdeclared, hbuilt⟩ := of_gapCategories hcs
  exact ⟨cs, l, hcs, hdeclared, hbuilt, hl, of_decide_eq_true hrun, by decide +kernel⟩

end Legend

end RasterCategories
