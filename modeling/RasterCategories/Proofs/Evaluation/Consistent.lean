import RasterCategories.Proofs.Evaluation.Pointwise
import RasterCategories.Proofs.Evaluation.Window
import RasterCategories.Proofs.Search.Repeated
/-!
# Legends that convert value by value

A batch classifies values by rank, cuts them into runs and confines the results of each run at once. If its
categories convert arrays value by value, a cell that it writes depends on its own value alone. If moreover no
two categories start at the same bits, the batch finds the category that the search finds, and the legend
itself converts arrays value by value.

* `Legend.cell_of_written`: a cell that a batch wrote, in terms of its value.
* `Legend.Consistent.pureInto_of_accepted` and `Legend.Consistent.accepted_of_pureInto`: a legend converts a
  window exactly if it converts each of its values.
* `Legend.Consistent.pointwise_behaviour`: as a transform, such a legend converts value by value.
-/

namespace RasterCategories

/-- Bounds that are NaNs confine nothing. -/
theorem Side.confine_of_key {s : Side} (hs : s.WellFormed) (hkey : s.interval = none) (x : Binary64) :
    s.confine x = x := by
  have hnan : s.low.isNaN = true := by
    rcases hs with ⟨-, hsome⟩ | ⟨hnan, -, -⟩
    · simp [hkey] at hsome
    · exact hnan
  have hlow : ¬ x < s.low := fun h => by simp [h.2.1] at hnan
  have hhigh : ¬ s.high < x := fun h => by
    rw [← hs.isNaN_high, h.1] at hnan
    cases hnan
  simp [confine, Binary64.confine, hlow, hhigh]

/-- The least value of a side is confined to itself. -/
theorem Side.confine_low {s : Side} (hs : s.WellFormed) : s.confine s.low = s.low := by
  rcases hs with ⟨hle, hsome⟩ | ⟨hnan, hsame, hnone⟩
  · have hlow : ¬ s.low < s.low := fun h => absurd h.2.2 (lt_irrefl _)
    have hhigh : ¬ s.high < s.low := fun h => absurd h.2.2 (not_lt.mpr hle.2.2)
    rw [confine, Binary64.confine, if_neg hlow, if_neg hhigh]
  · exact confine_of_key (.key hnan hsame hnone) hnone s.low

namespace SearchTable

variable {t : SearchTable} {x : Binary64}

/-- A value is located at a position if the search finds that owner. -/
theorem Ordered.locate_eq_iff (ht : t.Ordered) (honce : t.LeastOnce x) {i : Nat} :
    t.locate x = i ↔ t.owner? x = some i := by
  rw [ht.locate_eq honce]
  cases t.owner? x with
  | none => simp
  | some j =>
    rw [Option.elim_some, Option.some_inj]
    omega

/-- Values are located at sides of the table. -/
theorem Ordered.locate_lt_length (ht : t.Ordered) {i : Nat} (h : t.locate x = i) :
    i < t.sides.length := by
  have hlocates := ht.locates_locate x
  cases howner : t.owner? x with
  | none =>
    have := hlocates.none.mpr howner
    omega
  | some j =>
    by_cases heq : t.locate x = j
    · obtain rfl : i = j := by omega
      exact ht.owner?_lt_length howner
    · obtain ⟨-, -, k, hk, -, hlow, -⟩ := hlocates.last j howner heq
      obtain ⟨s, hs, -⟩ := getElem?_lows.mp hlow
      obtain rfl : i = k := by omega
      exact (List.getElem?_eq_some_iff.mp hs).1

end SearchTable

namespace Legend

variable {l : Legend Behaviour} {c : Category Behaviour} {x y : Binary64} {i : Nat} {w : Width}

/-! ### One value and one run -/

/-- The category of a side of the table. -/
theorem exists_category_of_lt (h : i < l.table.sides.length) : ∃ c, l.categories[i]? = some c := by
  rw [table, List.length_map] at h
  exact ⟨_, List.getElem?_eq_getElem h⟩

theorem exists_category (ht : l.table.Ordered) (howner : l.table.owner? x = some i) :
    ∃ c, l.categories[i]? = some c :=
  exists_category_of_lt (ht.owner?_lt_length howner)

theorem pureValue_of_owner?_none (howner : l.table.owner? x = none) :
    l.pureValue x = .error (.noCategory x) := by
  unfold pureValue pureOwner
  rw [howner]
  rfl

/-- What the owner of a value fails to convert is refused. -/
theorem pureValue_of_owner?_error {e : Error} (howner : l.table.owner? x = some i)
    (hc : l.categories[i]? = some c) (he : (c.forward.apply x).fresh = .error e) :
    l.pureValue x = .error e := by
  unfold pureValue
  rw [pureOwner_of_owner? howner hc]
  change ((c.forward.apply x).fresh >>= _ : Except Error Binary64) = _
  rw [he]
  rfl

/-- A run gives for each value what its conversion gives. -/
theorem pureRun_of_accepted (hc : l.categories[i]? = some c) (hwf : c.converseSide.WellFormed)
    (hf : c.forward.Pointwise .double) {xs ys : List Binary64}
    (hys : List.Forall₂ (fun x y => (c.forward.apply x).fresh = .ok y) xs ys) :
    l.pureRun i xs = .ok (.double (ys.map (l.settle c))) := by
  unfold pureRun
  rw [hc]
  change ((c.forward.applyAll xs).fresh >>= _ : Except Error Cells) = _
  rw [hf.accepted hys]
  change (if l.table.top?.isSome && c.converseSide.interval.isSome then
    Except.ok (Cells.clip c.converseSide.low c.converseSide.high (.double ys))
    else .ok (.double ys)) = _
  -- A run skips the confining where the other side is keyed by a NaN; there it would change nothing.
  unfold settle
  cases htop : l.table.top?.isSome with
  | false =>
    rw [Bool.false_and, if_neg Bool.false_ne_true]
    simp
  | true =>
    cases hinterval : c.converseSide.interval with
    | some r => rfl
    | none => simp [Side.confine_of_key hwf hinterval]

/-- A run is converted if each of its values is. -/
theorem of_pureRun (hc : l.categories[i]? = some c) (hf : c.forward.Pointwise .double)
    {xs : List Binary64} {results : Cells} (h : l.pureRun i xs = .ok results) :
    ∃ ys, List.Forall₂ (fun x y => (c.forward.apply x).fresh = .ok y) xs ys := by
  obtain ⟨d, converted, hd, hconverted, -⟩ := pureRun_ok h
  obtain rfl := Option.some.inj (hc.symm.trans hd)
  obtain ⟨ys, hys, -⟩ := hf.of_applyAll hconverted
  exact ⟨ys, hys⟩

/-! ### Cells -/

variable {b : Transfer} {runs : List Run} {r : Run} {memory after : Cells} {k : Nat}

/-- A written cell holds what the category converts to at which its value is located. -/
theorem cell_of_written (hwritten : l.Written b runs memory after)
    (hruns : l.table.searchedRuns b.samples b.backward = .ok runs) (hx : b.samples[k]? = some x)
    (hlocate : l.table.locate x = i) (hc : l.categories[i]? = some c)
    (hwf : c.converseSide.WellFormed) (hf : c.forward.Pointwise .double)
    (hy : (c.forward.apply x).fresh = .ok y) :
    after.cell? (b.target + k) = some (Cell.toWidth memory.width (.double (l.settle c y))) := by
  have htile := SearchTable.tile_searchedRuns hruns
  -- The value lies in some run, which stands at the position at which it is located.
  have hk := (List.getElem?_eq_some_iff.mp hx).1
  obtain ⟨r, hr, hstart, hstop⟩ := htile.1.cover (Nat.zero_le k) hk
  obtain rfl : r.position = i := Int.ofNat.inj ((htile.2 r hr k x hstart hstop hx).symm.trans hlocate)
  obtain ⟨results, hresults, hcells⟩ := hwritten.inside r hr
  obtain ⟨ys, hys⟩ := of_pureRun hc hf hresults
  rw [pureRun_of_accepted hc hwf hf hys] at hresults
  obtain rfl := Except.ok.inj hresults
  obtain ⟨z, hz, hxz⟩ := getElem?_of_forall₂ hys ((Transfer.getElem?_segment hstart hstop).trans hx)
  obtain rfl := Except.ok.inj (hy.symm.trans hxz)
  rw [hcells k hstart hstop, Cells.cell?_double, List.getElem?_map, hz]
  rfl

/-! ### Legends that convert value by value -/

/-- What a legend needs to convert arrays value by value: no least value repeats, returns are not verified, and
the categories convert value by value. -/
structure Consistent (l : Legend Behaviour) : Prop where
  ordered : l.table.Ordered
  nodup : l.table.lows.Nodup
  verify : l.config.verifyReturn = false
  sides : ∀ c ∈ l.categories, c.converseSide.WellFormed
  pointwise : ∀ c ∈ l.categories, c.forward.Pointwise .double

namespace Consistent

variable {source : Elements} {target : Target} {window : Window}

theorem keepsLength (hl : l.Consistent) : ∀ c ∈ l.categories, c.forward.KeepsLength :=
  fun c hc => (hl.pointwise c hc).keepsLength

/-- What a value is converted to, if it is. -/
theorem pureValue_eq_ok_iff (hl : l.Consistent) : l.pureValue x = .ok y ↔
    ∃ i c z, l.table.locate x = (i : Nat) ∧ l.categories[i]? = some c
      ∧ (c.forward.apply x).fresh = .ok z ∧ y = l.settle c z := by
  have honce := SearchTable.leastOnce_of_nodup hl.nodup x
  constructor
  · intro h
    cases howner : l.table.owner? x with
    | none =>
      rw [pureValue_of_owner?_none howner] at h
      cases h
    | some i =>
      obtain ⟨c, hc⟩ := exists_category hl.ordered howner
      cases hz : (c.forward.apply x).fresh with
      | error e =>
        rw [pureValue_of_owner?_error howner hc hz] at h
        cases h
      | ok z =>
        rw [pureValue_of_owner? howner hc hz, hl.verify] at h
        exact ⟨i, c, z, (hl.ordered.locate_eq_iff honce).mpr howner, hc, hz, (Except.ok.inj h).symm⟩
  · rintro ⟨i, c, z, hlocate, hc, hz, rfl⟩
    rw [pureValue_of_owner? ((hl.ordered.locate_eq_iff honce).mp hlocate) hc hz, hl.verify]
    rfl

/-- Values that are all accepted are cut into runs, and each run can be converted. -/
theorem exists_runs (hl : l.Consistent) (haccepted : ∀ x ∈ b.samples, ∃ y, l.pureValue x = .ok y) :
    ∃ runs, l.table.searchedRuns b.samples b.backward = .ok runs ∧
      ∀ r ∈ runs, ∃ results, l.pureRun r.position (b.segment r) = .ok results := by
  have hnone : l.table.unowned? b.samples b.backward = none := by
    refine SearchTable.unowned?_eq_none_iff.mpr fun x hx => ?_
    obtain ⟨y, hy⟩ := haccepted x hx
    obtain ⟨i, -, -, hlocate, -⟩ := hl.pureValue_eq_ok_iff.mp hy
    omega
  have hruns : l.table.searchedRuns b.samples b.backward =
      .ok (Run.ofPositions 0 ((l.table.locateAll b.samples).map Int.toNat)) := by
    rw [SearchTable.searchedRuns, hnone]
  refine ⟨_, hruns, fun r hr => ?_⟩
  obtain ⟨htile, hposition⟩ := SearchTable.tile_searchedRuns hruns
  -- The category at the position of the run converts each of its values.
  have hconverts : ∀ (j : Nat) (x : Binary64), (b.segment r)[j]? = some x →
      ∃ c y, l.categories[r.position]? = some c ∧ (c.forward.apply x).fresh = .ok y := by
    intro j x hx
    have hj := (List.getElem?_eq_some_iff.mp hx).1
    rw [Transfer.length_segment (htile.bounds hr).2.2] at hj
    rw [show j = r.start + j - r.start by omega,
      Transfer.getElem?_segment (by omega) (by omega)] at hx
    obtain ⟨y, hy⟩ := haccepted x (List.mem_of_getElem? hx)
    obtain ⟨i, c, z, hlocate, hc, hz, -⟩ := hl.pureValue_eq_ok_iff.mp hy
    have heq := (hposition r hr (r.start + j) x (by omega) (by omega) hx).symm.trans hlocate
    obtain rfl : r.position = i := Int.ofNat.inj heq
    exact ⟨c, z, hc, hz⟩
  have hbounds := htile.bounds hr
  have hfirst := List.getElem?_eq_getElem (l := b.segment r) (i := 0) (by
    rw [Transfer.length_segment hbounds.2.2]
    omega)
  obtain ⟨c, -, hc, -⟩ := hconverts 0 _ hfirst
  have hmem := List.mem_of_getElem? hc
  rcases accepted_or_refused (fun x => (c.forward.apply x).fresh) (b.segment r) with
    ⟨ys, hys⟩ | ⟨x, hx, e, he⟩
  · exact ⟨_, pureRun_of_accepted hc (hl.sides c hmem) (hl.pointwise c hmem) hys⟩
  · obtain ⟨j, hj⟩ := List.mem_iff_getElem?.mp hx
    obtain ⟨d, y, hd, hy⟩ := hconverts j x hj
    obtain rfl := Option.some.inj (hc.symm.trans hd)
    rw [he] at hy
    cases hy

/-- If all values of a window are accepted one by one, the window is converted, each value as by itself. -/
theorem pureInto_of_accepted (hl : l.Consistent) (hholds : target.Holds source)
    (hseparate : target.sourceStart = none) (hplan : Transfer.plan source target window = .ok b)
    (haccepted : ∀ x ∈ b.samples, ∃ y, l.pureValue x = .ok y) :
    ∃ after, l.pureInto source target window = (.ok (), after)
      ∧ after.width = target.memory.width ∧ after.size = target.memory.size
      ∧ (∀ (k : Nat) (x y : Binary64), b.samples[k]? = some x → l.pureValue x = .ok y →
          after.cell? (b.target + k) = some (Cell.toWidth target.memory.width (.double y)))
      ∧ ∀ i, i < b.target ∨ b.target + b.samples.length ≤ i →
          after.cell? i = target.memory.cell? i := by
  obtain ⟨runs, hruns, hconvert⟩ := hl.exists_runs haccepted
  obtain ⟨after, hinto⟩ :=
    pureInto_ok hplan (Transfer.live_of_plan hplan hseparate) hruns hconvert
  obtain ⟨b', runs', hplan', hruns', hwritten⟩ := written_of_pureInto hl.keepsLength hholds hinto
  obtain rfl := Except.ok.inj (hplan.symm.trans hplan')
  obtain rfl := Except.ok.inj (hruns.symm.trans hruns')
  refine ⟨after, hinto, hwritten.width, hwritten.size, fun k x y hx hy => ?_, fun i hi => ?_⟩
  · obtain ⟨i, c, z, hlocate, hc, hz, rfl⟩ := hl.pureValue_eq_ok_iff.mp hy
    have hmem := List.mem_of_getElem? hc
    exact cell_of_written hwritten hruns hx hlocate hc (hl.sides c hmem) (hl.pointwise c hmem) hz
  · refine hwritten.outside i fun r hr => ?_
    have hbounds := (SearchTable.tile_searchedRuns hruns).1.bounds hr
    omega

/-- If a window is converted, each of its values is accepted by itself. -/
theorem accepted_of_pureInto (hl : l.Consistent) (hholds : target.Holds source)
    (hplan : Transfer.plan source target window = .ok b)
    (h : l.pureInto source target window = (.ok (), after)) (hx : x ∈ b.samples) :
    ∃ y, l.pureValue x = .ok y := by
  obtain ⟨b', runs, hplan', hruns, hwritten⟩ := written_of_pureInto hl.keepsLength hholds h
  obtain rfl := Except.ok.inj (hplan.symm.trans hplan')
  obtain ⟨htile, hposition⟩ := SearchTable.tile_searchedRuns hruns
  obtain ⟨k, hk⟩ := List.mem_iff_getElem?.mp hx
  obtain ⟨r, hr, hstart, hstop⟩ := htile.cover (Nat.zero_le k) (List.getElem?_eq_some_iff.mp hk).1
  have hlocate := hposition r hr k x hstart hstop hk
  obtain ⟨c, hc⟩ := exists_category_of_lt (hl.ordered.locate_lt_length hlocate)
  obtain ⟨results, hresults, -⟩ := hwritten.inside r hr
  obtain ⟨ys, hys⟩ := of_pureRun hc (hl.pointwise c (List.mem_of_getElem? hc)) hresults
  obtain ⟨z, -, hz⟩ := getElem?_of_forall₂ hys ((Transfer.getElem?_segment hstart hstop).trans hk)
  exact ⟨_, hl.pureValue_eq_ok_iff.mpr ⟨r.position, c, z, hlocate, hc, hz, rfl⟩⟩

/-! ### New arrays -/

/-- The whole of an array fits into a new one. -/
theorem plan_whole (w : Width) (xs : List Binary64) : Transfer.plan (.real (.double xs))
    ⟨.zeros w xs.length, 0, xs.length, false, none⟩ .whole = .ok ⟨xs, none, 0⟩ := by
  have hsource := Window.checkSource_whole (Elements.real (.double xs)).size
  have htarget : Window.whole.checkTarget (Elements.real (.double xs)).size xs.length = .ok 0 :=
    Window.checkTarget_whole (Nat.le_refl _)
  rw [Transfer.plan_eq hsource htarget rfl, List.drop_zero, Cells.width_zeros]
  have htake : ((Elements.real (.double xs)).toDoubles).take (Elements.real (.double xs)).size = xs :=
    List.take_length
  rw [htake]
  cases w <;> rfl

/-- A whole array is converted into a new one of its size. -/
theorem pureNew_whole (l : Legend Behaviour) (xs : List Binary64) :
    l.pureNew (.real (.double xs)) .whole =
      match l.pureInto (.real (.double xs))
          ⟨.zeros l.config.outputWidth xs.length, 0, xs.length, false, none⟩ .whole with
      | (.ok (), memory) => .ok memory
      | (.error e, _) => .error e := by
  have hsize : ((xs.length : Int) + Window.whole.targetOffset) = xs.length := Int.add_zero _
  unfold pureNew
  rw [Window.checkSource_whole]
  simp only [Elements.size, Cells.size, bind, Except.bind, hsize]
  rw [Int.toNat_natCast]
  exact if_neg (by omega)

/-- A legend converts whole arrays value by value, and stores the results at its own width. -/
theorem pointwise_behaviour (hl : l.Consistent) (hi : ∀ c ∈ l.categories, c.forward.IgnoresHints) :
    l.behaviour.Pointwise l.config.outputWidth where
  accepted := by
    intro xs ys hys
    change (l.evaluateNew (.real (.double xs)) .whole).fresh = _
    rw [(evaluateNew_yields hl.ordered hi _ _).fresh_eq, pureNew_whole]
    have hvalue : List.Forall₂ (fun x y => l.pureValue x = .ok y) xs ys := hys.imp fun x y hy =>
      (evaluate_yields hl.ordered hi x).fresh_eq.symm.trans hy
    obtain ⟨after, hinto, hwidth, hsize, hcells, -⟩ := hl.pureInto_of_accepted (holds_zeros _ _ _) rfl
      (plan_whole l.config.outputWidth xs) fun x hx => by
        obtain ⟨k, hk⟩ := List.mem_iff_getElem?.mp hx
        obtain ⟨y, -, hy⟩ := getElem?_of_forall₂ hvalue hk
        exact ⟨y, hy⟩
    rw [hinto]
    rw [Cells.width_zeros] at hwidth hcells
    rw [Cells.size_zeros] at hsize
    refine congrArg Except.ok (Cells.ext_cell? (hwidth.trans (Cells.width_rounded _ ys).symm) fun i => ?_)
    rw [Cells.cell?_rounded]
    cases hx : xs[i]? with
    | none =>
      have hlen := List.getElem?_eq_none_iff.mp hx
      rw [Cells.cell?_eq_none (by omega), List.getElem?_eq_none (by rw [← hys.length_eq]; exact hlen)]
      rfl
    | some x =>
      obtain ⟨y, hyi, hy⟩ := getElem?_of_forall₂ hvalue hx
      rw [hyi, Option.map_some, ← hcells i x y hx hy, Nat.zero_add]
  refused := by
    intro xs x e hx he
    change ∃ e', (l.evaluateNew (.real (.double xs)) .whole).fresh = .error e'
    rw [(evaluateNew_yields hl.ordered hi _ _).fresh_eq, pureNew_whole]
    change (l.evaluate x).fresh = _ at he
    rw [(evaluate_yields hl.ordered hi x).fresh_eq] at he
    generalize hresult : l.pureInto _ _ _ = result
    obtain ⟨outcome, after⟩ := result
    cases outcome with
    | error e' => exact ⟨e', rfl⟩
    | ok =>
      obtain ⟨y, hy⟩ := hl.accepted_of_pureInto (holds_zeros _ _ _) (plan_whole _ xs) hresult hx
      rw [he] at hy
      cases hy

end Consistent

end Legend

end RasterCategories
