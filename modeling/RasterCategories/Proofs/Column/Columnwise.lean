import Mathlib.Data.List.Nodup
import RasterCategories.Column.Conversion
import RasterCategories.Proofs.Conversion.Batch
/-!
# Frames are converted column by column

The selected columns of a frame are converted one after the other with one legend, which remembers owners from column
to column. If the categories of the legend convert value by value, none of this shows: each selected column holds what
its values give one by one, however often it is selected, and all else is as it was. If a value is refused, the
conversion fails with the first such value of the first selected column that has one.

* `Legend.convertNew_of_accepted` and `Legend.convertNew_of_refused`: a whole array.
* `Frame.convertNamed_of_accepted` and `Frame.convertNamed_of_refused`: columns one after the other.
* `Frame.convert_columnwise`: the conversion of a frame, in terms of the conversions of its values.
-/

namespace RasterCategories

/-- The first element without a property. -/
theorem exists_first_of_not_forall {α : Type} {p : α → Prop} {as : List α} (h : ¬ ∀ a ∈ as, p a) :
    ∃ (i : Nat) (a : α), as[i]? = some a ∧ ¬ p a ∧ ∀ j < i, ∀ b, as[j]? = some b → p b := by
  induction as with
  | nil => exact absurd (fun a ha => nomatch ha) h
  | cons a as ih =>
    by_cases ha : p a
    · obtain ⟨i, b, hb, hnot, hbefore⟩ := ih fun hall => h (List.forall_mem_cons.mpr ⟨ha, hall⟩)
      refine ⟨i + 1, b, hb, hnot, fun j hj c hc => ?_⟩
      cases j with
      | zero =>
        obtain rfl := Option.some.inj hc
        exact ha
      | succ j => exact hbefore j (by omega) c hc
    · exact ⟨0, a, rfl, ha, fun j hj => absurd hj (Nat.not_lt_zero j)⟩

/-! ### Whole arrays -/

section Arrays

variable {one : Binary64 → Except Error Binary64} {xs ys : List Binary64} {x : Binary64}

/-- The value is refused by itself, and each one before it is accepted. -/
def FirstRefused (one : Binary64 → Except Error Binary64) (xs : List Binary64) (x : Binary64) : Prop :=
  ∃ k : Nat, xs[k]? = some x ∧ (¬ ∃ y, one x = .ok y)
    ∧ ∀ j < k, ∀ z, xs[j]? = some z → ∃ y, one z = .ok y

/-- Values that are all accepted have results. -/
theorem exists_results (h : ∀ x ∈ xs, ∃ y, one x = .ok y) :
    ∃ ys, List.Forall₂ (fun x y => one x = .ok y) xs ys := by
  rcases accepted_or_refused one xs with hys | ⟨x, hx, e, he⟩
  · exact hys
  · obtain ⟨y, hy⟩ := h x hx
    rw [he] at hy
    cases hy

namespace Legend

variable {l : Legend Transform}

/-- A new array holds the results of its values, stored at the width of the legend. -/
theorem convertNew_of_accepted (hl : l.IsBuilt) (hverify : l.config.verifyReturn = false)
    (hnodup : l.table.lows.Nodup) (helementwise : ∀ c ∈ l.categories, c.forward.Elementwise)
    (hys : List.Forall₂ (fun x y => l.active.pureValue x = .ok y) xs ys) :
    (l.convertNew (.real (.double xs)) .whole).Yields (.ok (.rounded l.config.outputWidth ys)) := by
  have hconsistent := (hl.uniform hverify hnodup helementwise).consistent
  have hone := evaluate_yields hl.active_ordered hl.active_ignoresHints
  have hnew := evaluateNew_yields hl.active_ordered hl.active_ignoresHints (.real (.double xs)) .whole
  have hresult : (l.active.behaviour.applyAll xs).fresh = .ok (.rounded l.config.outputWidth ys) :=
    (hconsistent.pointwise_behaviour hl.active_ignoresHints).accepted
      (hys.imp fun x y hy => (hone x).fresh_eq.trans hy)
  rwa [← hnew.fresh_eq, hnew.fresh_eq.symm.trans hresult] at hnew

/-- If a value is refused, no array is made and the first such value is reported. -/
theorem convertNew_of_refused (hl : l.IsBuilt) (hverify : l.config.verifyReturn = false)
    (hnodup : l.table.lows.Nodup) (helementwise : ∀ c ∈ l.categories, c.forward.Elementwise)
    (hrefused : ¬ ∀ x ∈ xs, ∃ y, l.active.pureValue x = .ok y) :
    ∃ x, FirstRefused l.active.pureValue xs x
      ∧ (l.convertNew (.real (.double xs)) .whole).Yields (.error (.noCategory x)) := by
  have huniform := hl.uniform hverify hnodup helementwise
  obtain ⟨k, x, hk, hx, hbefore, hinto⟩ := huniform.pureInto_of_refused rfl
    (Consistent.plan_whole l.active.config.outputWidth xs) hrefused
  have hnew := evaluateNew_yields hl.active_ordered hl.active_ignoresHints (.real (.double xs)) .whole
  rw [Consistent.pureNew_whole, hinto] at hnew
  exact ⟨x, ⟨k, hk, hx, hbefore⟩, hnew⟩

end Legend

/-- Numbers of full width, as the values of a column. -/
def ColumnData.numbers (xs : List Binary64) : ColumnData := .stored (.real (.double xs))

@[simp]
theorem ColumnData.numbers_inj : numbers xs = numbers ys ↔ xs = ys := by
  simp [numbers]

/-- A column of numbers is converted as one array. -/
theorem ColumnData.convert_numbers {l : Legend Transform} {r : Except Error Cells}
    (h : (l.convertNew (.real (.double xs)) .whole).Yields r) :
    ((numbers xs).convert l).Yields (r.map fun cells => .stored (.real cells)) := by
  have hconvert : ((numbers xs).convert l).Yields
      (r >>= fun cells => .ok (ColumnData.stored (.real cells))) :=
    (Eval.yields_lift _).bind (r := Except.ok (Elements.real (.double xs)))
      (g := fun _ => r >>= fun cells => .ok (ColumnData.stored (.real cells)))
      fun elements helements => by
        obtain rfl := Except.ok.inj helements
        exact h.bind fun cells _ => Eval.yields_pure _
  cases r <;> exact hconvert

end Arrays

/-! ### Columns one after the other -/

namespace Frame

variable {ι : Type} {f g : Frame ι} {l : Legend Transform} {c : Column} {names done : List String}
  {data : Column → ColumnData}

theorem convertNamed_cons (f : Frame ι) (l : Legend Transform) (name : String) (names : List String) (g : Frame ι) :
    f.convertNamed l (name :: names) g
      = f.convertColumn l name >>= fun data => f.convertNamed l names (g.setColumn name data) :=
  rfl

/-- The column of a name is found, if no name repeats. -/
theorem convertColumn_of_mem (hnames : (f.columns.map Column.name).Nodup) (hc : c ∈ f.columns) :
    f.convertColumn l c.name = c.data.convert l := by
  unfold convertColumn column
  cases hfind : f.columns.find? fun d => d.name == c.name with
  | none => exact absurd (List.find?_eq_none.mp hfind c hc) (by simp)
  | some d =>
    have hname : d.name = c.name := by simpa using List.find?_some hfind
    rw [List.inj_on_of_nodup_map hnames (List.mem_of_find?_eq_some hfind) hc hname]
    rfl

/-- The frame with new data in the columns of some names. -/
def withData (f : Frame ι) (names : List String) (data : Column → ColumnData) : Frame ι :=
  { f with columns := f.columns.map fun c => if c.name ∈ names then { c with data := data c } else c }

theorem withData_nil : f.withData [] data = f := by
  simp [withData]

/-- Setting one more column, or one of them again. -/
theorem setColumn_withData (hnames : (f.columns.map Column.name).Nodup) (hc : c ∈ f.columns) :
    (f.withData done data).setColumn c.name (data c) = f.withData (c.name :: done) data := by
  unfold setColumn withData
  congr 1
  rw [List.map_map]
  refine List.map_congr_left fun d hd => ?_
  rw [Function.comp_apply]
  by_cases hname : d.name = c.name
  · obtain rfl := List.inj_on_of_nodup_map hnames hd hc hname
    by_cases hdone : d.name ∈ done <;> simp [hdone]
  · by_cases hdone : d.name ∈ done <;> simp [hname, hdone]

/-- If each named column can be converted, all of them are, and the others are kept. -/
theorem convertNamed_of_accepted (hnames : (f.columns.map Column.name).Nodup)
    (hexist : ∀ name ∈ names, ∃ c ∈ f.columns, c.name = name) (done : List String)
    (hconvert : ∀ c ∈ f.columns, c.name ∈ names → (c.data.convert l).Yields (.ok (data c))) :
    (f.convertNamed l names (f.withData done data)).Yields (.ok (f.withData (names.reverse ++ done) data)) := by
  induction names generalizing done with
  | nil => exact Eval.yields_pure _
  | cons name names ih =>
    obtain ⟨c, hc, rfl⟩ := hexist name List.mem_cons_self
    have hrest := ih (fun n hn => hexist n (List.mem_cons_of_mem _ hn)) (c.name :: done)
      fun d hd hn => hconvert d hd (List.mem_cons_of_mem _ hn)
    rw [← setColumn_withData hnames hc] at hrest
    rw [List.reverse_cons, List.append_assoc, List.singleton_append]
    -- The column is read from the given frame, so it does not matter which columns were set before.
    rw [convertNamed_cons, convertColumn_of_mem hnames hc]
    refine (hconvert c hc List.mem_cons_self).bind (g := fun _ => .ok _) fun e he => ?_
    obtain rfl := Except.ok.inj he
    exact hrest

/-- The first column that can not be converted decides the error. -/
theorem convertNamed_of_refused {i : Nat} {e : Error} (hnames : (f.columns.map Column.name).Nodup)
    (hexist : ∀ name ∈ names, ∃ c ∈ f.columns, c.name = name)
    (hbefore : ∀ j < i, ∀ d ∈ f.columns, names[j]? = some d.name → ∃ data, (d.data.convert l).Yields (.ok data))
    (hc : c ∈ f.columns) (hi : names[i]? = some c.name) (hrefused : (c.data.convert l).Yields (.error e)) :
    (f.convertNamed l names g).Yields (.error e) := by
  induction names generalizing i g with
  | nil => cases hi
  | cons name names ih =>
    obtain ⟨d, hd, rfl⟩ := hexist name List.mem_cons_self
    rw [convertNamed_cons, convertColumn_of_mem hnames hd]
    cases i with
    | zero =>
      obtain rfl := List.inj_on_of_nodup_map hnames hd hc (Option.some.inj hi)
      exact hrefused.bind (g := fun _ => .error e) fun data hdata => nomatch hdata
    | succ i =>
      obtain ⟨data, hdata⟩ := hbefore 0 (Nat.succ_pos i) d hd rfl
      refine hdata.bind (g := fun _ => .error e) fun data' _ => ?_
      exact ih (fun n hn => hexist n (List.mem_cons_of_mem _ hn))
        (fun j hj => hbefore (j + 1) (Nat.succ_lt_succ hj)) hi

/-! ### The conversion of a frame -/

/-- Every value in the columns of a name is accepted by itself. -/
def Accepts (f : Frame ι) (one : Binary64 → Except Error Binary64) (name : String) : Prop :=
  ∀ c ∈ f.columns, c.name = name → ∀ xs, c.data = .numbers xs → ∀ x ∈ xs, ∃ y, one x = .ok y

/-- Both frames have the same index and the same columns in the same order, except that the named columns of the
second one hold the results of the values of the first one, stored at a width. -/
structure Converted (one : Binary64 → Except Error Binary64) (w : Width) (names : List String)
    (f g : Frame ι) : Prop where
  index : g.index = f.index
  columns : List.Forall₂ (fun c d => d.name = c.name ∧ (c.name ∉ names → d = c)
    ∧ (c.name ∈ names → ∃ xs ys, c.data = .numbers xs ∧ List.Forall₂ (fun x y => one x = .ok y) xs ys
      ∧ d.data = .stored (.real (.rounded w ys)))) f.columns g.columns

/-- What is asked of the conversion of named columns, in terms of the conversions of their values. -/
structure Columnwise (one : Binary64 → Except Error Binary64) (w : Width) (names : List String) (f : Frame ι)
    (result : Except Error (Frame ι)) : Prop where
  /-- If all values of the named columns are accepted, these columns are converted, and all else is kept. -/
  accepted : (∀ name ∈ names, f.Accepts one name) → ∃ g, result = .ok g ∧ Converted one w names f g
  /-- Otherwise the first refused value of the first named column that has one is reported. -/
  refused : (¬ ∀ name ∈ names, f.Accepts one name) →
    ∃ (i : Nat) (c : Column) (xs : List Binary64) (x : Binary64), names[i]? = some c.name ∧ c ∈ f.columns
      ∧ c.data = .numbers xs ∧ FirstRefused one xs x
      ∧ (∀ j < i, ∀ name, names[j]? = some name → f.Accepts one name) ∧ result = .error (.noCategory x)

/-- The selected columns are converted, if there are any. -/
theorem convert_some (hne : names ≠ []) : f.convert l (some names) = f.convertNamed l names f := by
  cases names with
  | nil => exact absurd rfl hne
  | cons => rfl

/-- Setting the results of accepted columns converts them. -/
theorem converted_withData {one : Binary64 → Except Error Binary64} {w : Width}
    (hdata : ∀ c ∈ f.columns, c.name ∈ names → ∃ xs ys, c.data = .numbers xs
      ∧ List.Forall₂ (fun x y => one x = .ok y) xs ys ∧ data c = .stored (.real (.rounded w ys))) :
    Converted one w names f (f.withData names data) where
  index := rfl
  columns := by
    refine List.forall₂_map_right_iff.mpr (List.forall₂_same.mpr fun c hc => ?_)
    by_cases hname : c.name ∈ names
    · rw [if_pos hname]
      exact ⟨rfl, fun hnot => absurd hname hnot, fun _ => hdata c hc hname⟩
    · rw [if_neg hname]
      exact ⟨rfl, fun _ => rfl, fun hmem => absurd hmem hname⟩

/-- Columns count as named in any order. -/
theorem withData_reverse : f.withData names.reverse data = f.withData names data := by
  simp [withData]

/-- A frame of numbers is converted column by column, whatever the hints. -/
theorem convert_columnwise (hl : l.IsBuilt) (hverify : l.config.verifyReturn = false)
    (hnodup : l.table.lows.Nodup) (helementwise : ∀ c ∈ l.categories, c.forward.Elementwise)
    (hnames : (f.columns.map Column.name).Nodup) (hnumbers : ∀ c ∈ f.columns, ∃ xs, c.data = .numbers xs)
    (hne : names ≠ []) (hexist : ∀ name ∈ names, ∃ c ∈ f.columns, c.name = name) (hints : Hints) :
    Columnwise l.active.pureValue l.config.outputWidth names f ((f.convert l (some names)).run hints).1 := by
  rw [convert_some hne]
  have haccepted : ∀ c ∈ f.columns, f.Accepts l.active.pureValue c.name → ∃ data xs ys,
      (c.data.convert l).Yields (.ok data) ∧ c.data = .numbers xs
        ∧ List.Forall₂ (fun x y => l.active.pureValue x = .ok y) xs ys
        ∧ data = .stored (.real (.rounded l.config.outputWidth ys)) := by
    intro c hc haccepts
    obtain ⟨xs, hxs⟩ := hnumbers c hc
    obtain ⟨ys, hys⟩ := exists_results (haccepts c hc rfl xs hxs)
    refine ⟨_, xs, ys, ?_, hxs, hys, rfl⟩
    rw [hxs]
    exact ColumnData.convert_numbers (l.convertNew_of_accepted hl hverify hnodup helementwise hys)
  refine ⟨fun hall => ?_, fun hnot => ?_⟩
  · have : Nonempty ColumnData := ⟨.mixed []⟩
    choose! data hdata using haccepted
    have hnamed := fun c hc hname => hdata c hc (hall c.name hname)
    have hconvert := convertNamed_of_accepted hnames hexist [] fun c hc hname => by
      obtain ⟨xs, ys, hyields, -⟩ := hnamed c hc hname
      exact hyields
    rw [withData_nil, List.append_nil, withData_reverse] at hconvert
    refine ⟨_, hconvert hints, converted_withData fun c hc hname => ?_⟩
    obtain ⟨xs, ys, -, hresults⟩ := hnamed c hc hname
    exact ⟨xs, ys, hresults⟩
  · obtain ⟨i, name, hi, hrefused, hbefore⟩ := exists_first_of_not_forall hnot
    obtain ⟨c, hc, rfl⟩ := hexist name (List.mem_of_getElem? hi)
    obtain ⟨xs, hxs⟩ := hnumbers c hc
    -- Only this column has the name, so it is the one that holds a refused value.
    have hvalue : ¬ ∀ x ∈ xs, ∃ y, l.active.pureValue x = .ok y := by
      refine fun hvalues => hrefused fun d hd hname zs hzs => ?_
      obtain rfl := List.inj_on_of_nodup_map hnames hd hc hname
      rw [hxs, ColumnData.numbers_inj] at hzs
      exact hzs ▸ hvalues
    obtain ⟨x, hfirst, hnew⟩ := l.convertNew_of_refused hl hverify hnodup helementwise hvalue
    refine ⟨i, c, xs, x, hi, hc, hxs, hfirst, hbefore, ?_⟩
    have hcolumn := ColumnData.convert_numbers hnew
    rw [← hxs] at hcolumn
    refine convertNamed_of_refused hnames hexist (fun j hj d hd hjd => ?_) hc hi hcolumn hints
    obtain ⟨data, -, -, hyields, -⟩ := haccepted d hd (hbefore j hj d.name hjd)
    exact ⟨data, hyields⟩

end Frame

end RasterCategories
