import RasterCategories.Proofs.Column.Columnwise
/-!
# The converted frame is kept

A frame in memory is copied to a new place, and each selected column is read from the frame, converted, and put into
the copy. Every step leaves the places of before alone, so the frame is kept whether the conversion succeeds or fails.
What is then at the new place is what the conversion of the frame as a value gives.

* `Frames.run_convertNamed`: columns one after the other, in memory and as values.
* `Frames.convert_keeps`: the conversion of a frame in memory, in terms of the conversions of its values.
-/

namespace RasterCategories

/-- Of two computations after each other the second one starts from the hints that the first one left. -/
theorem Eval.run_bind {α β : Type} (e : Eval α) (f : α → Eval β) (hints : Hints) :
    (e >>= f).run hints =
      match e.run hints with
      | (.ok a, left) => (f a).run left
      | (.error x, left) => (.error x, left) := by
  change ExceptT.bindCont f (e.run hints).1 (e.run hints).2 = _
  rcases e.run hints with ⟨_ | a, left⟩ <;> rfl

namespace Frames

variable {ι : Type} {n : Nat} {memory after : Frames ι n} {source target place other : Fin n}
  {r : Except Error (Frame ι)} {l : Legend Transform} {name : String} {names : List String} {data : ColumnData}

/-! ### Places -/

@[simp]
theorem copy_castSucc : memory.copy place other.castSucc = memory other := dif_pos other.isLt

@[simp]
theorem copy_last : memory.copy place (Fin.last n) = memory place := dif_neg (lt_irrefl n)

@[simp]
theorem assign_self : memory.assign place name data place = (memory place).setColumn name data :=
  if_pos rfl

theorem assign_of_ne (hother : other ≠ place) : memory.assign place name data other = memory other :=
  if_neg hother

/-! ### Columns one after the other -/

/-- Only the frame at a place changes, and is the one that a computation gives if it succeeds. -/
structure Stores (memory : Frames ι n) (place : Fin n) (r : Except Error (Frame ι)) (after : Frames ι n) : Prop where
  kept : ∀ other, other ≠ place → after other = memory other
  stored : ∀ g, r = .ok g → after place = g

/-- An assignment before does not show, except at the place. -/
theorem Stores.of_assign (h : (memory.assign place name data).Stores place r after) :
    memory.Stores place r after where
  kept other hother := (h.kept other hother).trans (assign_of_ne hother)
  stored := h.stored

theorem run_convertNamed_cons (memory : Frames ι n) (hints : Hints) :
    (convertNamed source target l (name :: names) memory).run hints =
      match ((memory source).convertColumn l name).run hints with
      | (.ok data, left) => (convertNamed source target l names (memory.assign target name data)).run left
      | (.error e, left) => ((.error e, memory), left) := by
  rw [convertNamed, StateT.run_bind, StateT.run]
  rcases ((memory source).convertColumn l name).run hints with ⟨_ | data, left⟩ <;> rfl

/-- In memory the columns are converted as they are as values, and the same hints are left. -/
theorem run_convertNamed (hne : source ≠ target) (names : List String) (memory : Frames ι n) (hints : Hints) :
    ∃ after, (convertNamed source target l names memory).run hints
        = (((((memory source).convertNamed l names (memory target)).run hints).1.map fun _ => (), after),
          (((memory source).convertNamed l names (memory target)).run hints).2)
      ∧ memory.Stores target (((memory source).convertNamed l names (memory target)).run hints).1 after := by
  induction names generalizing memory hints with
  | nil => exact ⟨memory, rfl, fun _ _ => rfl, fun g hg => Except.ok.inj hg⟩
  | cons name names ih =>
    rw [run_convertNamed_cons, Frame.convertNamed_cons, Eval.run_bind]
    rcases ((memory source).convertColumn l name).run hints with ⟨_ | data, left⟩
    · exact ⟨memory, rfl, fun _ _ => rfl, fun g hg => nomatch hg⟩
    -- The source is not the target, so the next column is read from the same frame.
    · obtain ⟨after, hrun, hstores⟩ := ih (memory.assign target name data) left
      rw [assign_of_ne hne, assign_self] at hrun hstores
      exact ⟨after, hrun, hstores.of_assign⟩

/-! ### The conversion of a frame -/

/-- The frames of before are kept at their places. There is one more, at a place that is given if a computation
succeeds, and this frame is then its result. -/
def Adds (memory : Frames ι n) (r : Except Error (Frame ι)) (result : Σ m, Except Error (Fin m) × Frames ι m) : Prop :=
  ∃ after : Frames ι (n + 1), result = ⟨n + 1, r.map fun _ => Fin.last n, after⟩
    ∧ (∀ kept : Fin n, after kept.castSucc = memory kept) ∧ ∀ g, r = .ok g → after (Fin.last n) = g

/-- The selected columns are converted in a copy, if there are any. -/
theorem convert_some (hne : names ≠ []) : memory.convert place l (some names) = do
    let (outcome, memory) ← convertNamed place.castSucc (Fin.last n) l names (memory.copy place)
    return ⟨n + 1, outcome.map fun _ => Fin.last n, memory⟩ := by
  cases names with
  | nil => exact absurd rfl hne
  | cons => rfl

/-- A conversion in memory keeps all frames, and adds the converted frame. -/
theorem run_convert (hne : names ≠ []) (memory : Frames ι n) (place : Fin n) (hints : Hints) :
    memory.Adds (((memory place).convert l (some names)).run hints).1
      ((memory.convert place l (some names)).run hints).1 := by
  -- The copy is at another place than the frame that it is a copy of.
  obtain ⟨after, hrun, hstores⟩ :=
    run_convertNamed (l := l) (Fin.ne_of_lt (Fin.castSucc_lt_last place)) names (memory.copy place) hints
  rw [copy_castSucc, copy_last] at hrun hstores
  rw [Frame.convert_some hne, convert_some hne, StateT.run_bind, hrun]
  refine ⟨after, ?_, fun kept => ?_, hstores.stored⟩
  · cases (((memory place).convertNamed l names (memory place)).run hints).1 <;> rfl
  · rw [hstores.kept _ (Fin.ne_of_lt (Fin.castSucc_lt_last kept)), copy_castSucc]

/-- A frame of numbers in memory is converted column by column, and each frame of before is kept, whether the conversion
succeeds or fails. -/
theorem convert_keeps (hl : l.IsBuilt) (hverify : l.config.verifyReturn = false) (hnodup : l.table.lows.Nodup)
    (helementwise : ∀ c ∈ l.categories, c.forward.Elementwise) (memory : Frames ι n) (place : Fin n)
    (hnames : ((memory place).columns.map Column.name).Nodup)
    (hnumbers : ∀ c ∈ (memory place).columns, ∃ xs, c.data = .numbers xs) (hne : names ≠ [])
    (hexist : ∀ name ∈ names, ∃ c ∈ (memory place).columns, c.name = name) (hints other : Hints) :
    Frame.Columnwise (fun x => ((l.convert x).run other).1) l.config.outputWidth names (memory place)
        (((memory place).convert l (some names)).run hints).1
      ∧ memory.Adds (((memory place).convert l (some names)).run hints).1
        ((memory.convert place l (some names)).run hints).1 := by
  have hone : (fun x => ((l.convert x).run other).1) = l.active.pureValue :=
    funext fun x => hl.run_convert other
  rw [hone]
  exact ⟨Frame.convert_columnwise hl hverify hnodup helementwise hnames hnumbers hne hexist hints,
    run_convert hne memory place hints⟩

/-- A frame in memory. It has two depths, and two values of which the second one is no sample. -/
def soundings : Frames Nat 1 := fun _ =>
  ⟨[7, 8], [⟨"depth", .numbers [.one, .two]⟩, ⟨"other", .numbers [.zero, .ofInt 100]⟩]⟩

/-- The depths are converted once if they are selected twice. With the other column selected too, the value that is no
sample is reported. The frame is kept in both cases. -/
theorem convert_keeps_soundings : ∃ cs l, Legend.depthCategories = .ok cs ∧ Legend.ofCategories 0 .default cs = .ok l
    ∧ ∀ hints : Hints,
      (∃ after : Frames Nat 2,
        ((soundings.convert 0 l (some ["depth", "depth"])).run hints).1 = ⟨2, .ok 1, after⟩
          ∧ after 0 = soundings 0
          ∧ Frame.Converted (fun x => (l.convert x).fresh) .double ["depth", "depth"] (soundings 0) (after 1))
      ∧ ∃ after : Frames Nat 2,
        ((soundings.convert 0 l (some ["depth", "other"])).run hints).1 = ⟨2, .error (.noCategory (.ofInt 100)), after⟩
          ∧ after 0 = soundings 0 := by
  have hpasses : Legend.passes 0 .default Legend.depthCategories (fun _ l => l.table.lows.Nodup
      ∧ (∀ x ∈ [Binary64.one, .two, .zero], (l.convert x).fresh.isOk)
      ∧ (l.convert (.ofInt 100)).fresh = .error (.noCategory (.ofInt 100))) = true := by decide +kernel
  obtain ⟨cs, l, hcs, hl, htest⟩ := Legend.exists_of_passes hpasses
  obtain ⟨hnodup, hok, herror⟩ := of_decide_eq_true htest
  have haccepted : ∀ x ∈ [Binary64.one, .two, .zero], ∃ y, (l.convert x).fresh = .ok y := fun x hx =>
    exists_of_isOk (hok x hx)
  obtain ⟨hdeclared, haffine⟩ := Legend.of_depthCategories hcs
  have hbuilt := Legend.isBuilt_of_isAffine hdeclared haffine hl
  have hconfig := Legend.config_ofCategories hl
  have hverify : l.config.verifyReturn = false := by rw [hconfig]; rfl
  have helementwise := fun c hc => Legend.elementwise_of_isAffine (Legend.isAffine_of_ofCategories haffine hl c hc)
  have hdistinct : ((soundings 0).columns.map Column.name).Nodup := by decide
  have hnumbers : ∀ c ∈ (soundings 0).columns, ∃ xs, c.data = .numbers xs := by simp [soundings]
  have hvalues : ∀ c ∈ (soundings 0).columns, ∀ xs, c.data = .numbers xs →
      ∀ x ∈ xs, x ∈ [Binary64.one, .two, .zero] ∨ x = .ofInt 100 := by simp [soundings]
  refine ⟨cs, l, hcs, hl, fun hints => ⟨?_, ?_⟩⟩
  · obtain ⟨hcolumns, after, hafter, hkept, hadded⟩ := convert_keeps hbuilt hverify hnodup helementwise soundings 0
      hdistinct hnumbers (List.cons_ne_nil "depth" ["depth"]) (by decide) hints Hints.empty
    have hall : ∀ name ∈ ["depth", "depth"], (soundings 0).Accepts (fun x => (l.convert x).fresh) name := by
      have hone := haccepted .one (by simp)
      have htwo := haccepted .two (by simp)
      simp [Frame.Accepts, soundings, hone, htwo]
    obtain ⟨g, hg, hconverted⟩ := hcolumns.accepted hall
    rw [hg] at hafter hadded
    obtain rfl := hadded g rfl
    rw [hconfig] at hconverted
    exact ⟨after, hafter, hkept 0, hconverted⟩
  · obtain ⟨hcolumns, after, hafter, hkept, -⟩ := convert_keeps hbuilt hverify hnodup helementwise soundings 0
      hdistinct hnumbers (List.cons_ne_nil "depth" ["other"]) (by decide) hints Hints.empty
    have hnot : ¬ ∀ name ∈ ["depth", "other"], (soundings 0).Accepts (fun x => (l.convert x).fresh) name := by
      simp [Frame.Accepts, soundings, herror]
    obtain ⟨-, c, xs, x, -, hc, hxs, ⟨k, hk, hx, -⟩, -, hresult⟩ := hcolumns.refused hnot
    have hvalue : x = .ofInt 100 := (hvalues c hc xs hxs x (List.mem_of_getElem? hk)).resolve_left fun hmem =>
      hx (haccepted x hmem)
    rw [hresult, hvalue] at hafter
    exact ⟨after, hafter, hkept 0⟩

end Frames

end RasterCategories
