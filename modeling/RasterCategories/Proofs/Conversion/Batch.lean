import RasterCategories.Proofs.Evaluation.Built
/-!
# Arrays are converted as single values are

A batch classifies values by rank, cuts them into runs and confines the results of each run at once, while a
single value is searched for and confined by itself. If the categories convert arrays value by value and
never fail, both give the same bits, and report the same value.

* `Transform.Elementwise`: a transform that never fails and converts arrays value by value.
* `Legend.convertInto_eq_convert`: the conversion of a window, in terms of the conversions of its values.
-/

namespace RasterCategories

/-- The behaviour is that of a function: it never fails, and arrays are converted value by value. -/
structure Behaviour.ConvertsBy (b : Behaviour) (f : Binary64 → Binary64) : Prop where
  apply : ∀ x, (b.apply x).fresh = .ok (f x)
  applyAll : ∀ xs, (b.applyAll xs).fresh = .ok (.double (xs.map f))

/-- The transform never fails, and converts arrays value by value. -/
def Transform.Elementwise (t : Transform) : Prop := ∃ f, t.behaviour.ConvertsBy f

theorem Behaviour.ConvertsBy.pointwise {b : Behaviour} {f : Binary64 → Binary64} (h : b.ConvertsBy f) :
    b.Pointwise .double := .of_map h.apply h.applyAll

namespace Legend

variable {l : Legend Behaviour} {x : Binary64}

/-! ### Batches -/

/-- What a batch needs for its results to be those of single values: no least value repeats, and the
categories convert value by value. -/
structure Uniform (l : Legend Behaviour) : Prop where
  ordered : l.table.Ordered
  nodup : l.table.lows.Nodup
  verify : l.config.verifyReturn = false
  sides : ∀ c ∈ l.categories, c.converseSide.WellFormed
  elementwise : ∀ c ∈ l.categories, ∃ f, c.forward.ConvertsBy f

namespace Uniform

theorem consistent (hl : l.Uniform) : l.Consistent where
  ordered := hl.ordered
  nodup := hl.nodup
  verify := hl.verify
  sides := hl.sides
  pointwise := by
    intro c hc
    obtain ⟨f, hf⟩ := hl.elementwise c hc
    exact hf.pointwise

/-- A value is accepted by itself if it is located. -/
theorem accepted_iff (hl : l.Uniform) (x : Binary64) :
    (∃ y, l.pureValue x = .ok y) ↔ ¬ l.table.locate x < 0 := by
  constructor
  · rintro ⟨y, hy⟩
    obtain ⟨i, -, -, hlocate, -⟩ := hl.consistent.pureValue_eq_ok_iff.mp hy
    omega
  · intro hnonneg
    have hlocate : l.table.locate x = ((l.table.locate x).toNat : Nat) := by omega
    obtain ⟨c, hc⟩ := exists_category_of_lt (hl.ordered.locate_lt_length hlocate)
    obtain ⟨f, hf⟩ := hl.elementwise c (List.mem_of_getElem? hc)
    exact ⟨_, hl.consistent.pureValue_eq_ok_iff.mpr ⟨_, c, f x, hlocate, hc, hf.apply x, rfl⟩⟩

variable {source : Elements} {target : Target} {w : Window} {b : Transfer}

/-- If some value of a window is refused by itself, the first such value is reported, and nothing is
written. -/
theorem pureInto_of_refused (hl : l.Uniform) (hseparate : target.sourceStart = none)
    (hplan : Transfer.plan source target w = .ok b)
    (hrefused : ¬ ∀ x ∈ b.samples, ∃ y, l.pureValue x = .ok y) :
    ∃ (k : Nat) (x : Binary64), b.samples[k]? = some x ∧ (¬ ∃ y, l.pureValue x = .ok y)
      ∧ (∀ j < k, ∀ z, b.samples[j]? = some z → ∃ y, l.pureValue z = .ok y)
      ∧ l.pureInto source target w = (.error (.noCategory x), target.memory) := by
  have hlive := Transfer.live_of_plan hplan hseparate
  have hforward : b.backward = false := by simp [Transfer.backward, hlive]
  have hunowned : l.table.unowned? b.samples b.backward =
      b.samples.find? fun x => l.table.locate x < 0 := by
    rw [SearchTable.unowned?, hforward, if_neg Bool.false_ne_true]
  cases hfind : b.samples.find? fun x => l.table.locate x < 0 with
  -- Were every value located, every value would be accepted.
  | none =>
    refine absurd (fun x hx => ?_) hrefused
    rw [hl.accepted_iff]
    simpa using List.find?_eq_none.mp hfind x hx
  | some x =>
    obtain ⟨hx, k, hk, hkx, hfirst⟩ := List.find?_eq_some_iff_getElem.mp hfind
    rw [decide_eq_true_eq] at hx
    refine ⟨k, x, List.getElem?_eq_some_iff.mpr ⟨hk, hkx⟩, ?_, fun j hj z hz => ?_, ?_⟩
    · rw [hl.accepted_iff, not_not]
      exact hx
    · obtain ⟨hlen, rfl⟩ := List.getElem?_eq_some_iff.mp hz
      rw [hl.accepted_iff]
      simpa using hfirst j hj
    · have hne : b.samples.isEmpty = false := by
        cases hs : b.samples with
        | nil => simp [hs] at hk
        | cons => rfl
      rw [pureInto, hplan]
      dsimp only
      rw [hne, if_neg Bool.false_ne_true, purePerform, SearchTable.searchedRuns, hunowned, hfind]

end Uniform

end Legend

/-! ### Built legends -/

namespace Legend

variable {l : Legend Transform}

/-- What a batch needs of a built legend. -/
theorem IsBuilt.uniform (hl : l.IsBuilt) (hverify : l.config.verifyReturn = false)
    (hnodup : l.table.lows.Nodup) (helementwise : ∀ c ∈ l.categories, c.forward.Elementwise) :
    l.active.Uniform where
  ordered := hl.active_ordered
  nodup := by
    rw [active, table_map]
    exact hnodup
  verify := hverify
  sides := by
    intro c hc
    obtain ⟨d, hd, rfl⟩ := mem_categories_map _ _ hc
    exact (hl.sound.categories d hd).converseSide
  elementwise := by
    intro c hc
    obtain ⟨d, hd, rfl⟩ := mem_categories_map _ _ hc
    exact helementwise d hd

/-- The result of a batch of values, written from the cell `first` of a memory on, is that of its values one
by one. -/
structure OneByOne (one : Binary64 → Except Error Binary64) (xs : List Binary64) (memory : Cells)
    (first : Nat) (result : Except Error Unit × Cells) : Prop where
  /-- If all values are accepted, the batch succeeds. Its window then holds their results, rounded to the width
  of the memory, and all other cells keep their bits. -/
  accepted : (∀ x ∈ xs, ∃ y, one x = .ok y) →
    result.1 = .ok () ∧ result.2.width = memory.width ∧ result.2.size = memory.size
      ∧ (∀ (k : Nat) (x y : Binary64), xs[k]? = some x → one x = .ok y →
          result.2.cell? (first + k) = some (Cell.toWidth memory.width (.double y)))
      ∧ ∀ i, i < first ∨ first + xs.length ≤ i → result.2.cell? i = memory.cell? i
  /-- If a value is refused, the first such value is reported, and nothing is written. -/
  refused : (¬ ∀ x ∈ xs, ∃ y, one x = .ok y) →
    ∃ (k : Nat) (x : Binary64), xs[k]? = some x ∧ (¬ ∃ y, one x = .ok y)
      ∧ (∀ j < k, ∀ z, xs[j]? = some z → ∃ y, one z = .ok y)
      ∧ result = (.error (.noCategory x), memory)

/-- The conversion of a window is that of its values one by one, whatever the hints. -/
theorem convertInto_eq_convert (hl : l.IsBuilt) (hverify : l.config.verifyReturn = false)
    (hnodup : l.table.lows.Nodup) (helementwise : ∀ c ∈ l.categories, c.forward.Elementwise)
    {source : Elements} {target : Target} {w : Window} {start count offset : Nat}
    (hcontiguous : target.isContiguous = true)
    (hfits : target.start + target.size ≤ target.memory.size)
    (hseparate : target.sourceStart = none)
    (hsource : w.checkSource source.size = .ok (start, count))
    (htarget : w.checkTarget count target.size = .ok offset) (hints other : Hints) :
    OneByOne (fun x => ((l.convert x).run other).1) ((source.toDoubles.drop start).take count)
      target.memory (target.start + offset) ((l.convertInto source target w).run hints).1 := by
  have huniform := hl.uniform hverify hnodup helementwise
  have hplan := Transfer.plan_eq hsource htarget hcontiguous
  -- Neither the single conversions nor the batch depend on the hints they start from.
  have hone : (fun x => ((l.convert x).run other).1) = l.active.pureValue := by
    funext x
    exact evaluate_yields hl.active_ordered hl.active_ignoresHints x other
  have hresult := evaluateInto_yields hl.active_ordered hl.active_ignoresHints source target w hints
  rw [hone, convertInto, hresult]
  refine ⟨fun haccepted => ?_, fun hrefused => ?_⟩
  · have hholds : target.Holds source := ⟨hfits, fun s hs => by simp [hseparate] at hs⟩
    obtain ⟨after, hinto, hafter⟩ :=
      huniform.consistent.pureInto_of_accepted hholds hseparate hplan haccepted
    rw [hinto]
    exact ⟨rfl, hafter⟩
  · exact huniform.pureInto_of_refused hseparate hplan hrefused

/-- Transforms of one kind of function convert value by value. -/
theorem elementwise_of_isAffine {t : Transform} (h : t.IsAffine) : t.Elementwise := by
  cases h with
  | identity => exact ⟨id, fun _ => rfl, fun _ => rfl⟩
  | linear p => exact ⟨p.eval, fun _ => rfl, fun _ => rfl⟩
  | constant v w => exact ⟨fun _ => v, fun _ => rfl, fun _ => rfl⟩

/-- Three integers are converted as packed depths into the last three of four narrow cells. -/
theorem convertInto_eq_convert_depths : ∃ cs l, depthCategories = .ok cs ∧
    ofCategories 0 .default cs = .ok l ∧ ∀ hints other : Hints,
      OneByOne (fun x => ((l.convert x).run other).1)
        (((Elements.integer [3, 0, 7]).toDoubles.drop 0).take 3) (.zeros .single 4) (0 + 1)
        ((l.convertInto (.integer [3, 0, 7]) ⟨.zeros .single 4, 0, 4, false, none⟩
          ⟨0, 1, none⟩).run hints).1 := by
  obtain ⟨cs, l, hcs, hdeclared, haffine, hl, hnodup⟩ := exists_depths
  have hbuilt := isBuilt_of_isAffine hdeclared haffine hl
  let target : Target := ⟨.zeros .single 4, 0, 4, false, none⟩
  have hfits : target.start + target.size ≤ target.memory.size := by decide
  have hsource : Window.checkSource ⟨0, 1, none⟩ (Elements.integer [3, 0, 7]).size = .ok (0, 3) := by
    decide
  have htarget : Window.checkTarget ⟨0, 1, none⟩ 3 target.size = .ok 1 := by decide
  have hverify : l.config.verifyReturn = false := by
    rw [config_ofCategories hl]
    rfl
  have helementwise := fun c hc => elementwise_of_isAffine (isAffine_of_ofCategories haffine hl c hc)
  exact ⟨cs, l, hcs, hl, fun hints other => convertInto_eq_convert hbuilt hverify hnodup helementwise rfl
    hfits rfl hsource htarget hints other⟩

end Legend

end RasterCategories
