import RasterCategories.Proofs.Evaluation.Transfer
/-!
# Conversion of windows

A batch is planned if its two windows fit, and then its results fit into the memory. What a conversion into an
array of the caller writes, and a conversion into a new array gives, follows from what the planned batch
writes.

* `Transfer.plan_eq` and `Transfer.checks_of_plan`: when a batch is planned.
* `Target.Holds`: an array of the caller, and a source that may share its memory.
* `Legend.written_of_pureInto`: what a conversion into an array writes.
* `Legend.keepsLength_behaviour`: a legend converts arrays to arrays of the same length.
-/

namespace RasterCategories

/-! ### The two windows -/

theorem Elements.length_toDoubles (source : Elements) : source.toDoubles.length = source.size := by
  cases source with
  | real cells => exact cells.length_toDoubles
  | integer ns => exact List.length_map _

namespace Window

variable {w : Window} {size start count offset : Nat}

/-- A source window lies inside the source. -/
theorem le_of_checkSource (h : w.checkSource size = .ok (start, count)) :
    start + count ≤ size ∧ w.sourceOffset = start ∧ w.length size = count := by
  unfold checkSource at h
  dsimp only at h
  split at h
  · cases h
  · obtain ⟨rfl, rfl⟩ := Prod.mk.inj (Except.ok.inj h)
    omega

/-- A destination window lies inside the destination. -/
theorem le_of_checkTarget (h : w.checkTarget count size = .ok offset) :
    offset + count ≤ size ∧ w.targetOffset = offset := by
  unfold checkTarget at h
  split at h
  · cases h
  · obtain rfl := Except.ok.inj h
    omega

theorem checkSource_whole (size : Nat) : whole.checkSource size = .ok (0, size) := by
  simp [checkSource, whole, length]

theorem checkTarget_whole (h : count ≤ size) : whole.checkTarget count size = .ok 0 := by
  simp [checkTarget, whole, h]

end Window

namespace Transfer

variable {source : Elements} {target : Target} {w : Window} {start count offset : Nat}

/-- The batch of two windows that fit. -/
theorem plan_eq (hsource : w.checkSource source.size = .ok (start, count))
    (htarget : w.checkTarget count target.size = .ok offset)
    (hcontiguous : target.isContiguous = true) :
    plan source target w = .ok
      ⟨(source.toDoubles.drop start).take count,
        if target.memory.width = .double then target.sourceStart.map (· + start) else none,
        target.start + offset⟩ := by
  -- All three checks pass, and then only the width decides whether the samples are read in place.
  simp only [plan, hsource, hcontiguous, htarget, if_true, bind, Except.bind, pure, Except.pure]
  cases target.memory.width <;> rfl

/-- A batch is planned if both windows fit and the destination has no gaps. -/
theorem checks_of_plan {b : Transfer} (h : plan source target w = .ok b) :
    ∃ start count offset, w.checkSource source.size = .ok (start, count)
      ∧ target.isContiguous = true ∧ w.checkTarget count target.size = .ok offset := by
  unfold plan at h
  obtain ⟨⟨start, count⟩, hsource, h⟩ := exists_of_bind_eq_ok h
  dsimp only at h
  split at h
  · next hcontiguous =>
    obtain ⟨offset, htarget, -⟩ := exists_of_bind_eq_ok h
    exact ⟨start, count, offset, hsource, hcontiguous, htarget⟩
  · cases h

/-- A source that does not share the memory is read from a copy. -/
theorem live_of_plan {b : Transfer} (h : plan source target w = .ok b)
    (hseparate : target.sourceStart = none) : b.live = none := by
  obtain ⟨start, count, offset, hsource, hcontiguous, htarget⟩ := checks_of_plan h
  rw [plan_eq hsource htarget hcontiguous, hseparate] at h
  obtain rfl := Except.ok.inj h
  dsimp only
  cases target.memory.width <;> rfl

/-- As many values are read as the window has. -/
theorem length_samples (hsource : w.checkSource source.size = .ok (start, count)) :
    ((source.toDoubles.drop start).take count).length = count := by
  have hle := (Window.le_of_checkSource hsource).1
  rw [List.length_take, List.length_drop, source.length_toDoubles]
  omega

end Transfer

/-- The array lies inside its memory, and so does a source that shares the memory. -/
structure Target.Holds (target : Target) (source : Elements) : Prop where
  size : target.start + target.size ≤ target.memory.size
  source : ∀ s, target.sourceStart = some s →
    ∃ n, s + n ≤ target.memory.size ∧ source = .real (target.memory.slice s n)

namespace Transfer

variable {source : Elements} {target : Target} {w : Window} {b : Transfer}

/-- The batch of two windows fits into the memory. -/
theorem fits_of_plan (hholds : target.Holds source) (h : plan source target w = .ok b) :
    b.Fits target.memory := by
  obtain ⟨start, count, offset, hsource, hcontiguous, htarget⟩ := checks_of_plan h
  have hlength := length_samples hsource
  have hsize := hholds.size
  have hoffset := (Window.le_of_checkTarget htarget).1
  rw [plan_eq hsource htarget hcontiguous] at h
  obtain rfl := Except.ok.inj h
  refine ⟨by dsimp only; omega, fun first hfirst => ?_⟩
  dsimp only at hfirst ⊢
  rw [hlength]
  split at hfirst
  -- A source that shares the memory is a window of it, and so are the samples.
  · obtain ⟨s, hs, rfl⟩ := Option.map_eq_some_iff.mp hfirst
    obtain ⟨n, hn, rfl⟩ := hholds.source s hs
    have hle := (Window.le_of_checkSource hsource).1
    rw [Elements.size, Cells.size_slice] at hle
    rw [Elements.toDoubles, Cells.toDoubles_slice, Cells.toDoubles_slice, List.drop_take,
      List.take_take, List.drop_drop]
    congr 1
    omega
  · cases hfirst

end Transfer

namespace Legend

variable {l : Legend Behaviour} {source : Elements} {target : Target} {w : Window} {after : Cells}

/-- What a conversion into an array writes if it succeeds. -/
theorem written_of_pureInto (hk : ∀ c ∈ l.categories, c.forward.KeepsLength)
    (hholds : target.Holds source) (h : l.pureInto source target w = (.ok (), after)) :
    ∃ b runs, Transfer.plan source target w = .ok b
      ∧ l.table.searchedRuns b.samples b.backward = .ok runs
      ∧ l.Written b runs target.memory after := by
  unfold pureInto at h
  cases hplan : Transfer.plan source target w with
  | error e => rw [hplan] at h; cases h
  | ok b =>
    rw [hplan] at h
    dsimp only at h
    split at h
    -- An empty batch has no runs and writes nothing.
    · next hempty =>
      obtain ⟨-, rfl⟩ := Prod.mk.inj h
      refine ⟨b, [], rfl, ?_, rfl, rfl, by simp, fun _ _ => rfl⟩
      rw [List.isEmpty_iff.mp hempty]
      cases b.backward <;> rfl
    · obtain ⟨runs, hruns, hwritten⟩ :=
        written_of_purePerform hk (Transfer.fits_of_plan hholds hplan) h
      exact ⟨b, runs, rfl, hruns, hwritten⟩

/-- A conversion from a copy succeeds if each of its runs can be converted. -/
theorem pureInto_ok {b : Transfer} {runs : List Run} (hplan : Transfer.plan source target w = .ok b)
    (hlive : b.live = none) (hruns : l.table.searchedRuns b.samples b.backward = .ok runs)
    (h : ∀ r ∈ runs, ∃ results, l.pureRun r.position (b.segment r) = .ok results) :
    ∃ after, l.pureInto source target w = (.ok (), after) := by
  rw [pureInto, hplan]
  dsimp only
  split
  · exact ⟨_, rfl⟩
  · exact purePerform_ok hlive hruns h _

/-- A conversion into a new array is one into an array of zeros. -/
theorem pureNew_ok (h : l.pureNew source w = .ok after) :
    ∃ start count, w.checkSource source.size = .ok (start, count) ∧
      l.pureInto source ⟨.zeros l.config.outputWidth (count + w.targetOffset).toNat, 0,
        (count + w.targetOffset).toNat, false, none⟩ w = (.ok (), after) := by
  unfold pureNew at h
  obtain ⟨⟨start, count⟩, hsource, h⟩ := exists_of_bind_eq_ok h
  dsimp only at h
  split at h
  · cases h
  · refine ⟨start, count, hsource, ?_⟩
    split at h
    · next heq =>
      obtain rfl := Except.ok.inj h
      exact heq
    · cases h

/-- A new array of zeros holds its cells, and shares them with no source. -/
theorem holds_zeros (width : Width) (n : Nat) (source : Elements) :
    Target.Holds ⟨.zeros width n, 0, n, false, none⟩ source :=
  ⟨by simp [Cells.size_zeros], by rintro s ⟨⟩⟩

/-- A legend converts an array to one of the same length. -/
theorem keepsLength_behaviour (ht : l.table.Ordered)
    (hi : ∀ c ∈ l.categories, c.forward.IgnoresHints)
    (hk : ∀ c ∈ l.categories, c.forward.KeepsLength) : l.behaviour.KeepsLength := by
  intro xs ys hys
  change (l.evaluateNew (.real (.double xs)) .whole).fresh = .ok ys at hys
  rw [(evaluateNew_yields ht hi _ _).fresh_eq] at hys
  obtain ⟨start, count, hsource, hinto⟩ := pureNew_ok hys
  rw [Window.checkSource_whole] at hsource
  obtain ⟨rfl, rfl⟩ := Prod.mk.inj (Except.ok.inj hsource)
  obtain ⟨b, runs, -, -, hwritten⟩ := written_of_pureInto hk (holds_zeros _ _ _) hinto
  rw [hwritten.size, Cells.size_zeros]
  rfl

end Legend

end RasterCategories
