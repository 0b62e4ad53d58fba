import RasterCategories.Proofs.Evaluation.Built
/-!
# Conversion in place

The source and the destination of a batch may be windows of one buffer that overlap in any way. The results
are those of a separate copy of the source window, because no value is overwritten before it is read, and
the cells outside the destination window keep their bits.

* `Legend.convertInto_overlapping`: the buffer after a conversion in place.
-/

namespace RasterCategories.Legend

variable {l : Legend Transform} {memory after : Cells} {first length start size : Nat} {w : Window}
  {a n b : Nat}

/-- The numbers of a window of a window. -/
theorem toDoubles_window (hwindow : a + n ≤ length) :
    ((Cells.slice first length memory).toDoubles.drop a).take n =
      (memory.slice (first + a) n).toDoubles := by
  rw [Cells.toDoubles_slice, Cells.toDoubles_slice, List.drop_take, List.take_take, List.drop_drop]
  congr 1
  omega

/-- A separate copy of a window, converted into an array of its own, makes the batch with the same values. -/
theorem plan_copy (hfits : first + length ≤ memory.size) (hwindow : a + n ≤ length) :
    Transfer.plan (.real (memory.slice (first + a) n)) ⟨.zeros memory.width n, 0, n, false, none⟩ .whole =
      .ok ⟨((memory.slice first length).toDoubles.drop a).take n, none, 0⟩ := by
  have hsize : (Elements.real (memory.slice (first + a) n)).size = n := by
    rw [Elements.size, Cells.size_slice]
    omega
  have hsource := Window.checkSource_whole (Elements.real (memory.slice (first + a) n)).size
  have hcheck := hsource.trans (congrArg (fun m => Except.ok (0, m)) hsize)
  rw [Transfer.plan_eq hcheck (Window.checkTarget_whole (Nat.le_refl n)) rfl]
  have hlength : (memory.slice (first + a) n).toDoubles.length = n := by
    rw [Cells.length_toDoubles]
    exact hsize
  rw [toDoubles_window hwindow, Elements.toDoubles, List.drop_zero,
    List.take_of_length_le (Nat.le_of_eq hlength), Cells.width_zeros]
  cases memory.width <;> rfl

/-- Whenever a conversion between two windows of one buffer succeeds, each cell of the destination window
holds what the conversion of a separate copy of the source window gives at its position, and all other
cells keep their bits. -/
theorem convertInto_overlapping (hl : l.IsBuilt) {strided : Bool} {hints : Hints}
    (hsource : first + length ≤ memory.size) (htarget : start + size ≤ memory.size)
    (hread : w.checkSource length = .ok (a, n)) (hwrite : w.checkTarget n size = .ok b)
    (h : ((l.convertInto (.real (memory.slice first length))
      ⟨memory, start, size, strided, some first⟩ w).run hints).1 = (.ok (), after)) (other : Hints) :
    (∃ results, ((l.convertInto (.real (memory.slice (first + a) n))
        ⟨.zeros memory.width n, 0, n, false, none⟩ .whole).run other).1 = (.ok (), results) ∧
      results.size = n ∧ ∀ k < n, after.cell? (start + b + k) = results.cell? k) ∧
    after.width = memory.width ∧ after.size = memory.size ∧
      ∀ i, i < start + b ∨ start + b + n ≤ i → after.cell? i = memory.cell? i := by
  -- The batch in place and the batch from a copy have the same samples; what each of them writes is said
  -- by `Written`, run by run, and the two are compared cell by cell.
  have hk := hl.active_keepsLength
  have hsize : (Elements.real (memory.slice first length)).size = length := by
    rw [Elements.size, Cells.size_slice]
    omega
  have hholds : Target.Holds ⟨memory, start, size, strided, some first⟩
      (.real (memory.slice first length)) := by
    refine ⟨htarget, ?_⟩
    rintro s ⟨⟩
    exact ⟨length, hsource, rfl⟩
  have hinto := evaluateInto_yields hl.active_ordered hl.active_ignoresHints
  rw [convertInto, hinto _ _ _ hints] at h
  obtain ⟨batch, runs, hplan, hruns, hwritten⟩ := written_of_pureInto hk hholds h
  obtain ⟨_, _, _, -, hcontiguous, -⟩ := Transfer.checks_of_plan hplan
  have hread' := hsize.symm ▸ hread
  rw [Transfer.plan_eq hread' hwrite hcontiguous] at hplan
  obtain rfl := Except.ok.inj hplan
  have hwindow := (Window.le_of_checkSource hread).1
  have hlength := Transfer.length_samples hread'
  have htile := (SearchTable.tile_searchedRuns hruns).1
  rw [hlength] at htile
  refine ⟨?_, hwritten.width, hwritten.size, fun i hi => ?_⟩
  -- The copy has the same values, hence the same runs, and each of them converts.
  · have hcopy := plan_copy hsource hwindow
    have hruns' := SearchTable.searchedRuns_ok_of_ok hruns false
    obtain ⟨results, hresults⟩ := pureInto_ok hcopy rfl hruns' fun r hr =>
      (hwritten.inside r hr).imp fun _ h => h.1
    refine ⟨results, by rw [convertInto, hinto _ _ _ other, hresults], ?_⟩
    obtain ⟨batch', runs', hplan', hruns'', hwritten'⟩ :=
      written_of_pureInto hk (holds_zeros _ _ _) hresults
    obtain rfl := Except.ok.inj (hcopy.symm.trans hplan')
    obtain rfl := Except.ok.inj (hruns'.symm.trans hruns'')
    refine ⟨by rw [hwritten'.size, Cells.size_zeros], fun k hk => ?_⟩
    obtain ⟨r, hr, hstart, hstop⟩ := htile.cover (Nat.zero_le k) hk
    obtain ⟨there, hthere, hcells⟩ := hwritten.inside r hr
    obtain ⟨apart, hapart, hcells'⟩ := hwritten'.inside r hr
    obtain rfl : there = apart := Except.ok.inj (hthere.symm.trans hapart)
    have hcell := hcells k hstart hstop
    have hcell' := hcells' k hstart hstop
    rw [Nat.zero_add, Cells.width_zeros] at hcell'
    exact hcell.trans hcell'.symm
  · refine hwritten.outside i fun r hr => ?_
    have hbounds := htile.bounds hr
    dsimp only
    omega

/-- The first three of four packed depths are converted into the last three cells. -/
theorem convertInto_overlapping_depths : ∃ cs l after, depthCategories = .ok cs ∧
    ofCategories 0 .default cs = .ok l ∧
    let memory : Cells := .double [.one, .zero, .two, .ten]
    ((l.convertInto (.real (memory.slice 0 4)) ⟨memory, 0, 4, false, some 0⟩ ⟨0, 1, some 3⟩).run
      .empty).1 = (.ok (), after) ∧
    ∀ other : Hints,
      (∃ results, ((l.convertInto (.real (memory.slice (0 + 0) 3))
          ⟨.zeros memory.width 3, 0, 3, false, none⟩ .whole).run other).1 = (.ok (), results) ∧
        results.size = 3 ∧ ∀ k < 3, after.cell? (0 + 1 + k) = results.cell? k) ∧
      after.width = memory.width ∧ after.size = memory.size ∧
        ∀ i, i < 0 + 1 ∨ 0 + 1 + 3 ≤ i → after.cell? i = memory.cell? i := by
  obtain ⟨cs, l, hcs, hdeclared, haffine, hl, -⟩ := exists_depths
  have hbuilt := isBuilt_of_isAffine hdeclared haffine hl
  let memory : Cells := .double [.one, .zero, .two, .ten]
  have hok : (depthCategories >>= fun cs => ofCategories 0 .default cs >>= fun l =>
      ((l.convertInto (.real (memory.slice 0 4)) ⟨memory, 0, 4, false, some 0⟩ ⟨0, 1, some 3⟩).run
        .empty).1.1).isOk = true := by decide +kernel
  have hbuild := isOk_of_bind hok hcs
  obtain ⟨⟨⟩, hrun⟩ := exists_of_isOk (isOk_of_bind hbuild hl)
  refine ⟨cs, l, _, hcs, hl, Prod.ext hrun rfl, fun other => ?_⟩
  exact convertInto_overlapping hbuilt (by decide) (by decide) (by decide) (by decide)
    (Prod.ext hrun rfl) other

end RasterCategories.Legend
