import RasterCategories.Proofs.Evaluation.Pure
import RasterCategories.Proofs.Raster.Cells
/-!
# What a batch writes

The runs of a batch write disjoint windows, so what the memory holds afterwards does not depend on the order
of the runs. Reading the values from the memory while it changes gives the same as reading them from a copy,
if no run overwrites the values of a later one; the direction of a batch sees to that.

* `Behaviour.KeepsLength`: as many results as values.
* `Transfer.frozen` and `Legend.pureRuns_frozen`: the batch that reads from a copy.
* `Legend.Written` and `Legend.written_of_pureRuns`: the memory after a success.
* `Transfer.safe`: the direction of a batch keeps values from being overwritten before they are read.
* `Legend.written_of_purePerform`: what a batch writes, wherever it reads its values.
-/

namespace RasterCategories

/-- Arrays are converted to arrays of the same length. -/
def Behaviour.KeepsLength (b : Behaviour) : Prop :=
  ∀ xs ys, (b.applyAll xs).fresh = .ok ys → ys.size = xs.length

namespace Transfer

/-- The values of a run, as they were before anything was written. -/
def segment (b : Transfer) (r : Run) : List Binary64 :=
  (b.samples.drop r.start).take (r.stop - r.start)

/-- The batch that reads from a copy of its values. -/
def frozen (b : Transfer) : Transfer := { b with live := none }

theorem read_frozen (b : Transfer) (memory : Cells) (r : Run) :
    b.frozen.read memory r = b.segment r := rfl

/-- A value of a run. -/
theorem getElem?_segment {b : Transfer} {r : Run} {k : Nat} (hstart : r.start ≤ k) (hstop : k < r.stop) :
    (b.segment r)[k - r.start]? = b.samples[k]? := by
  rw [segment, List.getElem?_take_of_lt (by omega), List.getElem?_drop]
  congr 1
  omega

theorem length_segment {b : Transfer} {r : Run} (h : r.stop ≤ b.samples.length) :
    (b.segment r).length = r.stop - r.start := by
  rw [segment, List.length_take, List.length_drop]
  omega

end Transfer

namespace Legend

variable {l : Legend Behaviour} {b : Transfer} {r : Run} {rs : List Run} {memory after : Cells}

theorem size_clip (low high : Binary64) (c : Cells) : (c.clip low high).size = c.size := by
  cases c <;> simp [Cells.clip, Cells.size]

/-- What the conversion of a run needs and gives. -/
theorem pureRun_ok {position : Nat} {xs : List Binary64} {results : Cells}
    (h : l.pureRun position xs = .ok results) :
    ∃ c converted, l.categories[position]? = some c ∧ (c.forward.applyAll xs).fresh = .ok converted
      ∧ results = if l.table.top?.isSome && c.converseSide.interval.isSome then
          converted.clip c.converseSide.low c.converseSide.high else converted := by
  unfold pureRun at h
  cases hc : l.categories[position]? with
  | none => rw [hc] at h; cases h
  | some c =>
    rw [hc] at h
    obtain ⟨converted, hconverted, h⟩ := exists_of_bind_eq_ok h
    refine ⟨c, converted, rfl, hconverted, ?_⟩
    dsimp only at h
    split at h
    · next hclip => rw [if_pos hclip]; exact (Except.ok.inj h).symm
    · next hclip => rw [if_neg hclip]; exact (Except.ok.inj h).symm

/-- A run has as many results as values. -/
theorem size_of_pureRun (hk : ∀ c ∈ l.categories, c.forward.KeepsLength) {position : Nat}
    {xs : List Binary64} {results : Cells} (h : l.pureRun position xs = .ok results) :
    results.size = xs.length := by
  obtain ⟨c, converted, hc, hconverted, rfl⟩ := pureRun_ok h
  have hsize := hk c (List.mem_of_getElem? hc) xs converted hconverted
  split
  · rw [size_clip, hsize]
  · exact hsize

/-! ### Reading from the memory and from a copy -/

/-- The values of a run are still in the memory, where none was overwritten. -/
def Intact (b : Transfer) (memory : Cells) (r : Run) : Prop := b.read memory r = b.segment r

/-- Reading from a memory in which each run leaves the values of the later runs alone gives the same as
reading from a copy. -/
theorem pureRuns_frozen (hk : ∀ c ∈ l.categories, c.forward.KeepsLength) {start : Nat}
    (hlive : b.live = some start) (hintact : ∀ r ∈ rs, Intact b memory r)
    (hfits : ∀ r ∈ rs, r.start ≤ r.stop ∧ r.stop ≤ b.samples.length)
    (hmemory : b.target + b.samples.length ≤ memory.size)
    (hsafe : rs.Pairwise fun r q => start + q.stop ≤ b.target + r.start ∨
      b.target + r.stop ≤ start + q.start) :
    l.pureRuns b rs memory = l.pureRuns b.frozen rs memory := by
  -- The memory changes from run to run, so the claim is for every memory in which the values of the
  -- runs that are left can still be read.
  induction rs generalizing memory with
  | nil => rfl
  | cons r rs ih =>
    have hr := hfits r List.mem_cons_self
    obtain ⟨hhead, htail⟩ := List.pairwise_cons.mp hsafe
    rw [pureRuns, pureRuns, Transfer.read_frozen, hintact r List.mem_cons_self]
    cases hrun : l.pureRun r.position (b.segment r) with
    | error e => rfl
    | ok results =>
      have hsize := size_of_pureRun hk hrun
      rw [Transfer.length_segment hr.2] at hsize
      have hstore : b.target + r.start + results.size ≤ memory.size := by omega
      refine ih (fun q hq => ?_) (fun q hq => hfits q (List.mem_cons_of_mem _ hq)) ?_ htail
      -- The window just written and the values of a later run are disjoint.
      · have hbefore := hintact q (List.mem_cons_of_mem _ hq)
        have hq' := hfits q (List.mem_cons_of_mem _ hq)
        have hdisjoint := hhead q hq
        simp only [Intact, Transfer.read, hlive, Transfer.write] at hbefore ⊢
        rw [Cells.slice_store_of_disjoint hstore (by omega)]
        exact hbefore
      · rw [Transfer.write, Cells.size_store hstore]
        exact hmemory

/-! ### The memory after a success -/

/-- What the memory holds after all runs of a batch were converted: in the window of each run its results,
at the width of the memory, and elsewhere what it held before. -/
structure Written (l : Legend Behaviour) (b : Transfer) (rs : List Run) (memory after : Cells) :
    Prop where
  width : after.width = memory.width
  size : after.size = memory.size
  inside : ∀ r ∈ rs, ∃ results, l.pureRun r.position (b.segment r) = .ok results ∧
    ∀ k, r.start ≤ k → k < r.stop →
      after.cell? (b.target + k) = (results.cell? (k - r.start)).map (Cell.toWidth memory.width)
  outside : ∀ i, (∀ r ∈ rs, i < b.target + r.start ∨ b.target + r.stop ≤ i) →
    after.cell? i = memory.cell? i

/-- A batch that reads from a copy and whose runs write disjoint windows. -/
theorem written_of_pureRuns (hk : ∀ c ∈ l.categories, c.forward.KeepsLength)
    (hfits : ∀ r ∈ rs, r.start ≤ r.stop ∧ r.stop ≤ b.samples.length)
    (hmemory : b.target + b.samples.length ≤ memory.size)
    (hdisjoint : rs.Pairwise fun r q => r.stop ≤ q.start ∨ q.stop ≤ r.start)
    (h : l.pureRuns b.frozen rs memory = (.ok (), after)) : l.Written b rs memory after := by
  induction rs generalizing memory with
  | nil =>
    obtain ⟨-, rfl⟩ := Prod.mk.inj h
    exact ⟨rfl, rfl, by simp, fun _ _ => rfl⟩
  | cons r rs ih =>
    have hr := hfits r List.mem_cons_self
    obtain ⟨hhead, htail⟩ := List.pairwise_cons.mp hdisjoint
    rw [pureRuns, Transfer.read_frozen] at h
    cases hrun : l.pureRun r.position (b.segment r) with
    | error e => rw [hrun] at h; cases h
    | ok results =>
      rw [hrun] at h
      have hsize := size_of_pureRun hk hrun
      rw [Transfer.length_segment hr.2] at hsize
      have hstore : b.target + r.start + results.size ≤ memory.size := by omega
      have hmemory' : b.target + b.samples.length ≤
          (memory.store (b.target + r.start) results).size := by
        rw [Cells.size_store hstore]
        exact hmemory
      have hrest := ih (fun q hq => hfits q (List.mem_cons_of_mem _ hq)) hmemory' htail h
      refine ⟨?_, ?_, ?_, ?_⟩
      · rw [hrest.width, Cells.width_store]
      · rw [hrest.size, Cells.size_store hstore]
      · intro q hq
        rcases List.mem_cons.mp hq with rfl | hq
        -- The later runs do not write where the first one did.
        · refine ⟨results, hrun, fun k hstart hstop => ?_⟩
          have hkept := hrest.outside (b.target + k) fun p hp => by
            have := hhead p hp
            have := hfits p (List.mem_cons_of_mem _ hp)
            omega
          rw [hkept, Cells.cell?_store hstore, if_pos (by omega)]
          congr 2
          omega
        · obtain ⟨later, hlater, hcells⟩ := hrest.inside q hq
          exact ⟨later, hlater, by simpa only [Cells.width_store] using hcells⟩
      · intro i hi
        have hout := hi r List.mem_cons_self
        rw [hrest.outside i fun q hq => hi q (List.mem_cons_of_mem _ hq), Cells.cell?_store hstore,
          if_neg (by omega)]

/-- A batch that reads from a copy succeeds if each of its runs can be converted. -/
theorem pureRuns_frozen_ok (h : ∀ r ∈ rs, ∃ results, l.pureRun r.position (b.segment r) = .ok results)
    (memory : Cells) : ∃ after, l.pureRuns b.frozen rs memory = (.ok (), after) := by
  induction rs generalizing memory with
  | nil => exact ⟨memory, rfl⟩
  | cons r rs ih =>
    obtain ⟨results, hrun⟩ := h r List.mem_cons_self
    rw [pureRuns, Transfer.read_frozen, hrun]
    exact ih (fun q hq => h q (List.mem_cons_of_mem _ hq)) _

theorem Written.congr {rs' : List Run} (h : l.Written b rs memory after)
    (hmem : ∀ r, r ∈ rs' ↔ r ∈ rs) : l.Written b rs' memory after :=
  ⟨h.width, h.size, fun r hr => h.inside r ((hmem r).mp hr),
    fun i hi => h.outside i fun r hr => hi r ((hmem r).mpr hr)⟩

/-! ### The direction of a batch -/

end Legend

namespace Transfer

variable {b : Transfer} {memory : Cells} {r : Run}

/-- The results of a batch fit into the memory, and its values are there if they are read from there. -/
structure Fits (b : Transfer) (memory : Cells) : Prop where
  target : b.target + b.samples.length ≤ memory.size
  live : ∀ start, b.live = some start →
    (memory.slice start b.samples.length).toDoubles = b.samples

/-- Before anything is written, all values are in the memory. -/
theorem Fits.intact (h : b.Fits memory) (hr : r.stop ≤ b.samples.length) :
    Legend.Intact b memory r := by
  unfold Legend.Intact read segment
  split
  · next start hlive =>
    have hsamples := h.live start hlive
    rw [Cells.toDoubles_slice] at hsamples ⊢
    conv_rhs => rw [← hsamples]
    rw [List.drop_take, List.take_take, List.drop_drop]
    congr 1
    omega
  · rfl

/-- The runs of a batch in the order in which they are converted. -/
def directed (b : Transfer) (runs : List Run) : List Run :=
  if b.backward then runs.reverse else runs

theorem bounds_of_mem_directed {runs : List Run} (htile : Run.Tile runs 0 b.samples.length)
    (hr : r ∈ b.directed runs) : r.start ≤ r.stop ∧ r.stop ≤ b.samples.length := by
  have hbounds := htile.bounds ((SearchTable.mem_directed b.backward).mp hr)
  omega

/-- In either direction no two runs overlap. -/
theorem disjoint_directed {runs : List Run} (htile : Run.Tile runs 0 b.samples.length) :
    (b.directed runs).Pairwise fun r q => r.stop ≤ q.start ∨ q.stop ≤ r.start := by
  unfold directed
  split
  · exact List.pairwise_reverse.mpr (htile.pairwise.imp Or.inr)
  · exact htile.pairwise.imp Or.inl

/-- Taken in the direction of the batch, no run overwrites the values of a later one. -/
theorem safe {runs : List Run} {start : Nat} (hlive : b.live = some start)
    (htile : Run.Tile runs 0 b.samples.length) :
    (b.directed runs).Pairwise fun r q =>
      start + q.stop ≤ b.target + r.start ∨ b.target + r.stop ≤ start + q.start := by
  have hbounds := fun r hr => htile.bounds (r := r) hr
  have hdirection : b.backward = true ↔ start < b.target ∧ b.target < start + b.samples.length := by
    simp [backward, hlive]
  unfold directed
  split
  -- The destination starts after the source: a run is written above the values of all runs before it,
  -- which are the ones that come later when the order is reversed.
  · next hback =>
    have hafter := hdirection.mp hback
    rw [List.pairwise_reverse]
    refine htile.pairwise.imp fun hle => ?_
    omega
  -- Otherwise a run is written below the values of later runs, or both windows are apart.
  · next hback =>
    have hnot := mt hdirection.mpr hback
    refine htile.pairwise.imp_of_mem fun hr hq hle => ?_
    have hr' := hbounds _ hr
    have hq' := hbounds _ hq
    omega

end Transfer

namespace Legend

variable {l : Legend Behaviour} {b : Transfer} {memory after : Cells}

/-- Taken in the direction of the batch, runs read from the memory what they would read from a copy. -/
theorem pureRuns_directed (hk : ∀ c ∈ l.categories, c.forward.KeepsLength) (hfits : b.Fits memory)
    {runs : List Run} (htile : Run.Tile runs 0 b.samples.length) :
    l.pureRuns b (b.directed runs) memory = l.pureRuns b.frozen (b.directed runs) memory := by
  cases hlive : b.live with
  | none =>
    have heq : b.frozen = b := by rw [Transfer.frozen, ← hlive]
    rw [heq]
  | some start =>
    have hbounds := fun r hr => Transfer.bounds_of_mem_directed htile (r := r) hr
    exact pureRuns_frozen hk hlive (fun r hr => hfits.intact (hbounds r hr).2) hbounds
      hfits.target (Transfer.safe hlive htile)

/-- What a batch writes if it succeeds, whether or not its values are read from the memory that it
changes. -/
theorem written_of_purePerform (hk : ∀ c ∈ l.categories, c.forward.KeepsLength)
    (hfits : b.Fits memory) (h : l.purePerform b memory = (.ok (), after)) :
    ∃ runs, l.table.searchedRuns b.samples b.backward = .ok runs ∧ l.Written b runs memory after := by
  unfold purePerform at h
  cases hruns : l.table.searchedRuns b.samples b.backward with
  | error e => rw [hruns] at h; cases h
  | ok runs =>
    rw [hruns] at h
    have htile := (SearchTable.tile_searchedRuns hruns).1
    have hfrozen : l.pureRuns b.frozen (b.directed runs) memory = (.ok (), after) :=
      (pureRuns_directed hk hfits htile).symm.trans h
    have hwritten := written_of_pureRuns hk (fun r hr => Transfer.bounds_of_mem_directed htile hr)
      hfits.target (Transfer.disjoint_directed htile) hfrozen
    exact ⟨runs, rfl, hwritten.congr fun r => (SearchTable.mem_directed _).symm⟩

/-- A batch that reads from a copy succeeds if each of its runs can be converted. -/
theorem purePerform_ok {runs : List Run} (hlive : b.live = none)
    (hruns : l.table.searchedRuns b.samples b.backward = .ok runs)
    (h : ∀ r ∈ runs, ∃ results, l.pureRun r.position (b.segment r) = .ok results)
    (memory : Cells) : ∃ after, l.purePerform b memory = (.ok (), after) := by
  have heq : b.frozen = b := by rw [Transfer.frozen, ← hlive]
  unfold purePerform
  rw [hruns]
  dsimp only
  rw [← heq]
  exact pureRuns_frozen_ok (fun r hr => h r ((SearchTable.mem_directed _).mp hr)) memory

end Legend

end RasterCategories
