import Mathlib.Data.List.Chain
import RasterCategories.Proofs.Evaluation.Consistent
import RasterCategories.Proofs.Legend.Built
/-!
# Batches are cut as rarely as possible

The runs of a batch cut its values into stretches with one owner each. Neighbouring runs have different owners, so no
two of them could be joined, and no other cut of this kind has fewer runs. Trying the last owner first leads to the
same cut. Each run is one array conversion, so a batch converts as few arrays as it can.

* `Run.Cut`: runs that cut positions into stretches of equal ones.
* `Run.cut_ofPositions`, `Run.isChain_ofPositions` and `Run.Cut.length_ofPositions_le`: what is cut, that neighbours
  differ, and that no other cut is shorter.
* `Legend.runs_cut`: the runs of a batch by a built legend.
-/

namespace RasterCategories

namespace Run

variable {r : Run} {rs : List Run} {i p : Nat} {ps : List Int}

/-- Runs that are not empty, follow each other without gap from an index on, and stand for positions: the values of a
run are all at the position of the run. -/
structure Cut (i : Nat) (ps : List Int) (rs : List Run) : Prop where
  /-- The runs follow each other up to the last position. -/
  tile : Tile rs i (i + ps.length)
  /-- Each index in a run is at the position of the run. -/
  position : ∀ r ∈ rs, ∀ k, r.start ≤ k → k < r.stop → ps[k - i]? = some (r.position : Int)

/-- Two runs stand for different positions. -/
def Differ (r s : Run) : Prop := r.position ≠ s.position

instance (r s : Run) : Decidable (r.Differ s) := inferInstanceAs (Decidable (r.position ≠ s.position))

/-! ### The runs of positions -/

/-- The runs of positions cut them. -/
theorem cut_ofPositions (hps : ∀ p ∈ ps, 0 ≤ p) (i : Nat) : Cut i ps (ofPositions i (ps.map Int.toNat)) where
  tile := by
    have htile := tile_ofPositions i (ps.map Int.toNat)
    rwa [List.length_map] at htile
  position := by
    intro r hr k hstart hstop
    have hposition := position_ofPositions hr hstart hstop
    rw [List.getElem?_map, Option.map_eq_some_iff] at hposition
    obtain ⟨p, hp, hpr⟩ := hposition
    have hnonneg := hps p (List.mem_of_getElem? hp)
    rw [hp, ← hpr, Int.toNat_of_nonneg hnonneg]

/-- A value in front of runs does not bring neighbours at one position together. -/
theorem isChain_push (h : rs.IsChain Differ) : (push i p rs).IsChain Differ := by
  cases rs with
  | nil => exact List.isChain_singleton _
  | cons s rs =>
    rw [push]
    split
    -- The joined run has the position of the first one, and the same neighbour.
    · rw [List.isChain_cons] at h ⊢
      exact h
    · next hne => exact List.isChain_cons_cons.mpr ⟨fun heq => hne heq.symm, h⟩

/-- Neighbours among the runs of positions differ. -/
theorem isChain_ofPositions (i : Nat) (ps : List Nat) : (ofPositions i ps).IsChain Differ := by
  induction ps generalizing i with
  | nil => exact List.isChain_nil
  | cons p ps ih => exact isChain_push (ih (i + 1))

/-- The first run stands for the first position. -/
theorem head?_ofPositions (i : Nat) (ps : List Nat) :
    (ofPositions i ps).head?.map position = ps.head? := by
  cases ps with
  | nil => rfl
  | cons p ps =>
    rw [ofPositions]
    cases ofPositions (i + 1) ps with
    | nil => rfl
    | cons s rs =>
      rw [push]
      split
      · next heq => exact congrArg some heq
      · rfl

/-- A value in front of runs adds at most one run. -/
theorem length_push_le (i p : Nat) (rs : List Run) : (push i p rs).length ≤ rs.length + 1 := by
  cases rs with
  | nil => exact Nat.le_refl _
  | cons s rs =>
    rw [push]
    split
    · exact Nat.le_succ _
    · exact Nat.le_refl _

/-- A value at the position of the first run adds none. -/
theorem length_push_of_head (h : rs.head?.map position = some p) : (push i p rs).length = rs.length := by
  cases rs with
  | nil => cases h
  | cons s rs => rw [push, if_pos (Option.some.inj h), List.length_cons, List.length_cons]

/-! ### Other cuts -/

namespace Cut

variable {q : Int} {rest : List Run}

/-- A cut of several positions starts with a run that holds the first of them. -/
theorem exists_first (h : Cut i (q :: ps) rs) : ∃ r rest, rs = r :: rest ∧ r.start = i ∧ i < r.stop
    ∧ q = r.position ∧ Tile rest r.stop (i + 1 + ps.length) := by
  have hlength : i + (q :: ps).length = i + 1 + ps.length := by
    rw [List.length_cons]
    omega
  obtain ⟨htile, hposition⟩ := h
  rw [hlength] at htile
  generalize hb : i + 1 + ps.length = b at htile
  cases htile with
  | nil => omega
  | @cons r rest _ b ha hr hrest =>
    have hfirst := hposition r List.mem_cons_self i (by omega) hr
    rw [Nat.sub_self] at hfirst
    exact ⟨r, rest, rfl, ha, hr, Option.some.inj hfirst, hb ▸ hrest⟩

/-- An index after the first one is read in the rest of the positions. -/
theorem position_rest (h : Cut i (q :: ps) rs) (hr : r ∈ rs) {k : Nat} (hlow : i + 1 ≤ k)
    (hstart : r.start ≤ k) (hstop : k < r.stop) : ps[k - (i + 1)]? = some (r.position : Int) := by
  have hposition := h.position r hr k hstart hstop
  rwa [show k - i = k - (i + 1) + 1 by omega, List.getElem?_cons_succ] at hposition

/-- Without the run of the first position alone the rest is still cut. -/
theorem drop_first (h : Cut i (q :: ps) (r :: rest)) (hrest : Tile rest (i + 1) (i + 1 + ps.length)) :
    Cut (i + 1) ps rest where
  tile := hrest
  position := by
    intro s hs k hstart hstop
    have hlow := (hrest.bounds hs).1
    exact h.position_rest (List.mem_cons_of_mem _ hs) (by omega) hstart hstop

/-- A longer first run without its first value still cuts the rest. -/
theorem shorten_first (h : Cut i (q :: ps) (r :: rest)) (hr : i + 1 < r.stop) (hstart : r.start = i)
    (hrest : Tile rest r.stop (i + 1 + ps.length)) :
    Cut (i + 1) ps ({ r with start := i + 1 } :: rest) where
  tile := .cons rfl hr hrest
  position := by
    intro s hs k hlow hstop
    rcases List.mem_cons.mp hs with rfl | hs
    · have hk : r.start ≤ k := hstart ▸ Nat.le_of_succ_le hlow
      exact h.position_rest List.mem_cons_self hlow hk hstop
    · have hbounds := (hrest.bounds hs).1
      exact h.position_rest (List.mem_cons_of_mem _ hs) (by omega) hlow hstop

/-- No cut of positions has fewer runs than the runs of the positions. -/
theorem length_ofPositions_le (h : Cut i ps rs) :
    (ofPositions i (ps.map Int.toNat)).length ≤ rs.length := by
  induction ps generalizing i rs with
  | nil => exact Nat.zero_le _
  | cons q ps ih =>
    obtain ⟨r, rest, rfl, hstart, hstop, hq, hrest⟩ := h.exists_first
    rw [List.map_cons, ofPositions]
    rcases Nat.eq_or_lt_of_le hstop with hone | hmore
    -- The first run holds one value, and the others cut the rest.
    · rw [Nat.succ_eq_add_one] at hone
      have hle := ih (h.drop_first (hone ▸ hrest))
      have hpush := length_push_le i q.toNat (ofPositions (i + 1) (ps.map Int.toNat))
      rw [List.length_cons]
      omega
    -- The first run holds the second value too, which is then at the same position and joins it.
    · have hle := ih (h.shorten_first hmore hstart hrest)
      have hsecond := h.position_rest List.mem_cons_self (Nat.le_refl _) (by omega) hmore
      rw [Nat.sub_self, ← hq] at hsecond
      have hhead : (ofPositions (i + 1) (ps.map Int.toNat)).head?.map Run.position = some q.toNat := by
        rw [head?_ofPositions, List.head?_eq_getElem?, List.getElem?_map, hsecond]
        rfl
      rw [length_push_of_head hhead]
      exact hle

end Cut

end Run

namespace SearchTable

variable {t : SearchTable} {xs : List Binary64} {x : Binary64}

/-- Of the values without an owner the first one is reported, or the last one if the batch is processed from its end. -/
theorem exists_of_unowned? {backward : Bool} (h : t.unowned? xs backward = some x) :
    ∃ k : Nat, xs[k]? = some x ∧ t.locate x < 0
      ∧ ∀ (j : Nat) (z : Binary64), (if backward then k < j else j < k) → xs[j]? = some z → ¬ t.locate z < 0 := by
  obtain ⟨hx, k, hk, hkx, hbefore⟩ := List.find?_eq_some_iff_getElem.mp h
  rw [decide_eq_true_eq] at hx
  cases backward with
  | false =>
    refine ⟨k, List.getElem?_eq_some_iff.mpr ⟨hk, hkx⟩, hx, fun j z hj hz => ?_⟩
    obtain ⟨hlen, rfl⟩ := List.getElem?_eq_some_iff.mp hz
    simpa using hbefore j hj
  -- What comes before in the reversed batch comes after in the batch.
  | true =>
    simp only [if_true] at hk hkx hbefore ⊢
    rw [List.length_reverse] at hk
    rw [List.getElem_reverse] at hkx
    refine ⟨xs.length - 1 - k, List.getElem?_eq_some_iff.mpr ⟨by omega, hkx⟩, hx, fun j z hj hz => ?_⟩
    obtain ⟨hlen, rfl⟩ := List.getElem?_eq_some_iff.mp hz
    have hlast := hbefore (xs.length - 1 - j) (by omega)
    rw [List.getElem_reverse] at hlast
    simpa [show xs.length - 1 - (xs.length - 1 - j) = j by omega] using hlast

/-- Only minus one stands for no owner. -/
theorem Ordered.locate_neg_iff (ht : t.Ordered) : t.locate x < 0 ↔ t.locate x = -1 := by
  refine ⟨fun hneg => ?_, fun heq => by omega⟩
  have hlocates := ht.locates_locate x
  cases howner : t.owner? x with
  | none => exact hlocates.none.mpr howner
  | some i =>
    by_cases hsame : t.locate x = i
    · omega
    · obtain ⟨-, -, k, hk, -⟩ := hlocates.last i howner hsame
      omega

end SearchTable

namespace Legend

variable {l : Legend Transform} {xs : List Binary64} {x : Binary64}

/-- What is asked of the runs of a batch by a legend, in terms of the positions that the legend finds for the values
of the batch. -/
structure CutByOwners (l : Legend Transform) (xs : List Binary64) (backward : Bool)
    (result : Except Error (List Run)) : Prop where
  /-- If every value has an owner, the runs cut the batch, each stands for a category, and neighbours differ. No other
  cut has fewer runs. -/
  owned : -1 ∉ l.owners xs → ∃ rs, result = .ok rs ∧ Run.Cut 0 (l.owners xs) rs
    ∧ (∀ r ∈ rs, ∃ c, l.categories[r.position]? = some c) ∧ rs.IsChain Run.Differ
    ∧ ∀ others, Run.Cut 0 (l.owners xs) others → rs.length ≤ others.length
  /-- Otherwise the first value without an owner is reported, or the last one if the batch is processed from its
  end. -/
  unowned : -1 ∈ l.owners xs → ∃ (k : Nat) (x : Binary64), xs[k]? = some x ∧ (l.owners xs)[k]? = some (-1)
    ∧ (∀ j : Nat, (if backward then k < j else j < k) → (l.owners xs)[j]? ≠ some (-1))
    ∧ result = .error (.noCategory x)

theorem getElem?_owners {k : Nat} : (l.owners xs)[k]? = (xs[k]?).map l.table.locate := by
  rw [owners, SearchTable.locateAll, List.getElem?_map]

theorem mem_owners {p : Int} : p ∈ l.owners xs ↔ ∃ x ∈ xs, l.table.locate x = p := List.mem_map

namespace IsBuilt

/-- If every value has an owner, each run stands for a category. -/
theorem exists_category_of_cut (hl : l.IsBuilt) {rs : List Run} {r : Run}
    (hcut : Run.Cut 0 (l.owners xs) rs) (hr : r ∈ rs) : ∃ c, l.categories[r.position]? = some c := by
  have hbounds := hcut.tile.bounds hr
  have hfirst := hcut.position r hr r.start (Nat.le_refl _) hbounds.2.1
  rw [getElem?_owners, Option.map_eq_some_iff] at hfirst
  obtain ⟨x, -, hlocate⟩ := hfirst
  have hlt := hl.sound.ordered.locate_lt_length hlocate
  rw [table, List.length_map] at hlt
  exact ⟨_, List.getElem?_eq_getElem hlt⟩

/-- The runs found by search cut the batch as rarely as possible. -/
theorem searchedRuns_cut (hl : l.IsBuilt) (xs : List Binary64) (backward : Bool) :
    l.CutByOwners xs backward (l.table.searchedRuns xs backward) := by
  have ht := hl.sound.ordered
  unfold SearchTable.searchedRuns
  cases hunowned : l.table.unowned? xs backward with
  | none =>
    have hall := SearchTable.unowned?_eq_none_iff.mp hunowned
    have hnonneg : ∀ p ∈ l.owners xs, 0 ≤ p := by
      intro p hp
      obtain ⟨x, hx, rfl⟩ := mem_owners.mp hp
      exact Int.not_lt.mp (hall x hx)
    refine ⟨fun _ => ?_, fun hmem => absurd (hnonneg _ hmem) (by omega)⟩
    have hcut := Run.cut_ofPositions hnonneg 0
    exact ⟨_, rfl, hcut, fun r hr => hl.exists_category_of_cut hcut hr, Run.isChain_ofPositions 0 _,
      fun others hothers => hothers.length_ofPositions_le⟩
  | some x =>
    obtain ⟨k, hk, hneg, hothers⟩ := SearchTable.exists_of_unowned? hunowned
    rw [ht.locate_neg_iff] at hneg
    have hposition : (l.owners xs)[k]? = some (-1) := by rw [getElem?_owners, hk, Option.map_some, hneg]
    refine ⟨fun hnot => absurd (List.mem_of_getElem? hposition) hnot,
      fun _ => ⟨k, x, hk, hposition, fun j hj hminus => ?_, rfl⟩⟩
    rw [getElem?_owners, Option.map_eq_some_iff] at hminus
    obtain ⟨z, hz, hlocate⟩ := hminus
    exact hothers j z hj hz (ht.locate_neg_iff.mpr hlocate)

end IsBuilt

/-- The runs of a batch cut it as rarely as possible into stretches with one owner each, whatever the hints and
whether or not the last owner is tried first. If a value has no owner, the one that the batch meets first is
reported. -/
theorem runs_cut (hl : l.IsBuilt) (hne : xs ≠ []) (tryLastFirst backward : Bool) (hints : Hints) :
    l.CutByOwners xs backward (l.table.runs tryLastFirst hints xs backward) := by
  rw [hl.sound.ordered.runs_eq tryLastFirst hints backward hne]
  exact hl.searchedRuns_cut xs backward

/-- Two depths, land and a depth are cut into at most three runs. Of two values that are no samples, the last one is
reported if the batch is processed from its end. -/
theorem runs_cut_depths : ∃ cs l, depthCategories = .ok cs ∧ ofCategories 0 .default cs = .ok l
    ∧ l.owners [.one, .two, .zero, .ten] = [1, 1, 0, 1]
    ∧ ∀ (tryLastFirst : Bool) (hints : Hints),
      (∃ rs, l.table.runs tryLastFirst hints [.one, .two, .zero, .ten] false = .ok rs
        ∧ Run.Cut 0 [1, 1, 0, 1] rs ∧ rs.IsChain Run.Differ ∧ rs.length ≤ 3)
      ∧ l.table.runs tryLastFirst hints [.one, .ofInt 100, .zero, .ofInt 200] true
        = .error (.noCategory (.ofInt 200)) := by
  have hpasses : passes 0 .default depthCategories (fun _ l =>
      l.owners [.one, .two, .zero, .ten] = [1, 1, 0, 1]
        ∧ l.owners [.one, .ofInt 100, .zero, .ofInt 200] = [1, -1, 0, -1]) = true := by decide +kernel
  obtain ⟨cs, l, hcs, hl, howners⟩ := exists_of_passes hpasses
  obtain ⟨hknown, hunknown⟩ := of_decide_eq_true howners
  obtain ⟨hdeclared, haffine⟩ := of_depthCategories hcs
  have hbuilt := isBuilt_of_isAffine hdeclared haffine hl
  refine ⟨cs, l, hcs, hl, hknown, fun tryLastFirst hints => ⟨?_, ?_⟩⟩
  · have hne : ([.one, .two, .zero, .ten] : List Binary64) ≠ [] := by simp
    have hruns := runs_cut hbuilt hne tryLastFirst false hints
    obtain ⟨rs, hrs, hcut, -, hdiffer, hshortest⟩ := hruns.owned (by simp [hknown])
    rw [hknown] at hcut hshortest
    exact ⟨rs, hrs, hcut, hdiffer, hshortest _ (Run.cut_ofPositions (by simp) 0)⟩
  · have hne : ([.one, .ofInt 100, .zero, .ofInt 200] : List Binary64) ≠ [] := by simp
    have hruns := runs_cut hbuilt hne tryLastFirst true hints
    obtain ⟨k, x, hx, hk, hlast, herror⟩ := hruns.unowned (by simp [hunknown])
    rw [hunknown] at hk hlast
    -- No value without an owner is behind the reported one, so it is the last one.
    have hlen := (List.getElem?_eq_some_iff.mp hk).1
    have hthird : ¬ k < 3 := fun hlt => hlast 3 hlt rfl
    obtain rfl : k = 3 := by
      rw [show [1, -1, 0, (-1 : Int)].length = 4 from rfl] at hlen
      omega
    rw [herror, ← Option.some.inj hx]

end Legend

end RasterCategories
