import RasterCategories.Proofs.Search.Elementwise
import RasterCategories.Proofs.Search.Hint
import RasterCategories.Search.Runs
/-!
# The runs of a batch

The runs of a batch are non-empty, follow each other without gap, and each holds values of its own owner.
Trying the last owner for the whole batch leads to the same runs as the search.

* `Run.Tile`: runs that follow each other from one index up to another.
* `Run.tile_ofPositions` and `Run.position_ofPositions`: the runs of positions.
* `SearchTable.Ordered.runs_eq`: neither the hints nor the setting to try the last owner shows in the runs.
-/

namespace RasterCategories

namespace Run

/-- The runs are not empty, and follow each other from one index up to another. -/
inductive Tile : List Run → Nat → Nat → Prop
  /-- Nothing is between an index and itself. -/
  | nil (a : Nat) : Tile [] a a
  /-- The rest starts where the first run stops. -/
  | cons {r : Run} {rs : List Run} {a b : Nat} (ha : r.start = a) (hr : a < r.stop)
      (hrs : Tile rs r.stop b) : Tile (r :: rs) a b

namespace Tile

variable {r : Run} {rs : List Run} {a b k : Nat}

theorem le (h : Tile rs a b) : a ≤ b := by
  induction h with
  | nil => exact Nat.le_refl _
  | cons _ hr _ ih => omega

/-- A run lies inside the tiled range. -/
theorem bounds (h : Tile rs a b) (hr : r ∈ rs) : a ≤ r.start ∧ r.start < r.stop ∧ r.stop ≤ b := by
  induction h with
  | nil => cases hr
  | cons ha hlt hrs ih =>
    rcases List.mem_cons.mp hr with rfl | hr
    · exact ⟨ha.ge, ha ▸ hlt, hrs.le⟩
    · have := ih hr
      omega

/-- Each run stops before the following ones start. -/
theorem pairwise (h : Tile rs a b) : rs.Pairwise fun r s => r.stop ≤ s.start := by
  induction h with
  | nil => exact List.Pairwise.nil
  | cons _ _ hrs ih => exact List.pairwise_cons.mpr ⟨fun s hs => (hrs.bounds hs).1, ih⟩

/-- Every index of the tiled range is in a run. -/
theorem cover (h : Tile rs a b) (ha : a ≤ k) (hb : k < b) :
    ∃ r ∈ rs, r.start ≤ k ∧ k < r.stop := by
  induction h with
  | nil => omega
  | @cons r rs _ b hr _ _ ih =>
    rcases Nat.lt_or_ge k r.stop with hk | hk
    · exact ⟨r, List.mem_cons_self, hr ▸ ha, hk⟩
    · obtain ⟨s, hs, hsk⟩ := ih hk hb
      exact ⟨s, List.mem_cons_of_mem _ hs, hsk⟩

end Tile

/-- A value in front of runs that follow it leaves no gap. -/
theorem tile_push {rs : List Run} {i b : Nat} (p : Nat) (h : Tile rs (i + 1) b) :
    Tile (push i p rs) i b := by
  cases h with
  | nil => exact .cons rfl (Nat.lt_succ_self i) (.nil _)
  | cons ha hr hrs =>
    rw [push]
    split
    · exact .cons rfl (Nat.lt_trans (Nat.lt_succ_self i) hr) hrs
    · exact .cons rfl (Nat.lt_succ_self i) (.cons ha hr hrs)

/-- The runs of positions follow each other from the first index up to the last. -/
theorem tile_ofPositions (i : Nat) (ps : List Nat) :
    Tile (ofPositions i ps) i (i + ps.length) := by
  induction ps generalizing i with
  | nil => exact .nil i
  | cons p ps ih =>
    have hrest := ih (i + 1)
    rw [show i + 1 + ps.length = i + (p :: ps).length by rw [List.length_cons]; omega] at hrest
    exact tile_push p hrest

/-- The position of a run is that of each of its values. -/
theorem position_ofPositions {r : Run} {i k : Nat} {ps : List Nat} (hr : r ∈ ofPositions i ps)
    (hstart : r.start ≤ k) (hstop : k < r.stop) : ps[k - i]? = some r.position := by
  induction ps generalizing i r with
  | nil => cases hr
  | cons p ps ih =>
    have htile := tile_ofPositions (i + 1) ps
    -- An index in a run of the rest is read one place further in the whole list.
    have hlift : ∀ s ∈ ofPositions (i + 1) ps, s.start ≤ k → k < s.stop →
        (p :: ps)[k - i]? = some s.position := by
      intro s hs hsk hks
      have hlow := (htile.bounds hs).1
      rw [show k - i = k - (i + 1) + 1 by omega, List.getElem?_cons_succ]
      exact ih hs hsk hks
    rw [ofPositions] at hr
    generalize ofPositions (i + 1) ps = rest at hr htile hlift
    generalize i + 1 + ps.length = b at htile
    cases htile with
    | nil =>
      obtain rfl := List.mem_singleton.mp hr
      obtain rfl : k = i := by simp only at hstart hstop; omega
      simp
    | @cons s rest _ b hs _ hrest =>
      rw [push] at hr
      split at hr
      -- The value joins the first run, which now starts one index earlier.
      · next hp =>
        rcases List.mem_cons.mp hr with rfl | hr
        · have hik : i ≤ k := hstart
          rcases Nat.eq_or_lt_of_le hik with rfl | hlt
          · simp [hp]
          · exact hlift s List.mem_cons_self (by omega) hstop
        · exact hlift r (List.mem_cons_of_mem _ hr) hstart hstop
      · rcases List.mem_cons.mp hr with rfl | hr
        · obtain rfl : k = i := by simp only at hstart hstop; omega
          simp
        · exact hlift r hr hstart hstop

/-- Equal positions make one run. -/
theorem ofPositions_replicate (i n p : Nat) :
    ofPositions i (List.replicate (n + 1) p) = [⟨i, i + (n + 1), p⟩] := by
  induction n generalizing i with
  | zero => rfl
  | succ n ih =>
    rw [List.replicate_succ, ofPositions, ih (i + 1), push, if_pos rfl]
    rw [show i + 1 + (n + 1) = i + (n + 1 + 1) by omega]

end Run

namespace SearchTable

variable {t : SearchTable} {xs : List Binary64} {x : Binary64} {rs : List Run}

/-- If no least value repeats, none is the least value of two sides. -/
theorem leastOnce_of_nodup (h : t.lows.Nodup) (x : Binary64) : t.LeastOnce x := by
  intro i j hi hj
  have hlen := (List.getElem?_eq_some_iff.mp hi).1
  exact (List.getElem?_inj hlen h).mp (hi.trans hj.symm)

/-- A batch reads the same values in either direction. -/
theorem mem_directed {α : Type} {a : α} {as : List α} (backward : Bool) :
    a ∈ (if backward then as.reverse else as) ↔ a ∈ as := by
  cases backward <;> simp

/-- No value without an owner is found if every value is located. -/
theorem unowned?_eq_none_iff {backward : Bool} :
    t.unowned? xs backward = none ↔ ∀ x ∈ xs, ¬ t.locate x < 0 := by
  simp only [unowned?, List.find?_eq_none, mem_directed, decide_eq_true_eq]

/-- The runs found by search follow each other over the whole batch, and hold the values located at their
positions. -/
theorem tile_searchedRuns {backward : Bool} (h : t.searchedRuns xs backward = .ok rs) :
    Run.Tile rs 0 xs.length ∧
      ∀ r ∈ rs, ∀ (k : Nat) (x : Binary64), r.start ≤ k → k < r.stop → xs[k]? = some x →
        t.locate x = r.position := by
  unfold searchedRuns at h
  split at h
  · cases h
  · next hnone =>
    obtain rfl := Except.ok.inj h
    have htile := Run.tile_ofPositions 0 ((t.locateAll xs).map Int.toNat)
    rw [locateAll, List.length_map, List.length_map, Nat.zero_add] at htile
    refine ⟨htile, fun r hr k x hstart hstop hx => ?_⟩
    have hp := Run.position_ofPositions hr hstart hstop
    rw [locateAll, List.map_map, Nat.sub_zero, List.getElem?_map, hx, Option.map_some,
      Option.some_inj, Function.comp_apply] at hp
    -- Read as a natural number, the position of a value that is located nowhere would be zero.
    have hpos := unowned?_eq_none_iff.mp hnone x (List.mem_of_getElem? hx)
    omega

/-- The direction of a batch changes only which value without an owner is reported. -/
theorem searchedRuns_ok_of_ok {backward : Bool} (h : t.searchedRuns xs backward = .ok rs)
    (forward : Bool) : t.searchedRuns xs forward = .ok rs := by
  unfold searchedRuns at h ⊢
  split at h
  · cases h
  · next hnone =>
    rw [unowned?_eq_none_iff.mpr (unowned?_eq_none_iff.mp hnone)]
    exact h

namespace Ordered

/-- A sure owner of all values makes one run, which the search finds too. -/
theorem searchedRuns_of_surelyOwns (ht : t.Ordered) {i : Nat} {s : Side} (backward : Bool)
    (hne : xs ≠ []) (hs : t.sides[i]? = some s) (hsure : ∀ x ∈ xs, s.surelyOwns x = true) :
    t.searchedRuns xs backward = .ok [⟨0, xs.length, i⟩] := by
  have hlocate : ∀ x ∈ xs, t.locate x = i := by
    intro x hx
    have hunique := ht.unique_of_surelyOwns hs (hsure x hx)
    -- No other side contains the value, so none repeats it as its least value.
    have honce : t.LeastOnce x := by
      intro j k hj hk
      obtain ⟨a, ha, hax⟩ := getElem?_lows.mp hj
      obtain ⟨b, hb, hbx⟩ := getElem?_lows.mp hk
      rw [hunique j a ha (contains_low hax), hunique k b hb (contains_low hbx)]
    rw [ht.locate_eq honce, ht.owner?_eq_of_surelyOwns hs (hsure x hx)]
    rfl
  have hnone : t.unowned? xs backward = none := by
    refine unowned?_eq_none_iff.mpr fun x hx => ?_
    rw [hlocate x hx]
    omega
  have hpositions : (t.locateAll xs).map Int.toNat = List.replicate xs.length i := by
    rw [locateAll, List.map_map, List.eq_replicate_iff]
    refine ⟨List.length_map _, fun p hp => ?_⟩
    obtain ⟨x, hx, rfl⟩ := List.mem_map.mp hp
    rw [Function.comp_apply, hlocate x hx, Int.toNat_natCast]
  obtain ⟨n, hn⟩ := Nat.exists_eq_succ_of_ne_zero (mt List.length_eq_zero_iff.mp hne)
  unfold searchedRuns
  rw [hnone, hpositions, hn, Run.ofPositions_replicate, Nat.zero_add]

/-- Neither the hints nor the setting to try the last owner first shows in the runs of a batch. -/
theorem runs_eq (ht : t.Ordered) (tryLastFirst : Bool) (h : Hints) (backward : Bool)
    (hne : xs ≠ []) : t.runs tryLastFirst h xs backward = t.searchedRuns xs backward := by
  unfold runs
  split
  · next i hi =>
    have hhint : t.hintedForAll? h xs = some i := by
      split at hi
      · exact hi
      · cases hi
    obtain ⟨-, hany⟩ := Option.filter_eq_some_iff.mp hhint
    obtain ⟨s, hs, hall⟩ := (Option.any_eq_true _ _).mp hany
    exact (ht.searchedRuns_of_surelyOwns backward hne hs (List.all_eq_true.mp hall)).symm
  · rfl

end Ordered

end SearchTable

end RasterCategories
