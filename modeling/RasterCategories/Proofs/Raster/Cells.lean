import Mathlib.Tactic.Common
import RasterCategories.Raster.Cells
/-!
# One cell at a time

What a write changes is said for each cell: a cell of the written window holds what was written, at the
width of the store, and every other cell holds what it held before.

* `Cell` and `Cells.cell?`: one stored number.
* `Cells.cell?_store`: a cell after a write.
* `Cells.slice_store_of_disjoint`: a window that a write leaves alone.
-/

namespace RasterCategories

/-- One stored number. -/
inductive Cell
  /-- A number of 32 bits. -/
  | single (x : Binary32)
  /-- A number of 64 bits. -/
  | double (x : Binary64)
deriving DecidableEq

namespace Cell

/-- The number at full width. -/
def toDouble : Cell → Binary64
  | single x => x.widen
  | double x => x

/-- The number as it is stored at a width. A number that has the width already keeps its bits. -/
def toWidth (w : Width) (c : Cell) : Cell :=
  match w, c with
  | .single, single x => single x
  | .single, double x => single x.narrow
  | .double, c => double c.toDouble

end Cell

namespace Cells

variable {c memory values : Cells} {start count i : Nat}

/-- The cell at a position. -/
def cell? (c : Cells) (i : Nat) : Option Cell :=
  match c with
  | single xs => (xs[i]?).map Cell.single
  | double xs => (xs[i]?).map Cell.double

theorem cell?_double {xs : List Binary64} : (double xs).cell? i = (xs[i]?).map Cell.double := rfl

theorem cell?_eq_none (h : c.size ≤ i) : c.cell? i = none := by
  cases c with
  | single xs | double xs => exact Option.map_eq_none_iff.mpr (List.getElem?_eq_none h)

/-- Cells of one width are equal if each cell is. -/
theorem ext_cell? {d : Cells} (hw : c.width = d.width) (h : ∀ i, c.cell? i = d.cell? i) : c = d := by
  cases c <;> cases d <;> cases hw
  all_goals
    refine congrArg _ (List.ext_getElem? fun i => ?_)
    have hi := h i
    simp only [cell?] at hi
    exact Option.map_injective (fun a b hab => by cases hab; rfl) hi

/-! ### Reading -/

theorem getElem?_toDoubles : c.toDoubles[i]? = (c.cell? i).map Cell.toDouble := by
  cases c with
  | single xs =>
    rw [toDoubles, cell?, List.getElem?_map, Option.map_map]
    rfl
  | double xs =>
    rw [toDoubles, cell?, Option.map_map]
    exact Option.map_id_fun'.symm ▸ rfl

theorem length_toDoubles (c : Cells) : c.toDoubles.length = c.size := by
  cases c <;> simp [toDoubles, size]

theorem width_slice : (c.slice start count).width = c.width := by
  cases c <;> rfl

theorem size_slice : (c.slice start count).size = min count (c.size - start) := by
  cases c <;> simp [slice, size]

/-- A cell of a window. -/
theorem cell?_slice : (c.slice start count).cell? i = if i < count then c.cell? (start + i) else none := by
  cases c with
  | single xs | double xs =>
    simp only [slice, cell?, List.getElem?_take, List.getElem?_drop]
    split <;> rfl

/-- The numbers of a window are a window of the numbers. -/
theorem toDoubles_slice : (c.slice start count).toDoubles = (c.toDoubles.drop start).take count := by
  cases c with
  | single xs => rw [slice, toDoubles, toDoubles, List.map_take, List.map_drop]
  | double xs => rfl

theorem size_zeros (w : Width) (n : Nat) : (zeros w n).size = n := by
  cases w <;> simp [zeros, size]

theorem width_zeros (w : Width) (n : Nat) : (zeros w n).width = w := by
  cases w <;> rfl

/-! ### Writing -/

/-- An element of a list of which some elements were replaced. -/
theorem getElem?_replaceFrom {α : Type} {new old : List α} (h : start + new.length ≤ old.length) :
    (replaceFrom start new old)[i]? =
      if start ≤ i ∧ i < start + new.length then new[i - start]? else old[i]? := by
  have hstart : min start old.length = start := by omega
  -- The three parts of the list are asked one after the other.
  unfold replaceFrom
  rw [List.append_assoc, List.getElem?_append, List.length_take, hstart]
  split
  · next hi =>
    rw [List.getElem?_take_of_lt hi, if_neg (by omega)]
  · next hi =>
    rw [List.getElem?_append]
    split
    · next hnew => rw [if_pos (by omega)]
    · next hnew =>
      rw [List.getElem?_drop, if_neg (by omega)]
      congr 1
      omega

theorem length_replaceFrom {α : Type} {new old : List α} (h : start + new.length ≤ old.length) :
    (replaceFrom start new old).length = old.length := by
  simp only [replaceFrom, List.length_append, List.length_take, List.length_drop]
  omega

theorem width_store : (memory.store start values).width = memory.width := by
  cases memory <;> rfl

theorem length_toSingles (c : Cells) : c.toSingles.length = c.size := by
  cases c <;> simp [toSingles, size]

/-- A write inside the memory keeps its size. -/
theorem size_store (h : start + values.size ≤ memory.size) :
    (memory.store start values).size = memory.size := by
  cases memory with
  | single xs => exact length_replaceFrom (by rw [length_toSingles]; exact h)
  | double xs => exact length_replaceFrom (by rw [length_toDoubles]; exact h)

/-- A cell after a write: inside the written window it holds the written number at the width of the memory,
elsewhere what it held before. -/
theorem cell?_store (h : start + values.size ≤ memory.size) :
    (memory.store start values).cell? i =
      if start ≤ i ∧ i < start + values.size then (values.cell? (i - start)).map (Cell.toWidth memory.width)
      else memory.cell? i := by
  cases memory with
  | single xs =>
    have hlen := length_toSingles values
    rw [store, cell?, getElem?_replaceFrom (by rw [hlen]; exact h), hlen]
    split
    -- Numbers that have the width already are not narrowed again.
    · cases values with
      | single ys =>
        rw [toSingles, cell?, Option.map_map]
        rfl
      | double ys =>
        rw [toSingles, cell?, List.getElem?_map, Option.map_map, Option.map_map]
        rfl
    · rfl
  | double xs =>
    have hlen := length_toDoubles values
    rw [store, cell?, getElem?_replaceFrom (by rw [hlen]; exact h), hlen]
    split
    · rw [getElem?_toDoubles, Option.map_map]
      rfl
    · rfl

/-- A window that a write leaves alone reads as before. -/
theorem slice_store_of_disjoint {first n : Nat} (h : start + values.size ≤ memory.size)
    (hdisjoint : first + n ≤ start ∨ start + values.size ≤ first) :
    (memory.store start values).slice first n = memory.slice first n := by
  refine ext_cell? (by rw [width_slice, width_slice, width_store]) fun i => ?_
  rw [cell?_slice, cell?_slice]
  split
  · rw [cell?_store h, if_neg (by omega)]
  · rfl

end Cells

end RasterCategories
