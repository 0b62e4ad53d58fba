import RasterCategories.Search.Elementwise
import RasterCategories.Search.Hint
/-!
# Runs of values with one owner

A batch is cut into runs, the longest stretches of consecutive values with the same owner, so that each
run is converted at once. The last owner is tried for the whole batch before any value is searched for.

* `Run.ofPositions`: the runs of a list of positions.
* `SearchTable.runs`: the runs of a batch, or the value that no side owns.
-/

namespace RasterCategories

/-- Consecutive values with one owner: those from `start` up to, and without, `stop`. -/
structure Run where
  /-- The index of the first value. -/
  start : Nat
  /-- The index after the last value. -/
  stop : Nat
  /-- The position of the owner. -/
  position : Nat
deriving DecidableEq

/-- Puts one value in front of runs: it joins the first run if that has the same owner. -/
def Run.push (index position : Nat) : List Run → List Run
  | [] => [⟨index, index + 1, position⟩]
  | r :: rs =>
    if r.position = position then { r with start := index } :: rs
    else ⟨index, index + 1, position⟩ :: r :: rs

/-- The runs of positions, of which the first has the given index. -/
def Run.ofPositions (index : Nat) : List Nat → List Run
  | [] => []
  | p :: ps => Run.push index p (Run.ofPositions (index + 1) ps)

namespace SearchTable

/-- The first value without an owner, or the last one if the batch is processed from its end. -/
def unowned? (t : SearchTable) (xs : List Binary64) (backward : Bool) : Option Binary64 :=
  (if backward then xs.reverse else xs).find? fun x => t.locate x < 0

/-- The runs of a batch by search, in the order of the values. -/
def searchedRuns (t : SearchTable) (xs : List Binary64) (backward : Bool) :
    Except Error (List Run) :=
  match t.unowned? xs backward with
  | some x => .error (.noCategory x)
  | none => .ok (Run.ofPositions 0 ((t.locateAll xs).map Int.toNat))

/-- The position to try first, if its side surely owns all values. -/
def hintedForAll? (t : SearchTable) (h : Hints) (xs : List Binary64) : Option Nat :=
  (h.last? t).filter fun i => (t.sides[i]?).any fun s => xs.all s.surelyOwns

/-- The runs of a batch: a single one if the side tried first owns every value, else those found by
search. -/
def runs (t : SearchTable) (tryLastFirst : Bool) (h : Hints) (xs : List Binary64) (backward : Bool) :
    Except Error (List Run) :=
  match if tryLastFirst then t.hintedForAll? h xs else none with
  | some i => .ok [⟨0, xs.length, i⟩]
  | none => t.searchedRuns xs backward

end SearchTable

end RasterCategories
