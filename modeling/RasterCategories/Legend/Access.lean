import RasterCategories.Transform.Equality
/-!
# Access to the categories of a legend

Positions count from the start of a legend, or from its end if they are negative. Categories are
looked up by equality.

* `Legend.get` and `Legend.slice`: categories by position.
* `Legend.position`, `Legend.count` and `Legend.contains`: categories by equality.
* `Legend.conversePosition?`: the same category in the converse legend.
* `Slice.positions`: the positions that a slice selects.
-/

namespace RasterCategories

/-- Positions from one bound up to, and without, another, in steps. -/
structure Slice where
  /-- The first position, by default the end where the steps come from. -/
  start : Option Int
  /-- The position before which the slice ends, by default the end where the steps lead. -/
  stop : Option Int
  /-- The step, one by default; backward if it is negative. -/
  step : Option Int
deriving DecidableEq

namespace Slice

/-- A bound, counted from the end if negative, and confined to the positions from `low` to `high`. -/
def confine (low high length bound : Int) : Int :=
  let bound := if bound < 0 then bound + length else bound
  max low (min high bound)

/-- The positions that the slice selects among those of the given length. -/
def positions (s : Slice) (length : Nat) : Except Error (List Nat) :=
  let step := s.step.getD 1
  let n : Int := length
  if step = 0 then .error .zeroStep
  else
    let (low, high) : Int × Int := if 0 < step then (0, n) else (-1, n - 1)
    let (first, last) := if 0 < step then (low, high) else (high, low)
    let start := (s.start.map (confine low high n)).getD first
    let stop := (s.stop.map (confine low high n)).getD last
    let count :=
      if 0 < step then (stop - start + step - 1) / step else (start - stop - step - 1) / -step
    .ok ((List.range count.toNat).map fun (i : Nat) => (start + i * step).toNat)

end Slice

namespace Legend

variable {τ : Type}

/-- The category at a position, which counts from the end if it is negative. -/
def get (l : Legend τ) (position : Int) : Except Error (Category τ) :=
  let position := if position < 0 then position + l.size else position
  if position < 0 then .error .position
  else
    match l.categories[position.toNat]? with
    | some c => .ok c
    | none => .error .position

/-- The categories that a slice selects. -/
def slice (l : Legend τ) (s : Slice) : Except Error (List (Category τ)) :=
  (s.positions l.size).map fun positions => positions.filterMap fun i => l.categories[i]?

/-- The position of the first category equal to the given one. -/
def position (l : Legend Transform) (c : Category Transform) : Except Error Nat :=
  match l.categories.findIdx? fun d => d.same c with
  | some i => .ok i
  | none => .error .absent

/-- The number of categories equal to the given one. -/
def count (l : Legend Transform) (c : Category Transform) : Nat :=
  l.categories.countP fun d => d.same c

/-- Whether some category is equal to the given one. -/
def contains (l : Legend Transform) (c : Category Transform) : Bool :=
  l.categories.any fun d => d.same c

/-- The position of the first entry of the converse legend that is the category at a position. -/
def conversePosition? (l : Legend Transform) (position : Nat) : Option Nat := do
  let c ← l.categories[position]?
  l.converse.categories.findIdx? fun d => d.origin == c.origin

end Legend

end RasterCategories
