import RasterCategories.Error
import RasterCategories.Search.Table
/-!
# The memory of the last owner

Neighbouring cells of a raster mostly belong to one category, so a legend tries the owner of the last
value before it searches. `Side.surelyOwns` is the test; it passes only for values whose search would
lead to the same side.

* `Hints`: the last owners, one for each legend.
* `Eval`: computations that can fail and that read and update the hints. A failure keeps the updates made
  before it.
-/

namespace RasterCategories

/-- Whether a value belongs to a side without regard to its neighbours. A zero at a bound is left to the
search, which tells the two zeros apart. -/
def Side.surelyOwns (s : Side) (x : Binary64) : Bool :=
  let inside : Bool := s.low ≤ x ∧ x ≤ s.high
  if s.low.EqualTo .zero ∨ s.high.EqualTo .zero then inside && !x.isZero
  else if s.low.isNaN then inside || decide (x = s.low)
  else inside

/-- What tells the table of a legend from those of all others. A legend and its converse have one token, and
of the two only the legend of the real values extrapolates. -/
def SearchTable.key (t : SearchTable) : Nat × Bool := (t.token, t.extrapolates)

/-- The position of the last owner in each legend that was used. -/
structure Hints where
  /-- The positions by the keys of the tables, the latest first. -/
  entries : List ((Nat × Bool) × Nat)
deriving DecidableEq

namespace Hints

/-- No legend was used yet. -/
def empty : Hints := ⟨[]⟩

/-- The position to try first: the last owner, or the first side of a legend not used yet. -/
def last? (h : Hints) (t : SearchTable) : Option Nat :=
  let position := (h.entries.lookup t.key).getD 0
  if position < t.sides.length then some position else none

/-- Remembers the owner of a value. -/
def remember (h : Hints) (t : SearchTable) (position : Nat) : Hints :=
  ⟨(t.key, position) :: h.entries.filter fun entry => entry.1 ≠ t.key⟩

end Hints

/-- A computation that can fail and that reads and updates the hints. -/
abbrev Eval (α : Type) : Type := ExceptT Error (StateM Hints) α

/-- The result of a computation that starts without hints. -/
def Eval.fresh {α : Type} (e : Eval α) : Except Error α := (e.run Hints.empty).1

namespace SearchTable

/-- The position to try first, if its side surely owns the value. -/
def hinted? (t : SearchTable) (h : Hints) (x : Binary64) : Option Nat :=
  (h.last? t).filter fun i => (t.sides[i]?).any fun s => s.surelyOwns x

/-- The position of the owner of a value: the last owner if it surely owns the value, else the result of
the search, which is remembered. -/
def resolve (t : SearchTable) (x : Binary64) : Eval Nat := do
  let hints ← get
  match t.hinted? hints x with
  | some i => return i
  | none =>
    match t.owner? x with
    | some i =>
      set (hints.remember t i)
      return i
    | none => throw (.noCategory x)

end SearchTable

end RasterCategories
