import RasterCategories.Binary64.Order
/-!
# Binary search over bit patterns

`Binary64.binarySearch` looks for a bit pattern in a list sorted in the total order. Each probe first
tries the comparisons of IEEE 754 and falls back to signed bit patterns for what they cannot tell
apart: NaNs and the two zeros. On a list that is not sorted the probes are the same and stay inside it.
-/

namespace RasterCategories.Binary64

/-- The outcome of a search. -/
inductive SearchResult
  /-- An element with the very bits of the key, at this index. -/
  | found (index : Nat)
  /-- No such element; the key would be inserted at this index. -/
  | absent (insertion : Nat)
deriving DecidableEq

/-- Whether an element that is neither below nor above the key for IEEE 754, and has other bits, ranks
below it. A real ranks below every NaN; otherwise the signed patterns decide. -/
def ranksBelow (element key : Binary64) : Bool :=
  if key.isNaN then !element.isNaN || decide (element.signedBits < key.signedBits)
  else !element.isNaN && decide (element.signedBits < key.signedBits)

/-- Searches the elements from index `low` up to, and without, index `high`. -/
def searchBetween (xs : List Binary64) (key : Binary64) (low high : Nat)
    (h : high ≤ xs.length) : SearchResult :=
  if hlt : low < high then
    let mid := (low + high - 1) / 2
    have hmid : mid < xs.length := by omega
    let element := xs[mid]
    if element < key then searchBetween xs key (mid + 1) high h
    else if key < element then searchBetween xs key low mid (by omega)
    else if element = key then .found mid
    else if ranksBelow element key then searchBetween xs key (mid + 1) high h
    else searchBetween xs key low mid (by omega)
  else .absent low
termination_by high - low

/-- The index of an element with the bits of the key, or the index where it would be inserted. -/
def binarySearch (xs : List Binary64) (key : Binary64) : SearchResult :=
  searchBetween xs key 0 xs.length (Nat.le_refl _)

end RasterCategories.Binary64
