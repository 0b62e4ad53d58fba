import RasterCategories.Binary32
/-!
# Ordinals in NaN payloads

A qualitative category is converted to a NaN whose payload is the ordinal of the category. The NaN is
a quiet binary32 NaN, widened, so that storing it at half the width loses nothing.

* `Binary64.ofOrdinal` writes an ordinal, `Binary64.ordinal?` reads it back.
-/

namespace RasterCategories

/-- The greatest ordinal: the payload has 22 bits. -/
def maxOrdinal : Nat := 0x3FFFFF

/-- The narrow quiet NaN with payload zero. -/
def ordinalBase : Nat := 0x7FC00000

namespace Binary64

/-- The NaN of an ordinal. -/
def ofOrdinal (ordinal : Nat) : Binary64 := (Binary32.ofPattern (ordinalBase + ordinal)).widen

/-- The ordinal of a NaN, if its narrow pattern is in the range that ordinals use. -/
def ordinal? (x : Binary64) : Option Nat :=
  let pattern := x.narrow.pattern
  if x.isNaN ∧ ordinalBase ≤ pattern ∧ pattern ≤ ordinalBase + maxOrdinal then
    some (pattern - ordinalBase)
  else none

end Binary64

end RasterCategories
