import RasterCategories.Binary64.Basic
/-!
# Neighbouring numbers

The unsigned patterns of the numbers of one sign follow each other without gap, so the neighbour of a
number is one pattern away, and the two signs meet at zero. An infinity is its own neighbour outward.
-/

namespace RasterCategories.Binary64

/-- The least number above `x`. -/
def nextUp (x : Binary64) : Binary64 :=
  if x.isNaN then x
  else if x.isZero then ofUnsigned false 1
  else if x.isNegative then ofUnsigned true (x.unsigned - 1)
  else if x.isInfinite then x
  else ofUnsigned false (x.unsigned + 1)

/-- The greatest number below `x`. -/
def nextDown (x : Binary64) : Binary64 :=
  if x.isNaN then x
  else if x.isZero then ofUnsigned true 1
  else if x.isNegative then
    if x.isInfinite then x else ofUnsigned true (x.unsigned + 1)
  else ofUnsigned false (x.unsigned - 1)

end RasterCategories.Binary64
