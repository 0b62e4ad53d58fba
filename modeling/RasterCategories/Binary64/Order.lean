import RasterCategories.Binary64.Basic
/-!
# The total order of bit patterns

Categories are sorted by an order that tells every two patterns apart:
`-inf < ... < -0.0 < 0.0 < ... < inf < NaN`, NaNs among themselves by signed bit pattern. It is given
twice: `compare` ranks with unbounded integers, and `orderKey` is the signed 64-bit key on which
tables of real numbers are searched.

* `Binary64.compare`: the order, through `Binary64.rank`.
* `Binary64.orderKey`: the 64-bit key of a number that is not NaN.
* `sortBy`: the stable sort by a key in this order.
-/

namespace RasterCategories

namespace Binary64

/-- The place of a number in the total order: reals before NaNs, then a signed integer. A negative
real ranks by its unsigned pattern, counted down from minus one. -/
def rank (x : Binary64) : Nat × Int :=
  if x.isNaN then (1, x.signedBits)
  else if x.isNegative then (0, -1 - (x.unsigned : Int))
  else (0, x.unsigned)

/-- Three-way comparison in the total order. -/
def compare (x y : Binary64) : Ordering :=
  match Ord.compare x.rank.1 y.rank.1 with
  | .eq => Ord.compare x.rank.2 y.rank.2
  | o => o

/-- The signed 64-bit key of a number that is not NaN: its own pattern, with all bits but the sign
flipped when it is negative. The key of a NaN has no meaning. -/
def orderKey (x : Binary64) : BitVec 64 :=
  if x.bits.msb then x.bits ^^^ 0x7FFFFFFFFFFFFFFF#64 else x.bits

end Binary64

section Sorting

variable {α : Type u}

/-- Inserts an element before the first one whose key is not below its own. -/
def insertBy (key : α → Binary64) (a : α) : List α → List α
  | [] => [a]
  | b :: bs =>
    if (key a).compare (key b) = .gt then b :: insertBy key a bs else a :: b :: bs

/-- Sorts by a key in the total order; elements with equal keys keep their order. -/
def sortBy (key : α → Binary64) (as : List α) : List α := as.foldr (insertBy key) []

/-- Inserting adds the element and nothing else. -/
theorem insertBy_perm (key : α → Binary64) (a : α) (as : List α) :
    (insertBy key a as).Perm (a :: as) := by
  induction as with
  | nil => exact List.Perm.refl _
  | cons b bs ih =>
    rw [insertBy]
    split
    · exact (ih.cons b).trans (List.Perm.swap a b bs)
    · exact List.Perm.refl _

/-- Sorting rearranges the elements. -/
theorem sortBy_perm (key : α → Binary64) (as : List α) : (sortBy key as).Perm as := by
  induction as with
  | nil => exact List.Perm.refl _
  | cons a as ih => exact (insertBy_perm key a _).trans (ih.cons a)

end Sorting

end RasterCategories
