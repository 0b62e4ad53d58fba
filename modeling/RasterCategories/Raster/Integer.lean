import RasterCategories.Error
/-!
# Integers of fixed width

A raster may store integers of 8 to 64 bits, with or without a sign. A number is stored in one by cutting
off its fraction and then all bits above the width.

* `IntegerType.wrap`: an integer cut to the width of a type.
* `IntegerType.ofNumber`: a number stored in a type.
-/

namespace RasterCategories

/-- A type of integers. -/
structure IntegerType where
  /-- Whether the type has negative integers, in two's complement. -/
  signed : Bool
  /-- The number of bits. -/
  width : Nat
deriving DecidableEq

namespace IntegerType

/-- The types of 8, 16, 32 and 64 bits. -/
def all : List IntegerType := [8, 16, 32, 64].flatMap fun width => [⟨true, width⟩, ⟨false, width⟩]

/-- The name of a type. -/
def name (t : IntegerType) : String := (if t.signed then "int" else "uint") ++ toString t.width

/-- The type of a name. -/
def ofName? (s : String) : Option IntegerType := all.find? fun t => t.name == s

/-- The integer of the type that has the same low bits. -/
def wrap (t : IntegerType) (n : Int) : Int :=
  let bits := BitVec.ofInt t.width n
  if t.signed then bits.toInt else bits.toNat

/-- Whether an integer is one of the type. -/
def holds (t : IntegerType) (n : Int) : Bool := t.wrap n == n

/-- Whether an integer can be stored with its low bits: it must fit into a signed word of 64 bits, or, for
the unsigned types from 32 bits on, into an unsigned one. -/
def accepts (t : IntegerType) (n : Int) : Bool :=
  holds ⟨true, 64⟩ n || (!t.signed && 32 ≤ t.width && holds ⟨false, 64⟩ n)

/-- A number stored in the type: the low bits of the number without its fraction. -/
def ofNumber (t : IntegerType) (x : Binary64) : Except Error Int :=
  if x.isNaN then .error .integerOfNaN
  else if x.isInfinite then .error .integerOfInfinity
  else if t.accepts x.truncate then .ok (t.wrap x.truncate)
  else .error .integerRange

end IntegerType

end RasterCategories
