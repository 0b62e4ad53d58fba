import RasterCategories.Binary64.Arithmetic
/-!
# Reading numbers

A text reads as a number if, without surrounding blanks, it is an optional sign followed by a decimal
with an optional exponent, or by one of the words `inf`, `infinity` and `nan` in any case. Single
underscores may stand between digits. Blanks and digits are those of Unicode.

* `Binary64.ofText?`: the number that a text reads as.
-/

namespace RasterCategories

namespace Decimal

/-- The code points of the digits zero; the other nine digits follow each of them. -/
def zeroDigits : List Nat := [
  0x30, 0x660, 0x6F0, 0x7C0, 0x966, 0x9E6, 0xA66, 0xAE6, 0xB66, 0xBE6, 0xC66, 0xCE6, 0xD66, 0xDE6,
  0xE50, 0xED0, 0xF20, 0x1040, 0x1090, 0x17E0, 0x1810, 0x1946, 0x19D0, 0x1A80, 0x1A90, 0x1B50,
  0x1BB0, 0x1C40, 0x1C50, 0xA620, 0xA8D0, 0xA900, 0xA9D0, 0xA9F0, 0xAA50, 0xABF0, 0xFF10, 0x104A0,
  0x10D30, 0x11066, 0x110F0, 0x11136, 0x111D0, 0x112F0, 0x11450, 0x114D0, 0x11650, 0x116C0,
  0x11730, 0x118E0, 0x11950, 0x11C50, 0x11D50, 0x11DA0, 0x16A60, 0x16AC0, 0x16B50, 0x1D7CE,
  0x1D7D8, 0x1D7E2, 0x1D7EC, 0x1D7F6, 0x1E140, 0x1E2F0, 0x1E950, 0x1FBF0
  ]

/-- The value of a decimal digit. -/
def digitValue? (c : Char) : Option Nat :=
  (zeroDigits.find? fun base => base ≤ c.toNat && c.toNat < base + 10).map fun base =>
    c.toNat - base

/-- The code points of blanks, as ranges with both ends. -/
def blankRanges : List (Nat × Nat) := [
  (0x9, 0xD), (0x20, 0x20), (0x85, 0x85), (0xA0, 0xA0), (0x1680, 0x1680), (0x2000, 0x200A),
  (0x2028, 0x2029), (0x202F, 0x202F), (0x205F, 0x205F), (0x3000, 0x3000)
  ]

/-- Whether a character is blank. -/
def isBlank (c : Char) : Bool :=
  blankRanges.any fun range => range.1 ≤ c.toNat && c.toNat ≤ range.2

/-- A text without the blanks at its ends. -/
def trim (cs : List Char) : List Char :=
  ((cs.dropWhile isBlank).reverse.dropWhile isBlank).reverse

/-- Every decimal digit in its ASCII form. -/
def plainDigits (cs : List Char) : List Char :=
  cs.map fun c =>
    match digitValue? c with
    | some d => Char.ofNat (48 + d)
    | none => c

/-- A text without the underscores between digits; another underscore is refused. -/
def dropUnderscores : Option Char → List Char → Option (List Char)
  | _, [] => some []
  | before, '_' :: rest =>
    if before.any Char.isDigit && rest.head?.any Char.isDigit then dropUnderscores (some '_') rest
    else none
  | _, c :: rest => (dropUnderscores (some c) rest).map (c :: ·)

/-- The sign at the start of a text, and the rest. -/
def takeSign : List Char → Bool × List Char
  | '-' :: rest => (true, rest)
  | '+' :: rest => (false, rest)
  | cs => (false, cs)

/-- The natural number with the given digits. -/
def ofDigits (cs : List Char) : Nat := cs.foldl (fun n c => 10 * n + (c.toNat - 48)) 0

/-- The exponent after a significand: nothing, or the letter and an integer. -/
def readExponent? : List Char → Option Int
  | [] => some 0
  | c :: rest =>
    let (negative, digits) := takeSign rest
    if (c == 'e' || c == 'E') && !digits.isEmpty && digits.all Char.isDigit then
      some (if negative then -(ofDigits digits : Int) else ofDigits digits)
    else none

/-- The digits of a significand with the power of ten of the last one, and the rest of the text. -/
def takeSignificand (cs : List Char) : List Char × Int × List Char :=
  let whole := cs.takeWhile Char.isDigit
  match cs.dropWhile Char.isDigit with
  | '.' :: rest =>
    let fraction := rest.takeWhile Char.isDigit
    (whole ++ fraction, -(fraction.length : Int), rest.dropWhile Char.isDigit)
  | rest => (whole, 0, rest)

end Decimal

namespace Binary64

open Decimal

/-- The number `mantissa * 10 ^ exponent`, where the power of ten is only computed if it can matter. -/
def ofScaledDecimal (negative : Bool) (mantissa : Nat) (exponent : Int) : Binary64 :=
  if mantissa = 0 then ofUnsigned negative 0
  else if 400 < exponent then ofUnsigned negative BinaryFormat.double.infinity
  else if exponent + mantissa.log2 < -400 then ofUnsigned negative 0
  else ofDecimal negative mantissa exponent

/-- The number that an unsigned text without blanks reads as. -/
def ofUnsignedText? (negative : Bool) (cs : List Char) : Option Binary64 :=
  let word := cs.map Char.toLower
  if word = "inf".toList || word = "infinity".toList then
    some (ofUnsigned negative BinaryFormat.double.infinity)
  else if word = "nan".toList then some (ofUnsigned negative nan.unsigned)
  else
    let (digits, exponent, rest) := takeSignificand cs
    if digits.isEmpty then none
    else
      match readExponent? rest with
      | some e => some (ofScaledDecimal negative (ofDigits digits) (exponent + e))
      | none => none

/-- The number that a text reads as. -/
def ofText? (s : String) : Option Binary64 :=
  match dropUnderscores none (plainDigits (trim s.toList)) with
  | some cs =>
    let (negative, rest) := takeSign cs
    ofUnsignedText? negative rest
  | none => none

end Binary64

end RasterCategories
