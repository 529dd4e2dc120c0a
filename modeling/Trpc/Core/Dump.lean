import Trpc.Core.Json
import Mathlib.Data.Nat.Digits.Defs

/-!
# The JSON Printer

`Json::dump` and the stream operators behind it. The object operator walks the
map in key order and the array operator walks the vector, each putting a comma
after every element but the last. Strings and keys are written between quotes
as they are: neither `FormatString` nor the object operator looks at the bytes
inside.

## Main definitions

* `printInt`: What `os << i` writes for an `int`.
* `dump`: The text of a value.
-/

namespace Vsjson

variable {D : Type}

/-- A decimal digit as a character. -/
def digitChar (d : Nat) : UInt8 := (48 + d).toUInt8

/-- A natural number in decimal. -/
def printNat (n : Nat) : Str :=
  if n = 0 then [Ch.zero] else (Nat.digits 10 n).reverse.map digitChar

/-- What `os << i` writes. -/
def printInt (i : Int32) : Str :=
  if i.toInt < 0 then Ch.minus :: printNat i.toInt.natAbs else printNat i.toInt.natAbs

/-- A string between quotes (`operator<<(std::ostream &, FormatString &)`). -/
def printString (s : Str) : Str := Ch.quote :: (s ++ [Ch.quote])

mutual

/-- `dump()`. -/
def dump [DecimalImpl D] : Json D → Str
  | .null => text "null"
  | .object members => Ch.lbrace :: (dumpMembers members ++ [Ch.rbrace])
  | .array elems => Ch.lbracket :: (dumpElems elems ++ [Ch.rbracket])
  | .string s => printString s
  | .integer i => printInt i
  | .decimal d => DecimalImpl.print d
  | .boolean b => if b then text "true" else text "false"

/-- The elements of an array, separated by commas. -/
def dumpElems [DecimalImpl D] : List (Json D) → Str
  | [] => []
  | j :: js => dump j ++ (if js.isEmpty then [] else Ch.comma :: dumpElems js)

/-- The members of an object, separated by commas. -/
def dumpMembers [DecimalImpl D] : List (Str × Json D) → Str
  | [] => []
  | (k, j) :: ms =>
    printString k ++ Ch.colon :: (dump j ++ (if ms.isEmpty then [] else Ch.comma :: dumpMembers ms))

end

end Vsjson
