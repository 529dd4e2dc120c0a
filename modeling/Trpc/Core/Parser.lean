import Trpc.Core.Json

/-!
# The JSON Parser

`vsjson::parser`, function by function. The cursor `const char *&p` is modelled
by the bytes from the cursor to the end of the memory the caller owns, so `*p`
is the head of the list, `++p` drops it and `p += 4` drops four. A dereference
past the end of the list is a dereference past the end of that memory, and is
the fault `overrun`. Moving the cursor past the end is harmless by itself: the
empty list stands for every such position, and reading at any of them faults.

What follows the text in memory is the caller's business. A call on a C string
passes the text with its terminator; the RPC code passes the rest of a receive
buffer, which has none.

`int` arithmetic is the arithmetic of `Int32`: a digit string too long for an
`int` wraps.

The recursion through objects and arrays is bounded by a counter. `parse`
starts it at three times the number of bytes, which is always enough, because
every third step at the latest moves the cursor.

## Main definitions

* `skipWhitespace`, `parseString`, `parseInteger`, `parseDeciaml`,
  `parseExponent`, `parseNumberImpl`: The helpers.
* `parseImpl`, `parseObject`, `parseArray`: The recursive functions, with
  `parseMembers` and `parseElems` for the bodies of their loops.
* `parse`: The entry point, on the memory from the cursor on.
* `parseText`: The entry point on a NUL-terminated text.
-/

namespace Vsjson

namespace parser

variable {D : Type}

/-- `*p`. -/
def deref : Str → Res UInt8
  | [] => .fault .overrun
  | c :: _ => .ok c

@[simp] theorem deref_nil : deref [] = .fault .overrun := rfl
@[simp] theorem deref_cons (c : UInt8) (p : Str) : deref (c :: p) = .ok c := rfl

def isWhitespace (ch : UInt8) : Bool :=
  ch == Ch.space || ch == Ch.newline || ch == Ch.tab || ch == Ch.carriage

def skipWhitespace : Str → Res Str
  | [] => .fault .overrun
  | c :: p => if isWhitespace c then skipWhitespace p else .ok (c :: p)

/-- The loop of `parseString` after the opening quote: the bytes up to the
    closing quote, and the cursor behind it. A backslash takes the byte after
    it along, unseen. -/
def scanString : Str → Res (Str × Str)
  | [] => .fault .overrun
  | c :: p =>
    if c = Ch.quote then .ok ([], p)
    else if c = Ch.backslash then
      match p with
      | [] => .fault .overrun
      | e :: p => (scanString p).bind fun r => .ok (c :: e :: r.1, r.2)
    else (scanString p).bind fun r => .ok (c :: r.1, r.2)

@[simp] theorem scanString_quote (p : Str) : scanString (Ch.quote :: p) = .ok ([], p) := by
  cases p <;> rfl

@[simp] theorem scanString_backslash (e : UInt8) (p : Str) :
    scanString (Ch.backslash :: e :: p)
      = (scanString p).bind fun r => .ok (Ch.backslash :: e :: r.1, r.2) := rfl

theorem scanString_other (c : UInt8) (p : Str) (hq : c ≠ Ch.quote) (hb : c ≠ Ch.backslash) :
    scanString (c :: p) = (scanString p).bind fun r => .ok (c :: r.1, r.2) := by
  cases p <;> simp only [scanString, if_neg hq, if_neg hb]

def parseString (p : Str) : Res (Str × Str) := do
  let p ← skipWhitespace p
  let c ← deref p
  if c ≠ Ch.quote then .throw (.json "string parse failure: expect [\"]")
  else scanString (p.drop 1)

/-- `*p - '0'`. -/
def digitVal (c : UInt8) : Int32 := Int32.ofNat (c.toNat - 48)

/-- The digit loop of `parseInteger`. -/
def scanDigits (i : Int32) : Str → Res (Int32 × Str)
  | [] => .fault .overrun
  | c :: p => if isdigit c then scanDigits (i * 10 + digitVal c) p else .ok (i, c :: p)

def parseInteger (p : Str) : Res (Int32 × Str) := do
  let p ← skipWhitespace p
  let (i, p) ← scanDigits 0 p
  let p ← skipWhitespace p
  let c ← deref p
  -- A number never ends a text: something must follow it.
  if c = Ch.nul then .throw (.json "integer parse failure: assert non-\\n")
  else return (i, p)

/-- The digit loop of `parseDeciaml`. -/
def scanFraction [DecimalImpl D] (d idx : D) : Str → Res (D × Str)
  | [] => .fault .overrun
  | c :: p =>
    if isdigit c then
      scanFraction (DecimalImpl.add d (DecimalImpl.mul idx (DecimalImpl.ofInt (digitVal c))))
        (DecimalImpl.mul idx DecimalImpl.tenth) p
    else .ok (d, c :: p)

def parseDeciaml [DecimalImpl D] (p : Str) : Res (D × Str) := do
  let p ← skipWhitespace (p.drop 1)
  let (d, p) ← scanFraction DecimalImpl.zero DecimalImpl.tenth p
  let p ← skipWhitespace p
  let c ← deref p
  if c = Ch.nul then .throw (.json "decimal parse failure: assert non-\\n")
  else return (d, p)

def exponentLimit : Int := 309

/-- `ExponentCache::pows[i]`. -/
def pows [DecimalImpl D] (i : Int32) : Res D :=
  if 0 ≤ i.toInt ∧ i.toInt < exponentLimit then .ok (DecimalImpl.pow10 i.toInt.toNat)
  else .fault .powIndex

def parseExponent [DecimalImpl D] (p : Str) : Res (D × Str) := do
  let p ← skipWhitespace (p.drop 1)
  let c ← deref p
  let neg := c = Ch.minus
  let (i, p) ← parseInteger (if c = Ch.plus ∨ c = Ch.minus then p.drop 1 else p)
  let p ← skipWhitespace p
  let c ← deref p
  if c = Ch.nul then .throw (.json "exponent parse failure: assert non-\\n")
  else
    -- The index is not compared with the size of the table.
    let e ← pows i
    return (if neg then DecimalImpl.div DecimalImpl.one e else e, p)

/-- The part of `parseNumberImpl` behind the sign. -/
def parseUnsigned [DecimalImpl D] (neg : Bool) (p : Str) : Res (Json D × Str) := do
  let c ← deref p
  if isdigit c then
    let (integer, p) ← parseInteger p
    let c ← deref p
    -- An exponent is looked for behind a fraction only.
    if c ≠ Ch.dot then return (.integer (if neg then -integer else integer), p)
    else
      let (decimal, p) ← parseDeciaml (D := D) p
      let decimal := DecimalImpl.add decimal (DecimalImpl.ofInt integer)
      let c ← deref p
      if c ≠ Ch.lowerE ∧ c ≠ Ch.upperE then
        return (.decimal (if neg then DecimalImpl.neg decimal else decimal), p)
      else
        let (e, p) ← parseExponent p
        -- The sign goes to the power, not to the fraction.
        return (.decimal (DecimalImpl.mul (if neg then DecimalImpl.neg e else e) decimal), p)
  -- No digit: the value is null, and nothing is consumed.
  else return (.null, p)

def parseNumberImpl [DecimalImpl D] (p : Str) : Res (Json D × Str) := do
  let c ← deref p
  if c = Ch.minus then parseUnsigned true (p.drop 1) else parseUnsigned false p

mutual

def parseImpl [DecimalImpl D] : Nat → Str → Res (Json D × Str)
  | 0, _ => .fault .fuel
  | n + 1, p => do
    let p ← skipWhitespace p
    let c ← deref p
    if c = Ch.nul then return (.null, p)
    else if c = Ch.lbrace then parseObject n p
    else if c = Ch.lbracket then parseArray n p
    else if c = Ch.quote then
      let (s, p) ← parseString p
      return (.string s, p)
    -- The first letter decides, the others are passed over unseen.
    else if c = Ch.lowerN then return (.null, p.drop 4)
    else if c = Ch.lowerT then return (.boolean true, p.drop 4)
    else if c = Ch.lowerF then return (.boolean false, p.drop 5)
    else if c = Ch.minus ∨ isdigit c ∨ c = Ch.dot then parseNumberImpl p
    -- Any other byte is null, and stays where it is.
    else return (.null, p)

def parseObject [DecimalImpl D] : Nat → Str → Res (Json D × Str)
  | 0, _ => .fault .fuel
  | n + 1, p => do
    let p ← skipWhitespace (p.drop 1)
    let c ← deref p
    if c = Ch.rbrace then return (.object [], p.drop 1)
    else parseMembers n [] p

/-- The loop of `parseObject`, with the object built so far. -/
def parseMembers [DecimalImpl D] : Nat → List (Str × Json D) → Str → Res (Json D × Str)
  | 0, _, _ => .fault .fuel
  | n + 1, object, p => do
    let p ← skipWhitespace p
    let (key, p) ← parseString p
    let p ← skipWhitespace p
    let c ← deref p
    if c ≠ Ch.colon then .throw (.json "object parse failure: expect [:]")
    else
      let p ← skipWhitespace (p.drop 1)
      let (v, p) ← parseImpl n p
      -- A name that comes twice keeps the later value, if the earlier one can go.
      let object ← Json.assignMember key v object
      let p ← skipWhitespace p
      let c ← deref p
      if c = Ch.rbrace then return (.object object, p.drop 1)
      else if c = Ch.comma then parseMembers n object (p.drop 1)
      else .throw (.json "object parse failure: unknown reason")

def parseArray [DecimalImpl D] : Nat → Str → Res (Json D × Str)
  | 0, _ => .fault .fuel
  | n + 1, p => do
    let p ← skipWhitespace (p.drop 1)
    let c ← deref p
    if c = Ch.rbracket then return (.array [], p.drop 1)
    else parseElems n [] p

/-- The loop of `parseArray`, with the array built so far. -/
def parseElems [DecimalImpl D] : Nat → List (Json D) → Str → Res (Json D × Str)
  | 0, _, _ => .fault .fuel
  | n + 1, array, p => do
    let p ← skipWhitespace p
    let (r, p) ← parseImpl n p
    let array := array ++ [r]
    let p ← skipWhitespace p
    let c ← deref p
    if c = Ch.rbracket then return (.array array, p.drop 1)
    else if c = Ch.comma then parseElems n array (p.drop 1)
    else .throw (.json "arrary parse failure: unknown reason")

end

end parser

open parser in
/-- `parse(p)`, where `p` owns the bytes listed. -/
def parse {D : Type} [DecimalImpl D] (p : Str) : Res (Json D) := do
  let (j, _) ← parseImpl (3 * p.length + 3) p
  return j

/-- `parse` of a text and its terminating NUL. -/
def parseText {D : Type} [DecimalImpl D] (s : Str) : Res (Json D) := parse (s ++ [Ch.nul])

end Vsjson
