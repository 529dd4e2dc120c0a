import Trpc.Core.Parser

/-!
# The Parser's Reading, Byte by Byte

How far the parser looks. The parser is a set of mutually recursive functions
that peek at the same byte several times and move the cursor by one, four or
five; this module replaces it by a machine that reads the text once, from left
to right, one byte a step, and keeps nothing but a mode and the stack of
brackets that are open. What it says is when the parser stops, and how.

The machine computes no values. Of the members of an open object it keeps the
names, and of each whether the value under it owns memory on the heap: the parser
frees that twice when the name comes again. A string does if it is longer than 15
bytes, an array or an object if it is not empty, and nothing else does.

The modes are the places in the functions where a byte is about to be looked
at. A step does not move the machine by one statement of the source: it takes
the byte through every test the source applies to it before the cursor moves
on, which is why a byte that ends a number is handed to `settle` in the same
step.

## Main definitions

* `Ctx`: An open bracket.
* `Mode`: What the next byte is going to be taken for.
* `Stop`: How reading ends.
* `note`: A value is complete, and goes into the array or object around it.
* `step`: The machine's step on one byte.
* `feed`: The machine's run over a list of bytes, to its stop.
* `behind`: The machine's state behind a list of bytes.
* `resume`: What happens once a value is complete.

## Theorems

* `proceed_ended`: A value that ended with the byte just read.
* `proceed_finish`: A value that ended before the byte just read.
* `feed_append`: A run over two pieces of a text.
-/
namespace Vsjson

namespace Scan

open parser

/-- An open bracket. -/
inductive Ctx where
  /-- The names so far, each with whether its value owns memory on the heap, and the
      key read last. -/
  | obj (names : List (Str × Bool)) (key : Str)
  | arr
  deriving DecidableEq

/-- What closes a bracket. -/
def Ctx.close : Ctx → UInt8
  | .obj _ _ => Ch.rbrace
  | .arr => Ch.rbracket

/-- What the next byte is going to be taken for. -/
inductive Mode where
  /-- The first byte of a value, or space before it. -/
  | value
  /-- A key or the closing brace, behind an opening brace. -/
  | firstKey
  /-- A value or the closing bracket, behind an opening bracket. -/
  | firstElem
  /-- A key, behind a comma. -/
  | key
  /-- The colon behind a key. -/
  | colon
  /-- A comma or the closing bracket, behind a nested value. -/
  | after
  /-- A byte of a string, behind `s`; `isKey` tells a key from a value. -/
  | string (isKey : Bool) (s : Str)
  /-- The byte behind a backslash. -/
  | escape (isKey : Bool) (s : Str)
  /-- One of the `k + 1` bytes still to be passed over for a literal inside
      brackets. -/
  | skip (k : Nat)
  /-- The byte behind a minus sign. -/
  | minus
  | digits
  | digitsEnd
  | fracStart
  | frac
  | fracEnd
  | expStart
  | expSign
  | expDigits (i : Int32)
  | expEnd (i : Int32)
  deriving DecidableEq

/-- What comes behind a comma. -/
def Ctx.next : Ctx → Mode
  | .obj _ _ => .key
  | .arr => .value

/-- How reading ends. -/
inductive Stop where
  | done
  | throw
  | powIndex
  | doubleFree
  deriving DecidableEq

/-- A step goes on in some mode or stops. -/
inductive Next where
  | go (m : Mode) (K : List Ctx)
  | stop (s : Stop)
  deriving DecidableEq

/-- A key is complete. -/
def setKey (s : Str) : List Ctx → List Ctx
  | .obj names _ :: K => .obj names s :: K
  | K => K

/-- A value is complete, which owns memory on the heap or does not. If what was there
    under its name does, that is freed twice. -/
def note (heap : Bool) : List Ctx → Option (List Ctx)
  | .obj names key :: K =>
    if (SortedMap.lookup key names).getD false then none
    else some (.obj (SortedMap.insert key heap names) key :: K)
  | K => some K

/-- The value is in its place. Outside all brackets that is the end. -/
def placed (m : Mode) : Option (List Ctx) → Next
  | none => .stop .doubleFree
  | some [] => .stop .done
  | some (x :: K) => .go m (x :: K)

/-- A value ended with the byte just read. -/
def ended (heap : Bool) (K : List Ctx) : Next := placed .after (note heap K)

/-- `c` comes behind a value that is in its place. -/
def settle (K : List Ctx) (c : UInt8) : Next :=
  match K with
  | [] => .stop .done
  | x :: K' =>
    if isWhitespace c then .go .after (x :: K')
    -- What is closed here has something in it.
    else if c = x.close then ended true K'
    else if c = Ch.comma then .go x.next (x :: K')
    else .stop .throw

/-- A value without memory on the heap ended before `c`, which has been peeked at. -/
def finish (K : List Ctx) (c : UInt8) : Next :=
  match note false K with
  | none => .stop .doubleFree
  | some K' => settle K' c

/-- `c` is not a space and comes where a value is expected. -/
def startValue (K : List Ctx) (c : UInt8) : Next :=
  if c = Ch.lbrace then .go .firstKey (.obj [] [] :: K)
  else if c = Ch.lbracket then .go .firstElem (.arr :: K)
  else if c = Ch.quote then .go (.string false []) K
  else if c = Ch.lowerN ∨ c = Ch.lowerT then placed (.skip 2) (note false K)
  else if c = Ch.lowerF then placed (.skip 3) (note false K)
  else if c = Ch.minus then .go .minus K
  else if isdigit c then .go .digits K
  else finish K c

/-- `c` is not a space and comes behind the digits of an integer. -/
def endInteger (K : List Ctx) (c : UInt8) : Next :=
  if c = Ch.nul then .stop .throw
  else if c = Ch.dot then .go .fracStart K
  else finish K c

/-- `c` is not a space and comes behind the digits of a fraction. -/
def endFraction (K : List Ctx) (c : UInt8) : Next :=
  if c = Ch.nul then .stop .throw
  else if c = Ch.lowerE ∨ c = Ch.upperE then .go .expStart K
  else finish K c

/-- `c` is not a space and comes behind the digits of an exponent `i`. -/
def endExponent (K : List Ctx) (i : Int32) (c : UInt8) : Next :=
  if c = Ch.nul then .stop .throw
  else if 0 ≤ i.toInt ∧ i.toInt < exponentLimit then finish K c
  else .stop .powIndex

/-- One byte. -/
def step (m : Mode) (K : List Ctx) (c : UInt8) : Next :=
  match m with
  | .value => if isWhitespace c then .go .value K else startValue K c
  | .firstKey =>
    if isWhitespace c then .go .firstKey K
    else if c = Ch.rbrace then ended false K.tail
    else if c = Ch.quote then .go (.string true []) K
    else .stop .throw
  | .firstElem =>
    if isWhitespace c then .go .firstElem K
    else if c = Ch.rbracket then ended false K.tail
    else startValue K c
  | .key =>
    if isWhitespace c then .go .key K
    else if c = Ch.quote then .go (.string true []) K
    else .stop .throw
  | .colon =>
    if isWhitespace c then .go .colon K
    else if c = Ch.colon then .go .value K
    else .stop .throw
  | .after => settle K c
  | .string isKey s =>
    if c = Ch.quote then
      (if isKey then .go .colon (setKey s K) else ended (decide (15 < s.length)) K)
    else if c = Ch.backslash then .go (.escape isKey s) K
    else .go (.string isKey (s ++ [c])) K
  | .escape isKey s => .go (.string isKey (s ++ [Ch.backslash, c])) K
  | .skip 0 => .go .after K
  | .skip (k + 1) => .go (.skip k) K
  | .minus => if isdigit c then .go .digits K else finish K c
  | .digits =>
    if isdigit c then .go .digits K
    else if isWhitespace c then .go .digitsEnd K
    else endInteger K c
  | .digitsEnd => if isWhitespace c then .go .digitsEnd K else endInteger K c
  | .fracStart =>
    if isWhitespace c then .go .fracStart K
    else if isdigit c then .go .frac K
    else endFraction K c
  | .frac =>
    if isdigit c then .go .frac K
    else if isWhitespace c then .go .fracEnd K
    else endFraction K c
  | .fracEnd => if isWhitespace c then .go .fracEnd K else endFraction K c
  | .expStart =>
    if isWhitespace c then .go .expStart K
    else if c = Ch.plus ∨ c = Ch.minus then .go .expSign K
    else if isdigit c then .go (.expDigits (0 * 10 + digitVal c)) K
    else endExponent K 0 c
  | .expSign =>
    if isWhitespace c then .go .expSign K
    else if isdigit c then .go (.expDigits (0 * 10 + digitVal c)) K
    else endExponent K 0 c
  | .expDigits i =>
    if isdigit c then .go (.expDigits (i * 10 + digitVal c)) K
    else if isWhitespace c then .go (.expEnd i) K
    else endExponent K i c
  | .expEnd i => if isWhitespace c then .go (.expEnd i) K else endExponent K i c

/-- A run over a list of bytes: how it stops, or nothing when the bytes run
    out first. -/
def feed (m : Mode) (K : List Ctx) : Str → Option Stop
  | [] => none
  | c :: p => match step m K c with
    | .go m' K' => feed m' K' p
    | .stop s => some s

/-- Going on after a step. -/
def proceed (x : Next) (p : Str) : Option Stop :=
  match x with
  | .go m K => feed m K p
  | .stop s => some s

/-- A value is complete and the cursor is at `p`. -/
def resume (K : List Ctx) (heap : Bool) (p : Str) : Option Stop := proceed (ended heap K) p

@[simp] theorem feed_nil (m : Mode) (K : List Ctx) : feed m K [] = none := rfl

theorem feed_cons (m : Mode) (K : List Ctx) (c : UInt8) (p : Str) :
    feed m K (c :: p) = proceed (step m K c) p := rfl

@[simp] theorem proceed_go (m : Mode) (K : List Ctx) (p : Str) :
    proceed (.go m K) p = feed m K p := rfl

@[simp] theorem proceed_stop (s : Stop) (p : Str) : proceed (.stop s) p = some s := rfl

theorem proceed_ended (heap : Bool) (K : List Ctx) (p : Str) :
    proceed (ended heap K) p = resume K heap p := rfl

@[simp] theorem note_nil (heap : Bool) : note heap [] = some [] := rfl

@[simp] theorem note_arr (heap : Bool) (K : List Ctx) :
    note heap (.arr :: K) = some (.arr :: K) := rfl

/-- Behind a value that has gone into something, that is still open. -/
theorem note_cons (heap : Bool) (x : Ctx) (K : List Ctx) :
    note heap (x :: K) = none ∨ ∃ x', note heap (x :: K) = some (x' :: K) ∧ x'.close = x.close ∧
      x'.next = x.next := by
  cases x with
  | arr => exact Or.inr ⟨_, rfl, rfl, rfl⟩
  | obj names key =>
      rw [note]
      split
      · -- The name has come before, behind a value that is freed twice.
        exact Or.inl rfl
      · exact Or.inr ⟨_, rfl, rfl, rfl⟩

/-- A value that ended before a peeked byte goes on at that byte. -/
theorem proceed_finish (K : List Ctx) (c : UInt8) (p : Str) :
    proceed (finish K c) p = resume K false (c :: p) := by
  unfold finish resume ended
  cases hK : note false K with
  | none => rfl
  | some K' => cases K' <;> rfl

/-- The machine behind a list of bytes: still going, or stopped on the way. -/
def behind (m : Mode) (K : List Ctx) : Str → Next
  | [] => .go m K
  | c :: p => match step m K c with
    | .go m' K' => behind m' K' p
    | .stop s => .stop s

/-- Reading two texts one behind the other. -/
theorem feed_append (m : Mode) (K : List Ctx) (p q : Str) :
    feed m K (p ++ q) = proceed (behind m K p) q := by
  induction p generalizing m K with
  | nil => rfl
  | cons c p ih =>
      rw [List.cons_append, feed_cons, behind]
      -- A stop is final: the second text is not read.
      cases step m K c with
      | go m' K' => exact ih m' K'
      | stop s => rfl

/-- The machine has not stopped exactly when its run has no stop. -/
theorem feed_eq_none_iff (m : Mode) (K : List Ctx) (p : Str) :
    feed m K p = none ↔ ∃ m' K', behind m K p = .go m' K' := by
  have h := feed_append m K p []
  rw [List.append_nil] at h
  -- Nothing is left to read behind the text.
  rw [h]
  cases behind m K p with
  | go m' K' => exact ⟨fun _ => ⟨m', K', rfl⟩, fun _ => rfl⟩
  | stop s =>
      constructor
      · intro hs
        exact absurd hs (by simp only [proceed_stop, reduceCtorEq, not_false_eq_true])
      · rintro ⟨m', K', hs⟩
        exact absurd hs (by simp only [reduceCtorEq, not_false_eq_true])

end Scan

end Vsjson
