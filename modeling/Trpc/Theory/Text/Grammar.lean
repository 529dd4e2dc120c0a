import Trpc.Theory.Scan.Refines

/-!
# The Grammar of JSON

What a JSON text is, and what it denotes, apart from any parser. Each part of the
grammar is a relation between a text, what stands at its beginning, and the rest
behind that. Space may stand in front of every token.

A string denotes the text between its quotes, escapes and all, which is how the library
keeps strings. An integer denotes its residue as an `int`. What a number with a
fraction or an exponent denotes is a decimal, and which one is left open, as the
arithmetic of decimals is a parameter. In an object with the same key twice the later
member counts.

A number goes on as long as it can: `01`, `1.` and `1ex` do not begin with one.

`Token` tells how the tokens begin that the parser reads as what they are. It follows
the grammar but for the end of a number, where the parser has looked at what comes
behind space, and has not looked for an exponent behind an integer.

## Main definitions

* `Chars`, `Digits`, `Number`: The tokens of more than one byte.
* `Value`, `Elems`, `Members`: Values.
* `Plain`, `Token`: The tokens that are read as what they are.

## Theorems

* `scanString_chars`: A string.
* `parseUnsigned_plain`: A number.
-/

namespace Vsjson

namespace Grammar

open parser

variable {D : Type}

/-- The next byte is one with `P`. -/
def At (P : UInt8 → Prop) : Str → Prop
  | [] => False
  | c :: _ => P c

/-- The text behind leading space. -/
def behindSpace (p : Str) : Str := p.dropWhile isWhitespace

/-- A decimal digit. -/
def IsDigit (c : UInt8) : Prop := isdigit c = true

/-- The letter of an exponent, small or capital. -/
def IsExp (c : UInt8) : Prop := c = Ch.lowerE ∨ c = Ch.upperE

/-- The sign of an exponent. -/
def IsSign (c : UInt8) : Prop := c = Ch.plus ∨ c = Ch.minus

/-- What may stand behind a backslash by itself. -/
def escapes : Str := text "\"\\/bfnrt"

/-- The letter in front of four hexadecimal digits. -/
def lowerU : UInt8 := 117

/-- A hexadecimal digit, small or capital. -/
def IsHex (c : UInt8) : Prop := IsDigit c ∨ 65 ≤ c ∧ c ≤ 70 ∨ 97 ≤ c ∧ c ≤ 102

/-! ## Tokens -/

/-- A string behind its opening quote: the text up to the closing quote, and what
    follows that. -/
inductive Chars : Str → Str → Str → Prop where
  | close (q : Str) : Chars [] (Ch.quote :: q) q
  | plain (c : UInt8) (s p q : Str) : Ch.space ≤ c → c ≠ Ch.quote → c ≠ Ch.backslash →
      Chars s p q → Chars (c :: s) (c :: p) q
  | escape (e : UInt8) (s p q : Str) : e ∈ escapes →
      Chars s p q → Chars (Ch.backslash :: e :: s) (Ch.backslash :: e :: p) q
  | unicode (a b c d : UInt8) (s p q : Str) : IsHex a → IsHex b → IsHex c → IsHex d →
      Chars s p q → Chars (Ch.backslash :: lowerU :: a :: b :: c :: d :: s)
        (Ch.backslash :: lowerU :: a :: b :: c :: d :: p) q

/-- Digits as far as they go, behind digits with the value `acc`. -/
inductive Digits : Nat → Str → Nat → Str → Prop where
  | stop (n : Nat) (q : Str) : ¬ At IsDigit q → Digits n q n q
  | more (acc n : Nat) (c : UInt8) (p q : Str) : IsDigit c →
      Digits (acc * 10 + (c.toNat - 48)) p n q → Digits acc (c :: p) n q

/-- The integer part of a number, without a superfluous zero. -/
inductive IntPart : Nat → Str → Str → Prop where
  | zero (q : Str) : ¬ At IsDigit q → IntPart 0 (Ch.zero :: q) q
  | nonzero (n : Nat) (c : UInt8) (p q : Str) : IsDigit c → c ≠ Ch.zero →
      Digits (c.toNat - 48) p n q → IntPart n (c :: p) q

/-- A dot and a digit at least. -/
inductive Frac : Str → Str → Prop where
  | mk (n : Nat) (c : UInt8) (p q : Str) : IsDigit c → Digits (c.toNat - 48) p n q →
      Frac (Ch.dot :: c :: p) q

/-- The letter, a sign or none, and a digit at least. -/
inductive Exp : Nat → Str → Str → Prop where
  | bare (n : Nat) (e c : UInt8) (p q : Str) : IsExp e → IsDigit c →
      Digits (c.toNat - 48) p n q → Exp n (e :: c :: p) q
  | signed (n : Nat) (e s c : UInt8) (p q : Str) : IsExp e → IsSign s → IsDigit c →
      Digits (c.toNat - 48) p n q → Exp n (e :: s :: c :: p) q

/-- A number behind its sign. -/
inductive Unsigned (neg : Bool) : Str → Json D → Str → Prop where
  | integer (n : Nat) (p q : Str) : IntPart n p q → ¬ At (· = Ch.dot) q → ¬ At IsExp q →
      Unsigned neg p (.integer (if neg then -Int32.ofNat n else Int32.ofNat n)) q
  | decimal (n : Nat) (d : D) (p q r : Str) : IntPart n p q → Frac q r → ¬ At IsExp r →
      Unsigned neg p (.decimal d) r
  | scaled (n k : Nat) (d : D) (p q r : Str) : IntPart n p q → Exp k q r →
      Unsigned neg p (.decimal d) r
  | full (n k : Nat) (d : D) (p q r t : Str) : IntPart n p q → Frac q r → Exp k r t →
      Unsigned neg p (.decimal d) t

inductive Number : Str → Json D → Str → Prop where
  | positive (p : Str) (j : Json D) (q : Str) : Unsigned false p j q → Number p j q
  | negative (p : Str) (j : Json D) (q : Str) : Unsigned true p j q → Number (Ch.minus :: p) j q

/-! ## Values -/

mutual

/-- A value, what it denotes, and what follows it. -/
inductive Value : Str → Json D → Str → Prop where
  | null (q : Str) : Value (text "null" ++ q) .null q
  | true (q : Str) : Value (text "true" ++ q) (.boolean true) q
  | false (q : Str) : Value (text "false" ++ q) (.boolean false) q
  | string (s p q : Str) : Chars s p q → Value (Ch.quote :: p) (.string s) q
  | number (p : Str) (j : Json D) (q : Str) : Number p j q → Value p j q
  | emptyArray (p q : Str) : behindSpace p = Ch.rbracket :: q →
      Value (Ch.lbracket :: p) (.array []) q
  | array (p : Str) (js : List (Json D)) (q : Str) : Elems (behindSpace p) js q →
      Value (Ch.lbracket :: p) (.array js) q
  | emptyObject (p q : Str) : behindSpace p = Ch.rbrace :: q →
      Value (Ch.lbrace :: p) (.object []) q
  | object (p : Str) (ms : List (Str × Json D)) (q : Str) : Members [] (behindSpace p) ms q →
      Value (Ch.lbrace :: p) (.object ms) q

/-- The elements of an array, with the closing bracket. -/
inductive Elems : Str → List (Json D) → Str → Prop where
  | last (p : Str) (j : Json D) (q r : Str) : Value p j q → behindSpace q = Ch.rbracket :: r →
      Elems p [j] r
  | more (p : Str) (j : Json D) (q r : Str) (js : List (Json D)) (t : Str) : Value p j q →
      behindSpace q = Ch.comma :: r → Elems (behindSpace r) js t → Elems p (j :: js) t

/-- The members of an object, behind others that have made `m`, with the closing brace. -/
inductive Members : List (Str × Json D) → Str → List (Str × Json D) → Str → Prop where
  | last (m : List (Str × Json D)) (k p q r : Str) (j : Json D) (t u : Str) : Chars k p q →
      behindSpace q = Ch.colon :: r → Value (behindSpace r) j t →
      behindSpace t = Ch.rbrace :: u → Members m (Ch.quote :: p) (SortedMap.insert k j m) u
  | more (m m' : List (Str × Json D)) (k p q r : Str) (j : Json D) (t u v : Str) : Chars k p q →
      behindSpace q = Ch.colon :: r → Value (behindSpace r) j t → behindSpace t = Ch.comma :: u →
      Members (SortedMap.insert k j m) (behindSpace u) m' v → Members m (Ch.quote :: p) m' v

end

/-! ## What the parser takes for a number -/

/-- A number, behind its sign, that the parser reads up to its end and no further. -/
inductive Plain : Str → Str → Prop where
  | integer (n : Nat) (p q : Str) : IntPart n p q → ¬ At (· = Ch.dot) (behindSpace q) →
      ¬ At IsExp q → Plain p q
  | decimal (n : Nat) (p q r : Str) : IntPart n p q → Frac q r → ¬ At IsExp (behindSpace r) →
      Plain p r
  | full (n k : Nat) (p q r t : Str) : IntPart n p q → Frac q r → Exp k r t →
      0 ≤ (Int32.ofNat k).toInt ∧ (Int32.ofNat k).toInt < exponentLimit → Plain p t

/-- A token with which a value or a key begins, complete. -/
inductive Token : Str → Prop where
  | null (q : Str) : Token (text "null" ++ q)
  | true (q : Str) : Token (text "true" ++ q)
  | false (q : Str) : Token (text "false" ++ q)
  | string (s p q : Str) : Chars s p q → Token (Ch.quote :: p)
  | positive (p q : Str) : Plain p q → Token p
  | negative (p q : Str) : Plain p q → Token (Ch.minus :: p)
  | array (p : Str) : Token (Ch.lbracket :: p)
  | object (p : Str) : Token (Ch.lbrace :: p)

/-! ## Space -/

theorem behindSpace_other (c : UInt8) (p : Str) (h : isWhitespace c = false) :
    behindSpace (c :: p) = c :: p := by
  rw [behindSpace, List.dropWhile_cons, if_neg (by rw [h]; exact Bool.false_ne_true)]

theorem behindSpace_space (c : UInt8) (p : Str) (h : isWhitespace c = true) :
    behindSpace (c :: p) = behindSpace p := by
  rw [behindSpace, List.dropWhile_cons, if_pos h]
  rfl

/-- Where the parser gets over the space, it has not met the terminator there. -/
theorem skipWhitespace_ok (p r : Str) (h : skipWhitespace p = .ok r) :
    r = behindSpace p ∧ ∃ c s, r = c :: s ∧ isWhitespace c = false := by
  induction p with
  -- The text is over, terminator and all: the parser would read beyond it.
  | nil => cases h
  | cons c p ih =>
      cases hc : isWhitespace c with
      | true =>
          rw [behindSpace_space c p hc]
          simp only [skipWhitespace, hc, if_true] at h
          exact ih h
      | false =>
          rw [behindSpace_other c p hc]
          simp only [skipWhitespace, hc, Bool.false_eq_true, if_false] at h
          cases h
          exact ⟨rfl, c, p, rfl, hc⟩

/-- What is behind space does not begin with space. -/
theorem behindSpace_head (p : Str) (c : UInt8) (s : Str) (h : behindSpace p = c :: s) :
    isWhitespace c = false := by
  induction p with
  | nil => cases h
  | cons d p ih =>
      cases hd : isWhitespace d with
      | true => exact ih (by rwa [behindSpace_space d p hd] at h)
      | false =>
          rw [behindSpace_other d p hd] at h
          cases h
          exact hd

theorem behindSpace_twice (p : Str) : behindSpace (behindSpace p) = behindSpace p := by
  cases h : behindSpace p with
  | nil => rfl
  | cons c s => exact behindSpace_other c s (behindSpace_head p c s h)

/-- A byte that is not a space is found behind it too. -/
theorem at_behindSpace (P : UInt8 → Prop) (hP : ∀ c, P c → isWhitespace c = false) (q : Str)
    (h : At P q) : At P (behindSpace q) := by
  cases q with
  | nil => exact h
  | cons c q =>
      rw [behindSpace_other c q (hP c h)]
      exact h

/-- The cursor has gone on from `q` over the space there, to a byte that is not the
    terminator. -/
def Landed (q r : Str) : Prop := r = behindSpace q ∧ ∃ c s, r = c :: s ∧ c ≠ Ch.nul

/-- The common end of the number functions: space is skipped, and the terminator refused. -/
theorem closing_ok {α : Type} (what : String) (a x : α) (p r : Str)
    (h : Scan.closing what a p = .ok (x, r)) : x = a ∧ Landed p r := by
  rcases Res.bind_eq_ok _ _ _ h with ⟨q, hq, h⟩
  rcases skipWhitespace_ok p q hq with ⟨rfl, c, s, hcs, hc⟩
  rw [hcs, deref_cons, Res.ok_bind] at h
  -- A number at the very end of the text is an error of the parser.
  by_cases hz : c = Ch.nul
  · rw [if_pos hz] at h
    cases h
  · rw [if_neg hz] at h
    cases h
    exact ⟨rfl, hcs.symm, c, s, rfl, hz⟩

/-! ## Strings -/

theorem hex_facts (c : UInt8) (h : IsHex c) : c ≠ Ch.quote ∧ c ≠ Ch.backslash := by
  refine ⟨?_, ?_⟩ <;>
  · rintro rfl
    revert h
    unfold IsHex IsDigit
    decide

/-- The parser reads a string up to its end. -/
theorem scanString_chars (s p q : Str) (h : Chars s p q) : scanString p = .ok (s, q) := by
  induction h with
  | close q => exact scanString_quote q
  | plain c s p q _ hq hb _ ih =>
      rw [scanString_other c p hq hb, ih]
      rfl
  | escape e s p q _ _ ih =>
      rw [scanString_backslash, ih]
      rfl
  -- Of the escape the parser takes the letter only. The four digits go on as bytes of the
  -- string.
  | unicode a b c d s p q ha hb hc hd _ ih =>
      rw [scanString_backslash, scanString_other a _ (hex_facts a ha).1 (hex_facts a ha).2,
        scanString_other b _ (hex_facts b hb).1 (hex_facts b hb).2,
        scanString_other c _ (hex_facts c hc).1 (hex_facts c hc).2,
        scanString_other d _ (hex_facts d hd).1 (hex_facts d hd).2, ih]
      rfl

/-! ## Numbers -/

theorem digit_step (acc : Nat) (c : UInt8) :
    Int32.ofNat acc * 10 + digitVal c = Int32.ofNat (acc * 10 + (c.toNat - 48)) := by
  rw [digitVal, Int32.ofNat_add, Int32.ofNat_mul]
  rfl

/-- The loop over the digits comes to their end with their value. -/
theorem scanDigits_of_digits (acc n : Nat) (p q : Str) (h : Digits acc p n q) (i : Int32) (r : Str)
    (hr : scanDigits (Int32.ofNat acc) p = .ok (i, r)) : i = Int32.ofNat n ∧ r = q := by
  induction h with
  -- The byte behind the digits is there, or the loop would run off the text.
  | stop n q hq =>
      cases q with
      | nil => cases hr
      | cons c q =>
          rw [scanDigits, if_neg (show ¬ isdigit c = true from hq)] at hr
          cases hr
          exact ⟨rfl, rfl⟩
  | more acc n c p q hc _ ih =>
      rw [scanDigits, if_pos (show isdigit c = true from hc), digit_step] at hr
      exact ih hr

/-- The loop over a fraction stops at the same place. Its value is left to the arithmetic. -/
theorem scanFraction_of_digits [DecimalImpl D] (acc n : Nat) (p q : Str) (h : Digits acc p n q)
    (d idx x : D) (r : Str) (hr : scanFraction d idx p = .ok (x, r)) : r = q := by
  induction h generalizing d idx with
  | stop n q hq =>
      cases q with
      | nil => cases hr
      | cons c q =>
          rw [scanFraction, if_neg (show ¬ isdigit c = true from hq)] at hr
          cases hr
          rfl
  | more acc n c p q hc _ ih =>
      rw [scanFraction, if_pos (show isdigit c = true from hc)] at hr
      exact ih _ _ hr

theorem intPart_digits (n : Nat) (p q : Str) (h : IntPart n p q) :
    ∃ c p', p = c :: p' ∧ IsDigit c ∧ Digits (c.toNat - 48) p' n q := by
  cases h with
  | zero q hq => exact ⟨Ch.zero, q, rfl, rfl, Digits.stop 0 q hq⟩
  | nonzero n c p q hc _ hp => exact ⟨c, p, rfl, hc, hp⟩

/-- A number that the parser reads to its end begins with a digit. -/
theorem plain_digit (p q : Str) (h : Plain p q) : ∃ d s, p = d :: s ∧ IsDigit d := by
  have hint : ∃ n r, IntPart n p r := by
    cases h with
    | integer n _ _ hint => exact ⟨n, q, hint⟩
    | decimal n _ r _ hint => exact ⟨n, r, hint⟩
    | full n k _ r _ _ hint => exact ⟨n, r, hint⟩
  rcases hint with ⟨n, r, hint⟩
  rcases intPart_digits n p r hint with ⟨d, s, hp, hd, _⟩
  exact ⟨d, s, hp, hd⟩

/-- Every number begins with an integer part. -/
theorem unsigned_intPart (neg : Bool) (p q : Str) (j : Json D) (h : Unsigned neg p j q) :
    ∃ n r, IntPart n p r := by
  cases h with
  | integer n _ _ hint => exact ⟨n, q, hint⟩
  | decimal n d _ r _ hint => exact ⟨n, r, hint⟩
  | scaled n k d _ r _ hint => exact ⟨n, r, hint⟩
  | full n k d _ r _ _ hint => exact ⟨n, r, hint⟩

/-- The integer of a number, and the space behind it. -/
theorem parseInteger_digits (n : Nat) (c : UInt8) (p q : Str) (hc : IsDigit c)
    (h : Digits (c.toNat - 48) p n q) (i : Int32) (r : Str)
    (hr : parseInteger (c :: p) = .ok (i, r)) : i = Int32.ofNat n ∧ Landed q r := by
  have hw := Scan.not_isWhitespace_of_isdigit c hc
  rw [Scan.parseInteger_eq] at hr
  simp only [skipWhitespace, hw, Bool.false_eq_true, if_false, Res.ok_bind] at hr
  rcases Res.bind_eq_ok _ _ _ hr with ⟨⟨i', r'⟩, hscan, hr⟩
  -- The first digit has been looked at, but not been taken.
  have hall : Digits 0 (c :: p) n q :=
    Digits.more 0 n c p q hc (by rwa [Nat.zero_mul, Nat.zero_add])
  rcases scanDigits_of_digits 0 n _ q hall i' r' hscan with ⟨rfl, rfl⟩
  exact closing_ok _ _ _ _ _ hr

/-- The fraction, from the dot on. -/
theorem parseDeciaml_frac [DecimalImpl D] (q r : Str) (h : Frac q r) (d : D) (t : Str)
    (ht : parseDeciaml q = .ok (d, t)) : Landed r t := by
  cases h with
  | mk n c p q hc hp =>
      have hw := Scan.not_isWhitespace_of_isdigit c hc
      rw [Scan.parseDeciaml_eq] at ht
      simp only [List.drop_one, List.tail_cons, skipWhitespace, hw, Bool.false_eq_true, if_false,
        Res.ok_bind] at ht
      rcases Res.bind_eq_ok _ _ _ ht with ⟨⟨d', t'⟩, hscan, ht⟩
      have hall : Digits 0 (c :: p) n r :=
        Digits.more 0 n c p r hc (by rwa [Nat.zero_mul, Nat.zero_add])
      rw [scanFraction_of_digits 0 n _ r hall _ _ d' t' hscan] at ht
      exact (closing_ok _ _ _ _ _ ht).2

/-- A power that is found was looked up within the table. -/
theorem pows_ok [DecimalImpl D] (i : Int32) (e : D) (h : pows i = .ok e) :
    0 ≤ i.toInt ∧ i.toInt < exponentLimit := by
  unfold pows at h
  by_cases hi : 0 ≤ i.toInt ∧ i.toInt < exponentLimit
  · exact hi
  · -- Outside of it the look-up is a fault.
    rw [if_neg hi] at h
    cases h

/-- The end of an exponent: what its digits denote is an index into the table. -/
theorem scaling_ok [DecimalImpl D] (neg : Prop) [Decidable neg] (i : Int32) (q r : Str) (e : D)
    (t : Str) (hr : Landed q r) (ht : Scan.scaling neg (i, r) = .ok (e, t)) :
    (0 ≤ i.toInt ∧ i.toInt < exponentLimit) ∧ Landed q t := by
  rcases Res.bind_eq_ok _ _ _ ht with ⟨r', hskip, ht⟩
  rcases skipWhitespace_ok r r' hskip with ⟨rfl, c, s, hcs, _⟩
  rw [hcs, deref_cons, Res.ok_bind] at ht
  by_cases hz : c = Ch.nul
  · rw [if_pos hz] at ht
    cases ht
  · rw [if_neg hz] at ht
    rcases Res.bind_eq_ok _ _ _ ht with ⟨e', hpows, ht⟩
    cases ht
    -- The space behind the digits has been skipped before.
    rw [hr.1, behindSpace_twice] at hcs
    exact ⟨pows_ok i e' hpows, hcs.symm, c, s, rfl, hz⟩

/-- An exponent, whether it has a sign or not. -/
theorem parseExponent_exp [DecimalImpl D] (k : Nat) (q r : Str) (h : Exp k q r) (e : D) (t : Str)
    (ht : parseExponent q = .ok (e, t)) :
    (0 ≤ (Int32.ofNat k).toInt ∧ (Int32.ofNat k).toInt < exponentLimit) ∧ Landed r t := by
  rw [Scan.parseExponent_eq] at ht
  cases h with
  | bare e' c p _ he hc hp =>
      have hw := Scan.not_isWhitespace_of_isdigit c hc
      -- Without a sign the digit itself is tested for one first.
      have hsign : ¬ (c = Ch.plus ∨ c = Ch.minus) := by
        rintro (rfl | rfl) <;> exact absurd hc (by unfold IsDigit; decide)
      simp only [List.drop_one, List.tail_cons, skipWhitespace, hw, Bool.false_eq_true, if_false,
        Res.ok_bind, deref_cons, if_neg hsign] at ht
      rcases Res.bind_eq_ok _ _ _ ht with ⟨⟨i, r'⟩, hint, ht⟩
      rcases parseInteger_digits k c p r hc hp i r' hint with ⟨rfl, hland⟩
      exact scaling_ok _ _ _ _ _ _ hland ht
  | signed e' s c p _ he hs hc hp =>
      have hw : isWhitespace s = false := by
        rcases hs with rfl | rfl <;> rfl
      have hsign : s = Ch.plus ∨ s = Ch.minus := hs
      simp only [List.drop_one, List.tail_cons, skipWhitespace, hw, Bool.false_eq_true, if_false,
        Res.ok_bind, deref_cons, if_pos hsign] at ht
      rcases Res.bind_eq_ok _ _ _ ht with ⟨⟨i, r'⟩, hint, ht⟩
      rcases parseInteger_digits k c p r hc hp i r' hint with ⟨rfl, hland⟩
      exact scaling_ok _ _ _ _ _ _ hland ht

/-- `parseUnsigned` behind the integer. -/
def parseRest [DecimalImpl D] (neg : Bool) (integer : Int32) (p : Str) : Res (Json D × Str) :=
  (deref p).bind fun c =>
    if c ≠ Ch.dot then .ok (.integer (if neg then -integer else integer), p)
    else (parseDeciaml (D := D) p).bind fun x => (deref x.2).bind fun c =>
      if c ≠ Ch.lowerE ∧ c ≠ Ch.upperE then
        .ok (.decimal (if neg then DecimalImpl.neg (DecimalImpl.add x.1 (DecimalImpl.ofInt integer))
          else DecimalImpl.add x.1 (DecimalImpl.ofInt integer)), x.2)
      else (parseExponent x.2).bind fun y =>
        .ok (.decimal (DecimalImpl.mul (if neg then DecimalImpl.neg y.1 else y.1)
          (DecimalImpl.add x.1 (DecimalImpl.ofInt integer))), y.2)

/-- A number is its integer and what `parseRest` makes of the text behind. -/
theorem parseUnsigned_intPart [DecimalImpl D] (neg : Bool) (n : Nat) (p q : Str)
    (h : IntPart n p q) (j : Json D) (r : Str) (hr : parseUnsigned neg p = .ok (j, r)) :
    ∃ t, Landed q t ∧ parseRest neg (Int32.ofNat n) t = .ok (j, r) := by
  rcases intPart_digits n p q h with ⟨c, p', rfl, hc, hp⟩
  have heq : parseUnsigned (D := D) neg (c :: p')
      = (parseInteger (c :: p')).bind fun x => parseRest neg x.1 x.2 := by
    simp only [parseUnsigned, Res.bind_def, deref_cons, Res.ok_bind]
    rw [if_pos (show isdigit c = true from hc)]
    rfl
  rw [heq] at hr
  rcases Res.bind_eq_ok _ _ _ hr with ⟨⟨i, t⟩, hint, hr⟩
  rcases parseInteger_digits n c p' q hc hp i t hint with ⟨rfl, hland⟩
  exact ⟨t, hland, hr⟩

/-- Behind an integer that no dot follows. -/
theorem parseRest_integer [DecimalImpl D] (neg : Bool) (i : Int32) (q t : Str) (hland : Landed q t)
    (hdot : ¬ At (· = Ch.dot) (behindSpace q)) (j : Json D) (r : Str)
    (hr : parseRest neg i t = .ok (j, r)) :
    j = .integer (if neg then -i else i) ∧ r = t := by
  rcases hland with ⟨ht, c, s, rfl, hz⟩
  rw [← ht] at hdot
  have hc : c ≠ Ch.dot := hdot
  rw [parseRest, deref_cons, Res.ok_bind, if_pos hc] at hr
  cases hr
  exact ⟨rfl, rfl⟩

/-- Behind an integer that a fraction follows. -/
theorem parseRest_frac [DecimalImpl D] (neg : Bool) (i : Int32) (q q' t : Str) (hland : Landed q t)
    (hfrac : Frac q q') (j : Json D) (r : Str) (hr : parseRest neg i t = .ok (j, r)) :
    ∃ d u, j = .decimal d ∧ Landed q' u ∧
      (¬ At IsExp u ∧ r = u ∨ At IsExp u ∧ ∃ e : D, parseExponent u = .ok (e, r)) := by
  -- No space stands in front of the dot of a fraction.
  have hq : t = q := by
    cases hfrac with
    | mk n c p _ hc hp => exact hland.1.trans (behindSpace_other Ch.dot _ rfl)
  rw [hq] at hr
  cases hfrac with
  | mk n c p _ hc hp =>
      rw [parseRest, deref_cons, Res.ok_bind, if_neg (not_not.mpr rfl)] at hr
      rcases Res.bind_eq_ok _ _ _ hr with ⟨⟨x, u⟩, hdec, hr⟩
      have hu := parseDeciaml_frac _ q' (Frac.mk n c p q' hc hp) x u hdec
      rcases hu with ⟨hu, c', s, rfl, hz⟩
      rw [deref_cons, Res.ok_bind] at hr
      -- Behind the fraction the letter of an exponent is looked for, over the space.
      by_cases he : c' ≠ Ch.lowerE ∧ c' ≠ Ch.upperE
      · rw [if_pos he] at hr
        cases hr
        refine ⟨_, c' :: s, rfl, ⟨hu, c', s, rfl, hz⟩, Or.inl ⟨?_, rfl⟩⟩
        rintro (h | h)
        · exact he.1 h
        · exact he.2 h
      · rw [if_neg he] at hr
        rcases Res.bind_eq_ok _ _ _ hr with ⟨⟨y, u'⟩, hexp, hr⟩
        cases hr
        exact ⟨_, c' :: s, rfl, ⟨hu, c', s, rfl, hz⟩,
          Or.inr ⟨by rwa [← not_or, not_not] at he, y, hexp⟩⟩

theorem isExp_space (c : UInt8) (h : IsExp c) : isWhitespace c = false := by
  rcases h with rfl | rfl <;> rfl

theorem exp_letter (k : Nat) (q r : Str) (h : Exp k q r) : At IsExp q ∧ behindSpace q = q := by
  have hspace : ∀ (e : UInt8) (p : Str), IsExp e → behindSpace (e :: p) = e :: p :=
    fun e p he => behindSpace_other e p (isExp_space e he)
  cases h with
  | bare e c p _ he hc hp => exact ⟨he, hspace e _ he⟩
  | signed e s c p _ he hs hc hp => exact ⟨he, hspace e _ he⟩

/-- The parser reads such a number up to its end, and the space behind it. -/
theorem parseUnsigned_plain [DecimalImpl D] (neg : Bool) (p q : Str) (h : Plain p q) (j : Json D)
    (r : Str) (hr : parseUnsigned neg p = .ok (j, r)) : Unsigned neg p j q ∧ Landed q r := by
  cases h with
  | integer n _ _ hint hdot hexp =>
      rcases parseUnsigned_intPart neg n p q hint j r hr with ⟨t, hland, hrest⟩
      rcases parseRest_integer neg _ q t hland hdot j r hrest with ⟨rfl, rfl⟩
      -- No dot behind the space means none directly behind the digits.
      have hdot' : ¬ At (· = Ch.dot) q := fun h =>
        hdot (at_behindSpace _ (by rintro c rfl; rfl) q h)
      exact ⟨Unsigned.integer n p q hint hdot' hexp, hland⟩
  | decimal n _ q0 _ hint hfrac hexp =>
      rcases parseUnsigned_intPart neg n p q0 hint j r hr with ⟨t, hland, hrest⟩
      rcases parseRest_frac neg _ q0 q t hland hfrac j r hrest with
        ⟨d, u, rfl, hu, ⟨_, rfl⟩ | ⟨hat, _⟩⟩
      · have hexp' : ¬ At IsExp q := fun h => hexp (at_behindSpace _ isExp_space q h)
        exact ⟨Unsigned.decimal n d p q0 q hint hfrac hexp', hu⟩
      · -- A letter behind the space was excluded for this kind.
        rw [hu.1] at hat
        exact absurd hat hexp
  | full n k _ q0 q1 _ hint hfrac hexp hrange =>
      rcases parseUnsigned_intPart neg n p q0 hint j r hr with ⟨t, hland, hrest⟩
      rcases parseRest_frac neg _ q0 q1 t hland hfrac j r hrest with
        ⟨d, u, rfl, hu, ⟨hat, _⟩ | ⟨_, e, he⟩⟩
      · rw [hu.1, (exp_letter k q1 q hexp).2] at hat
        exact absurd (exp_letter k q1 q hexp).1 hat
      · rw [hu.1, (exp_letter k q1 q hexp).2] at he
        exact ⟨Unsigned.full n k d p q0 q1 q hint hfrac hexp,
          (parseExponent_exp k q1 q hexp e r he).2⟩

end Grammar

end Vsjson
