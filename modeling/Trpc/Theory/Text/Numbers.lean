import Trpc.Theory.Text.Grammar
import Trpc.Theory.Text.RoundTrip

/-!
# The Numbers the Parser Reads

What `parseNumberImpl` makes of a number of the grammar, part by part. A run of digits
is consumed by the loop it is handed to, a fraction by `parseDeciaml`, an exponent by
`parseExponent`, and each of these leaves the cursor behind its part. What is between
the parts is the trouble: `parseNumberImpl` looks for an exponent behind a fraction
only, so the letter behind a bare integer is left standing, and an exponent is looked
up in the table of powers whatever it is.

## Main definitions

* `Numeral`, `Exponent`, `Spelling`: A number, spelled out.
* `Spelling.Kind`: What a value is that a number may be read as.
* `Spelling.Accepted`: The numbers that are read whole.

## Theorems

* `number_spelled`: The spellings are those of the grammar.
* `parseInteger_run`, `parseDeciaml_run`, `parseExponent_text`: The parts.
* `parseNumberImpl_spelling_iff`: Which numbers are read whole.
-/

namespace Vsjson

namespace Grammar

open parser

variable {D : Type}

/-! ## Spelling -/

/-- A digit at least. -/
structure Numeral where
  digits : Str
  nonempty : digits ≠ []
  isDigits : ∀ c ∈ digits, IsDigit c

/-- What digits denote, behind others that denote `n`. -/
def value (n : Nat) (ds : Str) : Nat := ds.foldl (fun n c => n * 10 + (c.toNat - 48)) n

def Numeral.value (N : Numeral) : Nat := Grammar.value 0 N.digits

/-- An exponent: the letter, a sign or none, and digits. -/
structure Exponent where
  letter : UInt8
  sign : Option UInt8
  numeral : Numeral
  isExp : IsExp letter
  isSign : ∀ s ∈ sign, IsSign s

def Exponent.text (e : Exponent) : Str := e.letter :: (e.sign.toList ++ e.numeral.digits)

/-- A number: a sign or none, digits without a superfluous zero, a fraction or none, an
    exponent or none. -/
structure Spelling where
  negative : Bool
  int : Numeral
  frac : Option Numeral
  exp : Option Exponent
  canonical : ∀ ds, int.digits = Ch.zero :: ds → ds = []

/-- The dot and the digits behind it. -/
def fracText : Option Numeral → Str
  | none => []
  | some N => Ch.dot :: N.digits

def expText : Option Exponent → Str
  | none => []
  | some e => e.text

def Spelling.text (l : Spelling) : Str :=
  (if l.negative then [Ch.minus] else []) ++ (l.int.digits ++ (fracText l.frac ++ expText l.exp))

/-- An integer if there is neither fraction nor exponent, else a decimal. -/
def Spelling.Kind (l : Spelling) : Json D → Prop
  | .integer _ => l.frac = none ∧ l.exp = none
  | .decimal _ => l.frac.isSome = true ∨ l.exp.isSome = true
  | _ => False

/-- If there is an exponent it stands behind a fraction, and its digits, cut to an `int`,
    denote an index into the table of powers. -/
def Spelling.Accepted (l : Spelling) : Prop :=
  ∀ e ∈ l.exp, l.frac.isSome = true ∧
    0 ≤ (Int32.ofNat e.numeral.value).toInt ∧ (Int32.ofNat e.numeral.value).toInt < exponentLimit

/-- A numeral of one digit. -/
def Numeral.digit (c : UInt8) (h : isdigit c = true) : Numeral :=
  ⟨[c], List.cons_ne_nil c [], fun _ hx => List.mem_singleton.mp hx ▸ h⟩

/-- `-1.5e3`. -/
def thousand : Spelling where
  negative := true
  int := .digit 49 rfl
  frac := some (.digit 53 rfl)
  exp := some ⟨Ch.lowerE, none, .digit 51 rfl, Or.inl rfl,
    fun _ h => absurd h (Option.not_mem_none _)⟩
  canonical := fun _ h => absurd (List.cons.inj h).1 (by decide)

/-- `1e+06`. -/
def million : Spelling where
  negative := false
  int := .digit 49 rfl
  frac := none
  exp := some ⟨Ch.lowerE, some Ch.plus, ⟨text "06", by decide, by unfold IsDigit; decide +kernel⟩,
    Or.inl rfl, fun _ h => Or.inl (Option.mem_some_iff.mp h).symm⟩
  canonical := fun _ h => absurd (List.cons.inj h).1 (by decide)

/-! ## The grammar's numbers -/

/-- A run of digits of the grammar is a run of digits. -/
theorem digits_run (acc n : Nat) (p q : Str) (h : Digits acc p n q) :
    ∃ ds, p = ds ++ q ∧ ∀ c ∈ ds, IsDigit c := by
  induction h with
  | stop n q _ => exact ⟨[], rfl, fun c hc => absurd hc List.not_mem_nil⟩
  | more acc n c p q hc _ ih =>
      rcases ih with ⟨ds, rfl, hds⟩
      exact ⟨c :: ds, rfl, List.forall_mem_cons.mpr ⟨hc, hds⟩⟩

/-- A digit and the digits behind it. -/
theorem digits_numeral (n : Nat) (c : UInt8) (p q : Str) (hc : IsDigit c)
    (h : Digits (c.toNat - 48) p n q) : ∃ N : Numeral, c :: p = N.digits ++ q ∧
      ∃ ds, N.digits = c :: ds := by
  rcases digits_run _ n p q h with ⟨ds, rfl, hds⟩
  exact ⟨⟨c :: ds, List.cons_ne_nil c ds, List.forall_mem_cons.mpr ⟨hc, hds⟩⟩, rfl, ds, rfl⟩

/-- The grammar's integer part is a numeral with no zero in front of other digits. -/
theorem intPart_numeral (n : Nat) (p q : Str) (h : IntPart n p q) :
    ∃ N : Numeral, p = N.digits ++ q ∧ ∀ ds, N.digits = Ch.zero :: ds → ds = [] := by
  cases h with
  | zero q _ =>
      exact ⟨.digit Ch.zero rfl, rfl, fun ds hds => (List.cons.inj hds).2.symm⟩
  | nonzero n c p q hc hne hp =>
      rcases digits_numeral n c p q hc hp with ⟨N, hN, ds, hds⟩
      refine ⟨N, hN, fun ds' hds' => ?_⟩
      rw [hds] at hds'
      exact absurd (List.cons.inj hds').1 hne

theorem frac_numeral (p q : Str) (h : Frac p q) : ∃ N : Numeral, p = fracText (some N) ++ q := by
  cases h with
  | mk n c p q hc hp =>
      rcases digits_numeral n c p q hc hp with ⟨N, hN, _⟩
      exact ⟨N, congrArg (Ch.dot :: ·) hN⟩

theorem exp_text (k : Nat) (p q : Str) (h : Exp k p q) :
    ∃ e : Exponent, p = expText (some e) ++ q := by
  cases h with
  | bare e c p q he hc hp =>
      rcases digits_numeral k c p q hc hp with ⟨N, hN, _⟩
      refine ⟨⟨e, none, N, he, fun s hs => ?_⟩, congrArg (e :: ·) hN⟩
      cases hs
  | signed e s c p q he hs hc hp =>
      rcases digits_numeral k c p q hc hp with ⟨N, hN, _⟩
      refine ⟨⟨e, some s, N, he, fun s' hs' => ?_⟩, ?_⟩
      · cases hs'
        exact hs
      · exact congrArg (fun t => e :: s :: t) hN

/-- Every number of the grammar is spelled like this. -/
theorem number_spelled (p : Str) (j : Json D) (q : Str) (h : Number p j q) :
    ∃ l : Spelling, p = l.text ++ q ∧ l.Kind j := by
  -- The parts behind the sign are spelled one by one.
  have hunsigned : ∀ (neg : Bool) (p : Str), Unsigned neg p j q →
      ∃ l : Spelling, l.negative = neg ∧ l.Kind j ∧
        p = l.int.digits ++ (fracText l.frac ++ expText l.exp) ++ q := by
    intro neg p h
    cases h with
    | integer n _ _ hint _ _ =>
        rcases intPart_numeral n p q hint with ⟨N, rfl, hcan⟩
        refine ⟨⟨neg, N, none, none, hcan⟩, rfl, ⟨rfl, rfl⟩, ?_⟩
        exact congrArg (· ++ q) (List.append_nil N.digits).symm
    | decimal n d _ r _ hint hfrac _ =>
        rcases intPart_numeral n p r hint with ⟨N, rfl, hcan⟩
        rcases frac_numeral r q hfrac with ⟨F, rfl⟩
        refine ⟨⟨neg, N, some F, none, hcan⟩, rfl, Or.inl rfl, ?_⟩
        simp only [expText, List.append_nil, List.append_assoc]
    | scaled n k d _ r _ hint hexp =>
        rcases intPart_numeral n p r hint with ⟨N, rfl, hcan⟩
        rcases exp_text k r q hexp with ⟨e, rfl⟩
        refine ⟨⟨neg, N, none, some e, hcan⟩, rfl, Or.inr rfl, ?_⟩
        simp only [fracText, List.nil_append, List.append_assoc]
    | full n k d _ r t _ hint hfrac hexp =>
        rcases intPart_numeral n p r hint with ⟨N, rfl, hcan⟩
        rcases frac_numeral r t hfrac with ⟨F, rfl⟩
        rcases exp_text k t q hexp with ⟨e, rfl⟩
        refine ⟨⟨neg, N, some F, some e, hcan⟩, rfl, Or.inl rfl, ?_⟩
        simp only [List.append_assoc]
  -- The sign is in front of all of them, or there is none.
  cases h with
  | positive _ _ _ h =>
      rcases hunsigned false p h with ⟨l, hneg, hkind, rfl⟩
      refine ⟨l, ?_, hkind⟩
      simp only [Spelling.text, hneg, Bool.false_eq_true, if_false, List.nil_append]
  | negative p _ _ h =>
      rcases hunsigned true p h with ⟨l, hneg, hkind, rfl⟩
      refine ⟨l, ?_, hkind⟩
      simp only [Spelling.text, hneg, if_true, List.cons_append, List.nil_append]

/-! ## The parts -/

/-- A byte that ends a run of digits and the space behind it, and is looked at next. -/
def Ends (c : UInt8) : Prop := isWhitespace c = false ∧ isdigit c = false ∧ c ≠ Ch.nul

theorem ends_delim (c : UInt8) (h : Delim c) : Ends c :=
  ⟨(delim_facts c h).1, (delim_facts c h).2.1, (delim_facts c h).2.2.1⟩

theorem ends_exp (c : UInt8) (h : IsExp c) : Ends c := by
  rcases h with rfl | rfl <;> exact ⟨rfl, rfl, by decide⟩

/-- The digit loop of `parseInteger` over a run of digits. -/
theorem scanDigits_run (ds : Str) (hds : ∀ c ∈ ds, IsDigit c) (c : UInt8) (p : Str)
    (hc : isdigit c = false) (n : Nat) :
    scanDigits (Int32.ofNat n) (ds ++ c :: p) = .ok (Int32.ofNat (value n ds), c :: p) := by
  induction ds generalizing n with
  | nil => simp only [List.nil_append, scanDigits, hc, Bool.false_eq_true, if_false, value,
      List.foldl_nil]
  | cons d ds ih =>
      have hd : isdigit d = true := hds d List.mem_cons_self
      rw [List.cons_append, scanDigits, if_pos hd, digit_step]
      exact ih (fun x hx => hds x (List.mem_cons_of_mem d hx)) _

/-- The digit loop of `parseDeciaml` over a run of digits. -/
theorem scanFraction_run [DecimalImpl D] (ds : Str) (hds : ∀ c ∈ ds, IsDigit c) (c : UInt8)
    (p : Str) (hc : isdigit c = false) (d idx : D) :
    ∃ x, scanFraction d idx (ds ++ c :: p) = .ok (x, c :: p) := by
  induction ds generalizing d idx with
  | nil =>
      refine ⟨d, ?_⟩
      simp only [List.nil_append, scanFraction, hc, Bool.false_eq_true, if_false]
  | cons e ds ih =>
      have he : isdigit e = true := hds e List.mem_cons_self
      rw [List.cons_append, scanFraction, if_pos he]
      exact ih (fun x hx => hds x (List.mem_cons_of_mem e hx)) _ _

theorem Numeral.cons (N : Numeral) : ∃ c ds, N.digits = c :: ds ∧ isdigit c = true := by
  rcases List.exists_cons_of_ne_nil N.nonempty with ⟨c, ds, h⟩
  exact ⟨c, ds, h, N.isDigits c (h ▸ List.mem_cons_self)⟩

theorem skipWhitespace_run (ws : Str) (hws : ∀ c ∈ ws, isWhitespace c = true) (c : UInt8)
    (p : Str) (hc : isWhitespace c = false) : skipWhitespace (ws ++ c :: p) = .ok (c :: p) := by
  induction ws with
  | nil => exact skipWhitespace_other c p hc
  | cons w ws ih =>
      rw [List.cons_append, skipWhitespace, if_pos (hws w List.mem_cons_self)]
      exact ih fun x hx => hws x (List.mem_cons_of_mem w hx)

/-- A run of digits, and the space behind it. -/
theorem parseInteger_run (N : Numeral) (ws : Str) (hws : ∀ c ∈ ws, isWhitespace c = true)
    (c : UInt8) (p : Str) (hc : Ends c) :
    parseInteger (N.digits ++ (ws ++ c :: p)) = .ok (Int32.ofNat N.value, c :: p) := by
  have hscan : scanDigits 0 (N.digits ++ (ws ++ c :: p))
      = .ok (Int32.ofNat N.value, ws ++ c :: p) := by
    cases ws with
    | nil => exact scanDigits_run N.digits N.isDigits c p hc.2.1 0
    | cons w ws =>
        -- The space is what the loop stops at, and it is passed over behind it.
        have hw : isdigit w = false := by
          have hspace := hws w List.mem_cons_self
          by_contra hd
          rw [Scan.not_isWhitespace_of_isdigit w (Bool.eq_true_of_not_eq_false hd)] at hspace
          exact Bool.false_ne_true hspace
        exact scanDigits_run N.digits N.isDigits w _ hw 0
  rcases N.cons with ⟨d, ds, hN, hd⟩
  rw [Scan.parseInteger_eq]
  rw [hN, List.cons_append] at hscan ⊢
  rw [skipWhitespace_other d _ (Scan.not_isWhitespace_of_isdigit d hd), Res.ok_bind, hscan,
    Res.ok_bind, Scan.closing, skipWhitespace_run ws hws c p hc.1, Res.ok_bind, deref_cons,
    Res.ok_bind, if_neg hc.2.2]

/-- A dot and a run of digits. -/
theorem parseDeciaml_run [DecimalImpl D] (N : Numeral) (c : UInt8) (p : Str) (hc : Ends c) :
    ∃ d : D, parseDeciaml (Ch.dot :: (N.digits ++ c :: p)) = .ok (d, c :: p) := by
  rcases scanFraction_run (D := D) N.digits N.isDigits c p hc.2.1 DecimalImpl.zero
    DecimalImpl.tenth with ⟨x, hscan⟩
  refine ⟨x, ?_⟩
  rcases N.cons with ⟨d, ds, hN, hd⟩
  -- The cursor goes past the dot, and finds a digit, so no space is skipped.
  rw [Scan.parseDeciaml_eq, List.drop_one, List.tail_cons]
  rw [hN, List.cons_append] at hscan ⊢
  rw [skipWhitespace_other d _ (Scan.not_isWhitespace_of_isdigit d hd), Res.ok_bind, hscan,
    Res.ok_bind, Scan.closing, skipWhitespace_other c p hc.1, Res.ok_bind, deref_cons, Res.ok_bind,
    if_neg hc.2.2]

/-- An exponent: it is looked up in the table whatever it is. -/
theorem parseExponent_text [DecimalImpl D] (e : Exponent) (c : UInt8) (p : Str) (hc : Ends c) :
    parseExponent (D := D) (e.text ++ c :: p)
      = (pows (Int32.ofNat e.numeral.value)).bind fun x =>
          .ok (if e.sign = some Ch.minus then DecimalImpl.div DecimalImpl.one x else x,
            c :: p) := by
  have hint := parseInteger_run e.numeral [] (fun _ h => absurd h List.not_mem_nil) c p hc
  rw [List.nil_append] at hint
  -- Behind the digits the two cases do the same: look up, and divide if need be.
  have hclose : ∀ (neg : Prop) [Decidable neg] (i : Int32),
      Scan.scaling (D := D) neg (i, c :: p)
        = (pows i).bind fun x =>
            .ok (if neg then DecimalImpl.div DecimalImpl.one x else x, c :: p) := by
    intro neg _ i
    rw [Scan.scaling, skipWhitespace_other c p hc.1, Res.ok_bind, deref_cons, Res.ok_bind,
      if_neg hc.2.2]
  rw [Scan.parseExponent_eq, Exponent.text, List.cons_append, List.drop_one, List.tail_cons]
  -- What is looked at for the sign is the sign, or the first digit.
  cases hs : e.sign with
  | some s =>
      have hsign : s = Ch.plus ∨ s = Ch.minus := e.isSign s hs
      have hw : isWhitespace s = false := by rcases hsign with rfl | rfl <;> rfl
      simp only [Option.toList_some, List.cons_append, List.nil_append]
      rw [skipWhitespace_other s _ hw, Res.ok_bind, deref_cons, Res.ok_bind, if_pos hsign,
        List.drop_one, List.tail_cons, hint, Res.ok_bind, hclose]
      simp only [Option.some.injEq]
  | none =>
      rcases e.numeral.cons with ⟨d, ds, hN, hd⟩
      have hsign : ¬ (d = Ch.plus ∨ d = Ch.minus) := by
        rintro (rfl | rfl) <;> exact absurd hd (by decide)
      have hminus : d ≠ Ch.minus := fun h => hsign (Or.inr h)
      simp only [Option.toList_none, List.nil_append]
      rw [hN, List.cons_append] at hint ⊢
      rw [skipWhitespace_other d _ (Scan.not_isWhitespace_of_isdigit d hd), Res.ok_bind, deref_cons,
        Res.ok_bind, if_neg hsign, hint, Res.ok_bind, hclose]
      simp only [hminus, if_false, reduceCtorEq]

/-! ## Numbers -/

/-- Behind the sign: the integer, and then what is left. -/
theorem parseUnsigned_run [DecimalImpl D] (neg : Bool) (N : Numeral) (ws : Str)
    (hws : ∀ c ∈ ws, isWhitespace c = true) (c : UInt8) (p : Str) (hc : Ends c) :
    parseUnsigned (D := D) neg (N.digits ++ (ws ++ c :: p))
      = parseRest neg (Int32.ofNat N.value) (c :: p) := by
  have hint := parseInteger_run N ws hws c p hc
  rcases N.cons with ⟨d, ds, hN, hd⟩
  rw [hN, List.cons_append] at hint ⊢
  simp only [parseUnsigned, Res.bind_def, deref_cons, Res.ok_bind]
  rw [if_pos hd, hint]
  rfl

/-- The sign, or the first digit. -/
theorem parseNumberImpl_sign [DecimalImpl D] (neg : Bool) (N : Numeral) (p : Str) :
    parseNumberImpl (D := D) ((if neg then [Ch.minus] else []) ++ (N.digits ++ p))
      = parseUnsigned neg (N.digits ++ p) := by
  cases neg with
  | true => rfl
  | false =>
      rcases N.cons with ⟨d, ds, hN, hd⟩
      have hne : d ≠ Ch.minus := by
        rintro rfl
        exact absurd hd (by decide)
      rw [hN, List.cons_append]
      simp only [Bool.false_eq_true, if_false, List.nil_append, parseNumberImpl, Res.bind_def,
        deref_cons, Res.ok_bind]
      rw [if_neg hne]

/-- No fraction: the cursor stays where the integer ended. -/
theorem parseRest_other [DecimalImpl D] (neg : Bool) (i : Int32) (c : UInt8) (p : Str)
    (hc : c ≠ Ch.dot) :
    parseRest (D := D) neg i (c :: p) = .ok (.integer (if neg then -i else i), c :: p) := by
  -- Only a dot is looked for here.
  rw [parseRest, deref_cons, Res.ok_bind, if_pos hc]

/-- An integer without a fraction, up to whatever is behind it. -/
theorem parseNumberImpl_integer [DecimalImpl D] (neg : Bool) (N : Numeral) (ws : Str)
    (hws : ∀ c ∈ ws, isWhitespace c = true) (c : UInt8) (p : Str) (hc : Ends c)
    (hdot : c ≠ Ch.dot) :
    parseNumberImpl (D := D) ((if neg then [Ch.minus] else []) ++ (N.digits ++ (ws ++ c :: p)))
      = .ok (.integer (if neg then -Int32.ofNat N.value else Int32.ofNat N.value), c :: p) := by
  rw [parseNumberImpl_sign, parseUnsigned_run neg N ws hws c p hc, parseRest_other neg _ c p hdot]

/-- A fraction, and an exponent if there is its letter. -/
theorem parseNumberImpl_fraction [DecimalImpl D] (neg : Bool) (N F : Numeral) (c : UInt8) (p : Str)
    (hc : Ends c) :
    (¬ IsExp c → ∃ d : D, parseNumberImpl ((if neg then [Ch.minus] else []) ++
        (N.digits ++ (Ch.dot :: (F.digits ++ c :: p)))) = .ok (.decimal d, c :: p)) ∧
    (IsExp c → ∃ f : D → D, parseNumberImpl ((if neg then [Ch.minus] else []) ++
        (N.digits ++ (Ch.dot :: (F.digits ++ c :: p))))
      = (parseExponent (c :: p)).bind fun y => .ok (.decimal (f y.1), y.2)) := by
  -- The dot ends the digits of the integer.
  have hrun := parseUnsigned_run (D := D) neg N [] (fun _ h => absurd h List.not_mem_nil) Ch.dot
    (F.digits ++ c :: p) ⟨rfl, rfl, by decide⟩
  rcases parseDeciaml_run (D := D) F c p hc with ⟨d, hd⟩
  rw [List.nil_append] at hrun
  rw [parseNumberImpl_sign, hrun, parseRest, deref_cons, Res.ok_bind, if_neg (not_not.mpr rfl), hd,
    Res.ok_bind, deref_cons, Res.ok_bind]
  constructor
  · intro he
    rw [if_pos ⟨fun h => he (Or.inl h), fun h => he (Or.inr h)⟩]
    exact ⟨_, rfl⟩
  · -- The letter is there, and what is read for it multiplies the rest.
    intro he
    rw [if_neg (fun h => he.elim h.1 h.2)]
    exact ⟨fun y => DecimalImpl.mul (if neg then DecimalImpl.neg y else y)
      (DecimalImpl.add d (DecimalImpl.ofInt (Int32.ofNat N.value))), rfl⟩

theorem Spelling.text_append (l : Spelling) (q : Str) :
    l.text ++ q = (if l.negative then [Ch.minus] else []) ++
      (l.int.digits ++ (fracText l.frac ++ (expText l.exp ++ q))) := by
  simp only [Spelling.text, List.append_assoc]

/-- The letter behind a bare integer is where the integer ends, and nobody looks for it
    there. -/
theorem not_read_scaled [DecimalImpl D] (neg : Bool) (N : Numeral) (e : Exponent) (q : Str)
    (j : Json D) :
    parseNumberImpl ((if neg then [Ch.minus] else []) ++ (N.digits ++ (e.text ++ q)))
      ≠ .ok (j, q) := by
  have hletter : e.letter ≠ Ch.dot := by
    rcases e.isExp with h | h <;> rw [h] <;> decide
  have hrun := parseNumberImpl_integer (D := D) neg N [] (fun _ h => absurd h List.not_mem_nil)
    e.letter (e.sign.toList ++ e.numeral.digits ++ q) (ends_exp _ e.isExp) hletter
  rw [List.nil_append] at hrun
  rw [Exponent.text, List.cons_append, hrun]
  intro hj
  -- Two texts of different lengths are left.
  have hlen := congrArg List.length (Prod.mk.inj (Res.ok.inj hj)).2
  simp only [List.length_cons, List.length_append] at hlen
  omega

/-- A number in front of a delimiter is read up to the delimiter, and as what it is, exactly
    when its exponent, if it has one, stands behind a fraction and is found in the table. -/
theorem parseNumberImpl_spelling_iff [DecimalImpl D] (l : Spelling) (c : UInt8) (p : Str)
    (hc : Delim c) :
    (∃ j : Json D, parseNumberImpl (l.text ++ c :: p) = .ok (j, c :: p) ∧ l.Kind j)
      ↔ l.Accepted := by
  have hends := ends_delim c hc
  rw [Spelling.text_append]
  unfold Spelling.Accepted
  rcases hfrac : l.frac with _ | F <;> rcases hexp : l.exp with _ | e <;>
    simp only [fracText, expText, List.nil_append, List.cons_append]
  · -- An integer.
    have hrun := parseNumberImpl_integer (D := D) l.negative l.int []
      (fun _ h => absurd h List.not_mem_nil) c p hends (delim_facts c hc).2.2.2
    rw [List.nil_append] at hrun
    rw [hrun]
    exact ⟨fun _ e he => absurd he (Option.not_mem_none e), fun _ => ⟨_, rfl, hfrac, hexp⟩⟩
  · constructor
    · -- An exponent without a fraction.
      rintro ⟨j, hj, _⟩
      exact absurd hj (not_read_scaled l.negative l.int e (c :: p) j)
    · intro h
      exact absurd (h e rfl).1 Bool.false_ne_true
  · -- A fraction. A delimiter is not the letter of an exponent.
    have hnotExp : ¬ IsExp c := by
      unfold IsExp
      rcases hc with rfl | rfl | rfl <;> decide
    rcases (parseNumberImpl_fraction (D := D) l.negative l.int F c p hends).1 hnotExp with ⟨d, hd⟩
    rw [hd]
    refine ⟨fun _ e he => absurd he (Option.not_mem_none e), fun _ => ⟨_, rfl, Or.inl ?_⟩⟩
    rw [hfrac]
    rfl
  · -- A fraction with an exponent, whose index must be found in the table.
    have hexpo := parseExponent_text (D := D) e c p hends
    rcases (parseNumberImpl_fraction (D := D) l.negative l.int F e.letter
      (e.sign.toList ++ e.numeral.digits ++ c :: p) (ends_exp _ e.isExp)).2 e.isExp with ⟨f, hf⟩
    rw [Exponent.text, List.cons_append] at hexpo ⊢
    rw [hf, hexpo, pows]
    by_cases hi : 0 ≤ (Int32.ofNat e.numeral.value).toInt ∧
        (Int32.ofNat e.numeral.value).toInt < exponentLimit
    · rw [if_pos hi]
      refine ⟨fun _ e' he' => ?_, fun _ => ⟨_, rfl, Or.inl (by rw [hfrac]; rfl)⟩⟩
      cases he'
      exact ⟨rfl, hi⟩
    · rw [if_neg hi]
      constructor
      · rintro ⟨j, hj, _⟩
        cases hj
      · intro h
        exact absurd (h e rfl).2 hi

/-- Minus one and a half thousand, in front of a comma. -/
theorem parseNumberImpl_spelling_thousand :
    (∃ j : Json Unit, parseNumberImpl (thousand.text ++ Ch.comma :: []) = .ok (j, Ch.comma :: []) ∧
      thousand.Kind j) ↔ thousand.Accepted :=
  parseNumberImpl_spelling_iff (D := Unit) thousand Ch.comma [] (Or.inl rfl)

/-- A million, as an `ostream` writes it, is read as one. -/
theorem parseNumberImpl_million :
    ¬ ∀ (l : Spelling) (c : UInt8) (p : Str), Delim c →
      ∃ j : Json Unit, parseNumberImpl (l.text ++ c :: p) = .ok (j, c :: p) ∧ l.Kind j := by
  intro h
  rcases h million Ch.comma [] (Or.inl rfl) with ⟨j, hj, _⟩
  -- What is read is the one in front of the letter.
  have hone : parseNumberImpl (D := Unit) (million.text ++ Ch.comma :: [])
      = .ok (.integer 1, text "e+06,") := by decide +kernel
  rw [hone] at hj
  exact absurd (Prod.mk.inj (Res.ok.inj hj)).2 (by decide +kernel)

end Grammar

end Vsjson
