import Trpc.Theory.Scan.Total
import Trpc.Theory.Text.Numbers

/-!
# Exponents Outside the Table

`parseExponent` takes the digits of an exponent for an index into a table of 309
powers, after they have been cut to an `int`, and does not compare the one with the
other. Which exponents it comes across depends on the text: a letter `e` counts only
behind the digits of a fraction, not in a string, and not in what the parser does not
read any more. The reading machine knows where that is, so the question whether some
exponent of a text misses the table is a question about where the machine stands when it
comes to the letters, and about the bytes behind them.

## Main definitions

* `Mode.awaitsExp`: The modes in which the letter of an exponent is looked for.
* `ExponentAt`: A text has an exponent there.
* `Mode.index`: What an exponent is going to look up.
* `exponentIndex`: The same, from behind the letter.

## Theorems

* `exp_step`: A byte of an exponent, or the byte that ends it.
* `feed_powIndex_iff`: When the machine stops at an exponent.
* `parse_inTable_iff`: When every exponent of a text is found in the table.
-/

namespace Vsjson

namespace Scan

open parser Grammar

variable {D : Type}

/-- Behind the digits of a fraction the letter of an exponent is looked for. -/
def Mode.awaitsExp : Mode → Bool
  | .fracStart | .frac | .fracEnd => true
  | _ => false

/-- The letter of an exponent stands in a text, with `b` behind it, where the parser
    looks for one. -/
def ExponentAt (p b : Str) : Prop :=
  ∃ a e m K, p = a ++ e :: b ∧ behind .value [] a = .go m K ∧ m.awaitsExp = true ∧ IsExp e

/-! ## What is looked up -/

/-- Behind the digits of an exponent with the value `i`: nothing is looked up at the
    terminator, or when the text is over. -/
def indexBehind (i : Int32) (p : Str) : Option Int32 :=
  match behindSpace p with
  | [] => none
  | c :: _ => if c = Ch.nul then none else some i

/-- An exponent from its first digit on, given what is behind its letter. -/
def exponentDigits (b : Str) : Str :=
  match behindSpace b with
  | [] => []
  | c :: p => if c = Ch.plus ∨ c = Ch.minus then behindSpace p else c :: p

/-- What an exponent looks up, given what is behind its letter: what its digits denote, cut
    to an `int`. -/
def exponentIndex (b : Str) : Option Int32 :=
  indexBehind (Int32.ofNat (value 0 ((exponentDigits b).takeWhile isdigit)))
    ((exponentDigits b).dropWhile isdigit)

/-- The same within the digits, those read so far having the value `i`. -/
def indexDigits (i : Int32) (p : Str) : Option Int32 :=
  indexBehind ((p.takeWhile isdigit).foldl (fun i c => i * 10 + digitVal c) i) (p.dropWhile isdigit)

/-- What an exponent looks up when the machine is in the middle of it. -/
def Mode.index : Mode → Str → Option Int32
  | .expStart, p => indexDigits 0 (exponentDigits p)
  | .expSign, p => indexDigits 0 (behindSpace p)
  | .expDigits i, p => indexDigits i p
  | .expEnd i, p => indexBehind i p
  | _, _ => none

/-- The modes from the letter of an exponent to its end. -/
def Mode.isExp : Mode → Bool
  | .expStart | .expSign | .expDigits _ | .expEnd _ => true
  | _ => false

/-- An index that is not one into the table. -/
def OutOfTable (x : Option Int32) : Prop :=
  ∃ i ∈ x, ¬ (0 ≤ i.toInt ∧ i.toInt < exponentLimit)

theorem not_outOfTable_none : ¬ OutOfTable none := by
  rintro ⟨i, hi, _⟩
  exact Option.not_mem_none i hi

/-- Outside of exponents nothing is looked up. -/
theorem index_eq_none (m : Mode) (h : m.isExp = false) (p : Str) : m.index p = none := by
  cases m with
  | expStart => cases h
  | expSign => cases h
  | expDigits i => cases h
  | expEnd i => cases h
  | _ => rfl

/-- The digits are added up in an `int`, and the sum is that of the numbers cut to an `int`. -/
theorem foldl_digits (ds : Str) (n : Nat) :
    ds.foldl (fun i c => i * 10 + digitVal c) (Int32.ofNat n) = Int32.ofNat (value n ds) := by
  induction ds generalizing n with
  | nil => rfl
  | cons c ds ih =>
      -- Cutting commutes with the step, so it may be done once at the end.
      rw [List.foldl_cons, digit_step]
      exact ih _

theorem index_expStart (b : Str) : Mode.expStart.index b = exponentIndex b := by
  rw [Mode.index, indexDigits, exponentIndex]
  exact congrArg (indexBehind · _) (foldl_digits _ 0)

theorem indexBehind_space (i : Int32) (c : UInt8) (p : Str) (h : isWhitespace c = true) :
    indexBehind i (c :: p) = indexBehind i p := by
  rw [indexBehind, indexBehind, behindSpace_space c p h]

theorem indexBehind_other (i : Int32) (c : UInt8) (p : Str) (h : isWhitespace c = false) :
    indexBehind i (c :: p) = if c = Ch.nul then none else some i := by
  rw [indexBehind, behindSpace_other c p h]

theorem indexDigits_digit (i : Int32) (c : UInt8) (p : Str) (h : isdigit c = true) :
    indexDigits i (c :: p) = indexDigits (i * 10 + digitVal c) p := by
  rw [indexDigits, indexDigits, List.takeWhile_cons, if_pos h, List.dropWhile_cons, if_pos h,
    List.foldl_cons]

theorem indexDigits_other (i : Int32) (c : UInt8) (p : Str) (h : isdigit c = false) :
    indexDigits i (c :: p) = indexBehind i (c :: p) := by
  have hc : ¬ isdigit c = true := by
    rw [h]
    exact Bool.false_ne_true
  rw [indexDigits, List.takeWhile_cons, if_neg hc, List.dropWhile_cons, if_neg hc, List.foldl_nil]

/-! ## Steps -/

/-- A step outside of exponents. -/
def Next.Outside : Next → Prop
  | .go m _ => m.isExp = false
  | .stop s => s ≠ .powIndex

theorem outside_done : (Next.stop .done).Outside := Stop.noConfusion

theorem outside_throw : (Next.stop .throw).Outside := Stop.noConfusion

theorem outside_doubleFree : (Next.stop .doubleFree).Outside := Stop.noConfusion

theorem outside_ite (P : Prop) [Decidable P] (x y : Next) (hx : x.Outside) (hy : y.Outside) :
    (if P then x else y).Outside := by
  by_cases h : P
  · rwa [if_pos h]
  · rwa [if_neg h]

/-- A value that goes into its place leads to no exponent. -/
theorem outside_placed (m : Mode) (hm : m.isExp = false) (K : Option (List Ctx)) :
    (placed m K).Outside := by
  cases K with
  | none => exact outside_doubleFree
  | some K =>
      cases K with
      | nil => exact outside_done
      | cons x K => exact hm

theorem outside_ended (heap : Bool) (K : List Ctx) : (ended heap K).Outside :=
  outside_placed .after rfl _

/-- The byte behind a value. -/
theorem outside_settle (K : List Ctx) (c : UInt8) : (settle K c).Outside := by
  cases K with
  | nil => exact outside_done
  | cons x K' =>
      refine outside_ite _ _ _ rfl (outside_ite _ _ _ (outside_ended true K') ?_)
      refine outside_ite _ _ _ ?_ outside_throw
      cases x <;> rfl

theorem outside_finish (K : List Ctx) (c : UInt8) : (finish K c).Outside := by
  unfold finish
  cases note false K with
  | none => exact outside_doubleFree
  | some K' => exact outside_settle K' c

theorem outside_startValue (K : List Ctx) (c : UInt8) : (startValue K c).Outside := by
  have hliteral : ∀ k, (placed (.skip k) (note false K)).Outside :=
    fun k => outside_placed (.skip k) rfl _
  refine outside_ite _ _ _ rfl (outside_ite _ _ _ rfl (outside_ite _ _ _ rfl ?_))
  refine outside_ite _ _ _ (hliteral 2) (outside_ite _ _ _ (hliteral 3) ?_)
  exact outside_ite _ _ _ rfl (outside_ite _ _ _ rfl (outside_finish K c))

theorem outside_endInteger (K : List Ctx) (c : UInt8) : (endInteger K c).Outside :=
  outside_ite _ _ _ outside_throw (outside_ite _ _ _ rfl (outside_finish K c))

theorem outside_endFraction (K : List Ctx) (c : UInt8) (h : ¬ IsExp c) :
    (endFraction K c).Outside := by
  refine outside_ite _ _ _ outside_throw ?_
  rw [if_neg (show ¬ (c = Ch.lowerE ∨ c = Ch.upperE) from h)]
  exact outside_finish K c

/-- Outside of an exponent, and not at the letter of one, the machine stays outside. -/
theorem outside_step (m : Mode) (K : List Ctx) (c : UInt8) (hm : m.isExp = false)
    (hc : ¬ (m.awaitsExp = true ∧ IsExp c)) : (step m K c).Outside := by
  cases m with
  | expStart => cases hm
  | expSign => cases hm
  | expDigits i => cases hm
  | expEnd i => cases hm
  | value => exact outside_ite _ _ _ rfl (outside_startValue K c)
  | firstKey =>
      refine outside_ite _ _ _ rfl (outside_ite _ _ _ (outside_ended false K.tail) ?_)
      exact outside_ite _ _ _ rfl outside_throw
  | firstElem =>
      exact outside_ite _ _ _ rfl
        (outside_ite _ _ _ (outside_ended false K.tail) (outside_startValue K c))
  | key => exact outside_ite _ _ _ rfl (outside_ite _ _ _ rfl outside_throw)
  | colon => exact outside_ite _ _ _ rfl (outside_ite _ _ _ rfl outside_throw)
  | after => exact outside_settle K c
  | string isKey s =>
      refine outside_ite _ _ _ ?_ (outside_ite _ _ _ rfl rfl)
      exact outside_ite _ _ _ rfl (outside_ended _ K)
  | escape isKey s => rfl
  | skip k => cases k <;> rfl
  | minus => exact outside_ite _ _ _ rfl (outside_finish K c)
  | digits => exact outside_ite _ _ _ rfl (outside_ite _ _ _ rfl (outside_endInteger K c))
  | digitsEnd => exact outside_ite _ _ _ rfl (outside_endInteger K c)
  | fracStart =>
      -- Inside and behind a fraction a letter would lead into an exponent.
      have hend := outside_endFraction K c fun h => hc ⟨rfl, h⟩
      exact outside_ite _ _ _ rfl (outside_ite _ _ _ rfl hend)
  | frac =>
      have hend := outside_endFraction K c fun h => hc ⟨rfl, h⟩
      exact outside_ite _ _ _ rfl (outside_ite _ _ _ rfl hend)
  | fracEnd => exact outside_ite _ _ _ rfl (outside_endFraction K c fun h => hc ⟨rfl, h⟩)

/-- The letter of an exponent, where one is looked for. -/
theorem letter_step (m : Mode) (K : List Ctx) (c : UInt8) (hm : m.awaitsExp = true)
    (hc : IsExp c) : step m K c = .go .expStart K := by
  -- Both letters are tested before anything else in all three modes.
  rcases hc with rfl | rfl <;>
  · cases m with
    | fracStart => rfl
    | frac => rfl
    | fracEnd => rfl
    | _ => cases hm

/-- A byte of an exponent leaves what is looked up as it is; the byte behind it makes the
    machine look it up. -/
theorem exp_step (m : Mode) (K : List Ctx) (c : UInt8) (hm : m.isExp = true) :
    (∃ m', m'.isExp = true ∧ step m K c = .go m' K ∧ ∀ p, m.index (c :: p) = m'.index p) ∨
    ∃ i, step m K c = endExponent K i c ∧
      ∀ p, m.index (c :: p) = if c = Ch.nul then none else some i := by
  -- Neither a blank nor a digit: the exponent ends here.
  have hends : ∀ i, isWhitespace c = false → isdigit c = false →
      ∀ p, indexDigits i (c :: p) = if c = Ch.nul then none else some i := fun i hw hd p =>
    (indexDigits_other i c p hd).trans (indexBehind_other i c p hw)
  -- The two classes of bytes exclude each other, so the order of the tests does not
  -- matter.
  have hspace : isWhitespace c = true → isdigit c = false := by
    intro hw
    by_contra hd
    rw [not_isWhitespace_of_isdigit c (Bool.eq_true_of_not_eq_false hd)] at hw
    exact Bool.false_ne_true hw
  cases m with
  | expEnd i =>
      by_cases hw : isWhitespace c = true
      · exact Or.inl ⟨.expEnd i, rfl, by rw [step, if_pos hw], fun p => indexBehind_space i c p hw⟩
      · refine Or.inr ⟨i, by rw [step, if_neg hw], fun p => ?_⟩
        exact indexBehind_other i c p (Bool.eq_false_of_not_eq_true hw)
  | expDigits i =>
      by_cases hd : isdigit c = true
      · refine Or.inl ⟨.expDigits (i * 10 + digitVal c), rfl, by rw [step, if_pos hd], fun p => ?_⟩
        exact indexDigits_digit i c p hd
      by_cases hw : isWhitespace c = true
      · refine Or.inl ⟨.expEnd i, rfl, by rw [step, if_neg hd, if_pos hw], fun p => ?_⟩
        exact (indexDigits_other i c p (hspace hw)).trans (indexBehind_space i c p hw)
      · refine Or.inr ⟨i, by rw [step, if_neg hd, if_neg hw], fun p => ?_⟩
        exact hends i (Bool.eq_false_of_not_eq_true hw) (Bool.eq_false_of_not_eq_true hd) p
  | expSign =>
      by_cases hw : isWhitespace c = true
      · refine Or.inl ⟨.expSign, rfl, by rw [step, if_pos hw], fun p => ?_⟩
        rw [Mode.index, Mode.index, behindSpace_space c p hw]
      -- Behind a sign the digits begin, and there need not be any.
      have hother : ∀ p, Mode.expSign.index (c :: p) = indexDigits 0 (c :: p) := fun p => by
        rw [Mode.index, behindSpace_other c p (Bool.eq_false_of_not_eq_true hw)]
      by_cases hd : isdigit c = true
      · refine Or.inl ⟨_, rfl, by rw [step, if_neg hw, if_pos hd], fun p => ?_⟩
        exact (hother p).trans (indexDigits_digit 0 c p hd)
      · refine Or.inr ⟨0, by rw [step, if_neg hw, if_neg hd], fun p => ?_⟩
        exact (hother p).trans
          (hends 0 (Bool.eq_false_of_not_eq_true hw) (Bool.eq_false_of_not_eq_true hd) p)
  | expStart =>
      by_cases hw : isWhitespace c = true
      · refine Or.inl ⟨.expStart, rfl, by rw [step, if_pos hw], fun p => ?_⟩
        rw [Mode.index, Mode.index, exponentDigits, behindSpace_space c p hw, exponentDigits]
      have hbehind : ∀ p, behindSpace (c :: p) = c :: p := fun p =>
        behindSpace_other c p (Bool.eq_false_of_not_eq_true hw)
      -- Only here may a sign stand.
      by_cases hs : c = Ch.plus ∨ c = Ch.minus
      · refine Or.inl ⟨.expSign, rfl, by rw [step, if_neg hw, if_pos hs], fun p => ?_⟩
        simp only [Mode.index, exponentDigits, hbehind, if_pos hs]
      have hother : ∀ p, Mode.expStart.index (c :: p) = indexDigits 0 (c :: p) := fun p => by
        simp only [Mode.index, exponentDigits, hbehind, if_neg hs]
      by_cases hd : isdigit c = true
      · refine Or.inl ⟨_, rfl, by rw [step, if_neg hw, if_neg hs, if_pos hd], fun p => ?_⟩
        exact (hother p).trans (indexDigits_digit 0 c p hd)
      · refine Or.inr ⟨0, by rw [step, if_neg hw, if_neg hs, if_neg hd], fun p => ?_⟩
        exact (hother p).trans
          (hends 0 (Bool.eq_false_of_not_eq_true hw) (Bool.eq_false_of_not_eq_true hd) p)
  | _ => cases hm

/-! ## Runs -/

/-- A run comes to the letter of an exponent that misses the table. -/
def Overshoots (m : Mode) (K : List Ctx) (p : Str) : Prop :=
  ∃ a e b m' K', p = a ++ e :: b ∧ behind m K a = .go m' K' ∧ m'.awaitsExp = true ∧ IsExp e ∧
    OutOfTable (exponentIndex b)

theorem not_overshoots_nil (m : Mode) (K : List Ctx) : ¬ Overshoots m K [] := by
  rintro ⟨a, e, b, _, _, h, _⟩
  exact List.append_ne_nil_of_right_ne_nil a (List.cons_ne_nil e b) h.symm

/-- The letter is the first byte, or comes behind it. -/
theorem overshoots_cons (m : Mode) (K : List Ctx) (c : UInt8) (p : Str) :
    Overshoots m K (c :: p) ↔
      (m.awaitsExp = true ∧ IsExp c ∧ OutOfTable (exponentIndex p)) ∨
      ∃ m1 K1, step m K c = .go m1 K1 ∧ Overshoots m1 K1 p := by
  constructor
  · rintro ⟨a, e, b, m', K', hp, hbehind, hm', he, hout⟩
    -- What the machine has read before the letter is empty, or begins with the first
    -- byte.
    cases a with
    | nil =>
        cases hp
        cases hbehind
        exact Or.inl ⟨hm', he, hout⟩
    | cons c' a =>
        cases hp
        rw [behind] at hbehind
        cases hstep : step m K c with
        | go m1 K1 =>
            rw [hstep] at hbehind
            exact Or.inr ⟨m1, K1, rfl, a, e, b, m', K', rfl, hbehind, hm', he, hout⟩
        | stop s =>
            rw [hstep] at hbehind
            cases hbehind
  · rintro (⟨hm, hc, hout⟩ | ⟨m1, K1, hstep, a, e, b, m', K', rfl, hbehind, hm', he, hout⟩)
    · exact ⟨[], c, p, m, K, rfl, rfl, hm, hc, hout⟩
    · refine ⟨c :: a, e, b, m', K', rfl, ?_, hm', he, hout⟩
      rw [behind, hstep]
      exact hbehind

/-- Within an exponent no further one is looked for. -/
theorem awaitsExp_eq_false (m : Mode) (h : m.isExp = true) : m.awaitsExp = false := by
  cases m with
  | expStart => rfl
  | expSign => rfl
  | expDigits i => rfl
  | expEnd i => rfl
  | _ => cases h

/-- The byte behind an exponent: the machine stops there when the exponent misses the
    table, and goes on outside of exponents if not. -/
theorem endExponent_cases (K : List Ctx) (i : Int32) (c : UInt8) :
    (endExponent K i c = .stop .powIndex ∧ OutOfTable (if c = Ch.nul then none else some i)) ∨
    ((endExponent K i c).Outside ∧ ¬ OutOfTable (if c = Ch.nul then none else some i)) := by
  unfold endExponent
  -- At the end of the text the parser throws before it looks anything up.
  by_cases hz : c = Ch.nul
  · rw [if_pos hz, if_pos hz]
    exact Or.inr ⟨outside_throw, not_outOfTable_none⟩
  · rw [if_neg hz, if_neg hz]
    by_cases hi : 0 ≤ i.toInt ∧ i.toInt < exponentLimit
    · rw [if_pos hi]
      refine Or.inr ⟨outside_finish K c, ?_⟩
      rintro ⟨x, hx, hout⟩
      cases hx
      exact hout hi
    · rw [if_neg hi]
      exact Or.inl ⟨rfl, i, rfl, hi⟩

/-- The machine stops at an exponent that misses the table when it is in the middle of one,
    or comes to the letter of one. -/
theorem feed_powIndex_iff (p : Str) : ∀ (m : Mode) (K : List Ctx),
    feed m K p = some .powIndex ↔ OutOfTable (m.index p) ∨ Overshoots m K p := by
  induction p with
  | nil =>
      intro m K
      have hindex : ¬ OutOfTable (m.index []) := by
        have hnone : m.index [] = none := by
          cases m <;> rfl
        rw [hnone]
        exact not_outOfTable_none
      simp only [feed_nil, reduceCtorEq, hindex, not_overshoots_nil m K, or_self]
  | cons c p ih =>
      intro m K
      -- When the byte leads outside of exponents, only later letters count.
      have houtside : (step m K c).Outside → (feed m K (c :: p) = some .powIndex ↔
          ∃ m1 K1, step m K c = .go m1 K1 ∧ Overshoots m1 K1 p) := by
        intro h
        rw [feed_cons]
        cases hstep : step m K c with
        | stop s =>
            rw [hstep] at h
            constructor
            · intro hs
              exact absurd (Option.some.inj hs) h
            · rintro ⟨m1, K1, hs, _⟩
              cases hs
        | go m1 K1 =>
            rw [hstep] at h
            rw [proceed_go, ih m1 K1, index_eq_none m1 h p]
            simp only [not_outOfTable_none, false_or, Next.go.injEq]
            constructor
            · exact fun hover => ⟨m1, K1, ⟨rfl, rfl⟩, hover⟩
            · rintro ⟨_, _, ⟨rfl, rfl⟩, hover⟩
              exact hover
      rw [overshoots_cons]
      -- In an exponent there is no other letter to come to before it ends.
      by_cases hexp : m.isExp = true
      · simp only [awaitsExp_eq_false m hexp, Bool.false_eq_true, false_and, false_or]
        rcases exp_step m K c hexp with ⟨m', hm', hstep, hindex⟩ | ⟨i, hstep, hindex⟩
        · rw [feed_cons, hstep, proceed_go, ih m' K, hindex p]
          simp only [Next.go.injEq]
          constructor
          · exact Or.imp id fun hover => ⟨m', K, ⟨rfl, rfl⟩, hover⟩
          · rintro (hout | ⟨_, _, ⟨rfl, rfl⟩, hover⟩)
            · exact Or.inl hout
            · exact Or.inr hover
        · rw [hindex p]
          rcases endExponent_cases K i c with ⟨hend, hout⟩ | ⟨hend, hin⟩
          · rw [feed_cons, hstep, hend]
            exact ⟨fun _ => Or.inl hout, fun _ => rfl⟩
          · rw [houtside (by rwa [hstep])]
            simp only [hin, false_or]
      · have hnone := index_eq_none m (Bool.eq_false_of_not_eq_true hexp) (c :: p)
        rw [hnone]
        simp only [not_outOfTable_none, false_or]
        by_cases hletter : m.awaitsExp = true ∧ IsExp c
        · -- The letter starts an exponent, whose index is that of the text behind it.
          rw [feed_cons, letter_step m K c hletter.1 hletter.2, proceed_go, ih .expStart K,
            index_expStart]
          simp only [hletter.1, hletter.2, true_and, Next.go.injEq]
          constructor
          · exact Or.imp id fun hover => ⟨.expStart, K, ⟨rfl, rfl⟩, hover⟩
          · rintro (hout | ⟨_, _, ⟨rfl, rfl⟩, hover⟩)
            · exact Or.inl hout
            · exact Or.inr hover
        · rw [houtside (outside_step m K c (Bool.eq_false_of_not_eq_true hexp) hletter)]
          constructor
          · exact Or.inr
          · rintro (⟨hm, hc, _⟩ | hover)
            · exact absurd ⟨hm, hc⟩ hletter
            · exact hover

theorem parse_eq_powIndex_iff [DecimalImpl D] (p : Str) :
    parse (D := D) p = .fault .powIndex ↔ verdict p = some .powIndex := by
  rcases parse_spec (D := D) p with ⟨j, h, hv⟩ | ⟨w, h, hv⟩ | ⟨h, hv⟩ | ⟨h, hv⟩ | ⟨h, hv⟩ <;>
    rw [h, hv] <;> simp only [reduceCtorEq, Res.fault.injEq, Option.some.injEq]

/-- The table is never left exactly when each exponent of the text, where the parser looks
    for one, denotes an index into it, or has nothing behind it but the terminator. -/
theorem parse_inTable_iff [DecimalImpl D] (p : Str) :
    parse (D := D) p ≠ .fault .powIndex ↔
      ∀ b, ExponentAt p b → ∀ i ∈ exponentIndex b, 0 ≤ i.toInt ∧ i.toInt < exponentLimit := by
  have hvalue : ¬ OutOfTable (Mode.value.index p) := not_outOfTable_none
  rw [Ne, parse_eq_powIndex_iff, verdict, feed_powIndex_iff]
  simp only [hvalue, false_or]
  constructor
  · -- An exponent of the text is one the machine comes to, and the other way round.
    rintro h b ⟨a, e, m, K, hp, hbehind, hm, he⟩ i hi
    by_contra hout
    exact h ⟨a, e, b, m, K, hp, hbehind, hm, he, i, hi, hout⟩
  · rintro h ⟨a, e, b, m, K, hp, hbehind, hm, he, i, hi, hout⟩
    exact hout (h b ⟨a, e, m, K, hp, hbehind, hm, he⟩ i hi)

/-- An exponent too many. -/
theorem parse_outOfTable : ¬ ∀ t : Str, parseText (D := Unit) t ≠ .fault .powIndex := by
  intro h
  exact h (text "[1.0e309]") (by decide +kernel)

end Scan

end Vsjson
