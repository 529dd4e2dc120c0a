import Trpc.Theory.Text.Grammar

/-!
# Texts Made of Tokens

The machine knows where a value or a key begins. A text is tidy if a complete token
stands in each of these places, as far as the machine reads it.

Most bytes do not begin anything, and reading on behind them is like reading on in
front of them: the machine stops in the same way, and the one is tidy if the other is.
`Alike` says this of two places. A token is read by a chain of such steps, to the
place behind the value, which `ended` stands for.

## Main definitions

* `Starts`: A value or a key begins with the next byte.
* `Tidy`: What begins is complete.
* `Alike`: Two places from which reading goes on in the same way.

## Theorems

* `alike_step`: One byte.
* `alike_space`, `alike_closing`: Space.
* `alike_literal`, `alike_string`, `alike_positive`, `alike_negative`: Tokens.
-/

namespace Vsjson

namespace Scan

open parser Grammar

/-- A value or a key begins with the byte. -/
def Starts : Mode → UInt8 → Prop
  | .value, c => isWhitespace c = false
  | .firstElem, c => isWhitespace c = false ∧ c ≠ Ch.rbracket
  | .firstKey, c => c = Ch.quote
  | .key, c => c = Ch.quote
  | _, _ => False

/-- Wherever the machine comes to the beginning of a value or a key, a complete token
    stands there. -/
def Tidy (m : Mode) (K : List Ctx) (p : Str) : Prop :=
  ∀ u c v m' K', p = u ++ c :: v → behind m K u = .go m' K' → Starts m' c → Token (c :: v)

/-- The same, after a step. -/
def TidyNext : Next → Str → Prop
  | .go m K, p => Tidy m K p
  | .stop _, _ => True

/-- The first byte begins a token if it begins anything, and the text behind it is tidy in
    the mode it leads to. -/
theorem tidy_cons (m : Mode) (K : List Ctx) (c : UInt8) (p : Str) :
    Tidy m K (c :: p) ↔ (Starts m c → Token (c :: p)) ∧ TidyNext (step m K c) p := by
  constructor
  · -- The place in front of the first byte, and all places behind it.
    intro h
    refine ⟨h [] c p m K rfl rfl, ?_⟩
    cases hstep : step m K c with
    | stop s => trivial
    | go m' K' =>
        intro u d v m'' K'' hp hu
        refine h (c :: u) d v m'' K'' (congrArg (c :: ·) hp) ?_
        rw [behind, hstep]
        exact hu
  · rintro ⟨hstart, hnext⟩ u d v m' K' hp hu
    -- The place asked for is the first byte, or lies in the rest.
    cases u with
    | nil =>
        cases hp
        cases hu
        exact hstart
    | cons e u =>
        cases hp
        rw [behind] at hu
        cases hstep : step m K c with
        | stop s =>
            rw [hstep] at hu
            cases hu
        | go m1 K1 =>
            rw [hstep] at hu hnext
            exact hnext u d v m' K' rfl hu

/-- Reading goes on from one place as it does from another. -/
structure Alike (x : Next) (p : Str) (y : Next) (q : Str) : Prop where
  feed : proceed x p = proceed y q
  tidy : TidyNext x p ↔ TidyNext y q

theorem Alike.refl (x : Next) (p : Str) : Alike x p x p := ⟨rfl, Iff.rfl⟩

theorem Alike.symm {x y : Next} {p q : Str} (h : Alike x p y q) : Alike y q x p :=
  ⟨h.feed.symm, h.tidy.symm⟩

theorem Alike.trans {x y z : Next} {p q r : Str} (h : Alike x p y q) (h' : Alike y q z r) :
    Alike x p z r := ⟨h.feed.trans h'.feed, h.tidy.trans h'.tidy⟩

/-- One byte that begins nothing, or a complete token. -/
theorem alike_step (m : Mode) (K : List Ctx) (c : UInt8) (p : Str)
    (h : Starts m c → Token (c :: p)) : Alike (.go m K) (c :: p) (step m K c) p :=
  ⟨feed_cons m K c p, (tidy_cons m K c p).trans (and_iff_right h)⟩

/-- The same with the step worked out. -/
theorem alike_to (m : Mode) (K : List Ctx) (c : UInt8) (p : Str) (x : Next)
    (h : Starts m c → Token (c :: p)) (hx : step m K c = x) : Alike (.go m K) (c :: p) x p := by
  rw [← hx]
  exact alike_step m K c p h

/-- Two modes that make the same of a byte. -/
theorem alike_modes (m m' : Mode) (K : List Ctx) (c : UInt8) (p : Str)
    (hstep : step m K c = step m' K c) (hstart : Starts m c ↔ Starts m' c) :
    Alike (.go m K) (c :: p) (.go m' K) (c :: p) := by
  refine ⟨?_, ?_⟩
  · rw [proceed_go, proceed_go, feed_cons, feed_cons, hstep]
  · refine (tidy_cons m K c p).trans (Iff.trans ?_ (tidy_cons m' K c p).symm)
    -- Both go on in the same way, and ask for a token at the same bytes.
    rw [hstep, hstart]

/-- Space goes by, in a mode that stays as it is and lets nothing begin. -/
theorem alike_space (m : Mode) (K : List Ctx)
    (hm : ∀ c, isWhitespace c = true → step m K c = .go m K ∧ ¬ Starts m c) (p : Str) :
    Alike (.go m K) p (.go m K) (behindSpace p) := by
  induction p with
  | nil => exact Alike.refl _ _
  | cons c p ih =>
      by_cases hc : isWhitespace c = true
      · rw [behindSpace_space c p hc]
        exact (alike_to m K c p _ (fun h => absurd h (hm c hc).2) (hm c hc).1).trans ih
      · -- The space is over.
        rw [behindSpace_other c p (Bool.eq_false_iff.mpr hc)]
        exact Alike.refl _ _

theorem value_space (K : List Ctx) (p : Str) :
    Alike (.go .value K) p (.go .value K) (behindSpace p) := by
  refine alike_space .value K (fun c hc => ⟨by simp only [step, hc, if_true], fun h => ?_⟩) p
  exact Bool.false_ne_true (h.symm.trans hc)

theorem firstElem_space (K : List Ctx) (p : Str) :
    Alike (.go .firstElem K) p (.go .firstElem K) (behindSpace p) := by
  refine alike_space .firstElem K (fun c hc => ⟨by simp only [step, hc, if_true], fun h => ?_⟩) p
  exact Bool.false_ne_true (h.1.symm.trans hc)

/-- Space in front of the first key. -/
theorem firstKey_space (K : List Ctx) (p : Str) :
    Alike (.go .firstKey K) p (.go .firstKey K) (behindSpace p) := by
  refine alike_space .firstKey K (fun c hc => ⟨by simp only [step, hc, if_true], ?_⟩) p
  rintro rfl
  exact absurd hc (by decide)

/-- Space in front of a key. -/
theorem key_space (K : List Ctx) (p : Str) :
    Alike (.go .key K) p (.go .key K) (behindSpace p) := by
  refine alike_space .key K (fun c hc => ⟨by simp only [step, hc, if_true], ?_⟩) p
  rintro rfl
  exact absurd hc (by decide)

theorem colon_space (K : List Ctx) (p : Str) :
    Alike (.go .colon K) p (.go .colon K) (behindSpace p) :=
  alike_space .colon K (fun c hc => ⟨by simp only [step, hc, if_true], id⟩) p

theorem after_space (x : Ctx) (K : List Ctx) (p : Str) :
    Alike (.go .after (x :: K)) p (.go .after (x :: K)) (behindSpace p) :=
  alike_space .after (x :: K) (fun c hc => ⟨by simp only [step, settle, hc, if_true], id⟩) p

/-- Behind a value. -/
theorem ended_space (heap : Bool) (K : List Ctx) (p : Str) :
    Alike (ended heap K) p (ended heap K) (behindSpace p) := by
  unfold ended
  rcases note heap K with _ | _ | ⟨x, K⟩
  · exact ⟨rfl, Iff.rfl⟩
  · exact ⟨rfl, Iff.rfl⟩
  · exact after_space x K p

/-- A byte behind a value is settled there. -/
theorem finish_ended (K : List Ctx) (c : UInt8) (p : Str) :
    Alike (finish K c) p (ended false K) (c :: p) := by
  unfold finish ended
  rcases note false K with _ | _ | ⟨x, K⟩
  · exact ⟨rfl, Iff.rfl⟩
  · exact ⟨rfl, Iff.rfl⟩
  · exact (alike_to .after (x :: K) c p _ False.elim rfl).symm

/-! ## Tokens -/

/-- A string, from behind its opening quote. -/
theorem alike_string (isKey : Bool) (K : List Ctx) (s p q : Str) (h : Chars s p q) : ∀ r,
    Alike (.go (.string isKey r) K) p (if isKey then .go .colon (setKey (r ++ s) K)
      else ended (decide (15 < (r ++ s).length)) K) q := by
  -- A byte that is neither a quote nor a backslash is kept.
  have hstep : ∀ (c : UInt8) (p r : Str), c ≠ Ch.quote → c ≠ Ch.backslash →
      Alike (.go (.string isKey r) K) (c :: p) (.go (.string isKey (r ++ [c])) K) p := by
    intro c p r hq hb
    exact alike_to _ _ _ _ _ False.elim (by simp only [step, if_neg hq, if_neg hb])
  -- A backslash is kept with the byte behind it.
  have hescape : ∀ (e : UInt8) (p r : Str),
      Alike (.go (.string isKey r) K) (Ch.backslash :: e :: p)
        (.go (.string isKey (r ++ [Ch.backslash, e])) K) p :=
    fun e p r => (alike_to (.string isKey r) K Ch.backslash (e :: p) (.go (.escape isKey r) K)
      False.elim rfl).trans (alike_to (.escape isKey r) K e p _ False.elim rfl)
  induction h with
  | close q =>
      intro r
      rw [List.append_nil]
      exact alike_to (.string isKey r) K Ch.quote q _ False.elim rfl
  | plain c s p q _ hq hb _ ih =>
      intro r
      rw [show r ++ c :: s = r ++ [c] ++ s by simp only [List.append_assoc, List.singleton_append]]
      exact (hstep c p r hq hb).trans (ih _)
  | escape e s p q _ _ ih =>
      intro r
      rw [show r ++ Ch.backslash :: e :: s = r ++ [Ch.backslash, e] ++ s by
        simp only [List.append_assoc, List.cons_append, List.nil_append]]
      exact (hescape e p r).trans (ih _)
  | unicode a b c d s p q ha hb hc hd _ ih =>
      intro r
      rw [show r ++ Ch.backslash :: lowerU :: a :: b :: c :: d :: s
          = r ++ [Ch.backslash, lowerU] ++ [a] ++ [b] ++ [c] ++ [d] ++ s by
        simp only [List.append_assoc, List.cons_append, List.nil_append]]
      -- The machine does not know of hexadecimal digits. To it they are plain bytes.
      refine (hescape lowerU _ r).trans ?_
      refine (hstep a _ _ (hex_facts a ha).1 (hex_facts a ha).2).trans ?_
      refine (hstep b _ _ (hex_facts b hb).1 (hex_facts b hb).2).trans ?_
      refine (hstep c _ _ (hex_facts c hc).1 (hex_facts c hc).2).trans ?_
      exact (hstep d _ _ (hex_facts d hd).1 (hex_facts d hd).2).trans (ih _)

/-- What is passed over for a literal behind its first byte. -/
theorem alike_skip (k : Nat) (K : List Ctx) (w q : Str) (hw : w.length = k + 1) :
    Alike (.go (.skip k) K) (w ++ q) (.go .after K) q := by
  induction k generalizing w with
  | zero =>
      -- The last byte of the literal.
      rcases List.length_eq_one_iff.mp hw with ⟨c, rfl⟩
      exact alike_to (.skip 0) K c q _ False.elim rfl
  | succ k ih =>
      cases w with
      | nil => cases hw
      | cons c w =>
          exact (alike_to (.skip (k + 1)) K c (w ++ q) _ False.elim rfl).trans
            (ih w (Nat.succ.inj hw))

/-- A literal that is spelled in full. -/
theorem alike_literal (K : List Ctx) (c : UInt8) (k : Nat) (w q : Str)
    (htoken : Token (c :: w ++ q)) (hw : w.length = k + 1)
    (hc : step .value K c = placed (.skip k) (note false K)) :
    Alike (.go .value K) (c :: w ++ q) (ended false K) q := by
  refine (alike_to .value K c (w ++ q) _ (fun _ => htoken) hc).trans ?_
  unfold ended
  rcases note false K with _ | _ | ⟨x, K⟩
  · exact ⟨rfl, Iff.rfl⟩
  · exact ⟨rfl, Iff.rfl⟩
  · exact alike_skip k (x :: K) w q hw

theorem alike_null (K : List Ctx) (q : Str) :
    Alike (.go .value K) (text "null" ++ q) (ended false K) q :=
  alike_literal K Ch.lowerN 2 (text "ull") q (Token.null q) rfl rfl

theorem alike_true (K : List Ctx) (q : Str) :
    Alike (.go .value K) (text "true" ++ q) (ended false K) q :=
  alike_literal K Ch.lowerT 2 (text "rue") q (Token.true q) rfl rfl

theorem alike_false (K : List Ctx) (q : Str) :
    Alike (.go .value K) (text "false" ++ q) (ended false K) q :=
  alike_literal K Ch.lowerF 3 (text "alse") q (Token.false q) rfl rfl

theorem alike_quote (K : List Ctx) (s p q : Str) (h : Chars s p q) :
    Alike (.go .value K) (Ch.quote :: p) (ended (decide (15 < s.length)) K) q :=
  (alike_to .value K Ch.quote p (.go (.string false []) K) (fun _ => Token.string s p q h)
    rfl).trans (alike_string false K s p q h [])

/-! ## Numbers -/

/-- Digits, in a mode that stays as it is over them. -/
theorem alike_digits (m : Nat → Mode) (K : List Ctx)
    (hm : ∀ acc c, IsDigit c → step (m acc) K c = .go (m (acc * 10 + (c.toNat - 48))) K ∧
      ¬ Starts (m acc) c) (acc n : Nat) (p q : Str) (h : Digits acc p n q) :
    Alike (.go (m acc) K) p (.go (m n) K) q := by
  induction h with
  | stop n q _ => exact Alike.refl _ _
  | more acc n c p q hc _ ih =>
      exact (alike_to (m acc) K c p _ (fun h => absurd h (hm acc c hc).2) (hm acc c hc).1).trans ih

theorem digits_alike (K : List Ctx) (acc n : Nat) (p q : Str) (h : Digits acc p n q) :
    Alike (.go .digits K) p (.go .digits K) q :=
  alike_digits (fun _ => .digits) K
    (fun _ c hc => ⟨by simp only [step, if_pos (show isdigit c = true from hc)], id⟩) acc n p q h

theorem frac_alike (K : List Ctx) (acc n : Nat) (p q : Str) (h : Digits acc p n q) :
    Alike (.go .frac K) p (.go .frac K) q :=
  alike_digits (fun _ => .frac) K
    (fun _ c hc => ⟨by simp only [step, if_pos (show isdigit c = true from hc)], id⟩) acc n p q h

theorem expDigits_alike (K : List Ctx) (acc n : Nat) (p q : Str) (h : Digits acc p n q) :
    Alike (.go (.expDigits (Int32.ofNat acc)) K) p (.go (.expDigits (Int32.ofNat n)) K) q :=
  alike_digits (fun n => .expDigits (Int32.ofNat n)) K (fun acc c hc => ⟨by
    simp only [step, if_pos (show isdigit c = true from hc), digit_step], id⟩) acc n p q h

/-- Behind the digits: `E` is what both modes make of the byte behind the space. -/
theorem alike_closing (m mEnd : Mode) (K : List Ctx) (E : UInt8 → Next)
    (hm : ∀ c, isdigit c = false → step m K c = if isWhitespace c then .go mEnd K else E c)
    (hEnd : ∀ c, step mEnd K c = if isWhitespace c then .go mEnd K else E c)
    (hstart : ∀ c, ¬ Starts m c) (hstartEnd : ∀ c, ¬ Starts mEnd c) (q : Str)
    (hq : ¬ At IsDigit q) (c : UInt8) (s : Str) (hs : behindSpace q = c :: s) :
    Alike (.go m K) q (E c) s := by
  have hc := behindSpace_head q c s hs
  cases q with
  | nil => cases hs
  | cons d q =>
      have hd : isdigit d = false := Bool.eq_false_iff.mpr hq
      by_cases hw : isWhitespace d = true
      · -- There is space behind the digits, and `E` is met from within it.
        rw [behindSpace_space d q hw] at hs
        refine (alike_to m K d q (.go mEnd K) (fun h => absurd h (hstart d)) ?_).trans ?_
        · rw [hm d hd, if_pos hw]
        · refine (alike_space mEnd K
            (fun e he => ⟨by rw [hEnd, if_pos he], hstartEnd e⟩) q).trans ?_
          rw [hs]
          exact alike_to mEnd K c s _ (fun h => absurd h (hstartEnd c)) (by rw [hEnd, hc]; rfl)
      · -- There is none.
        rw [behindSpace_other d q (Bool.eq_false_iff.mpr hw)] at hs
        cases hs
        exact alike_to m K c s _ (fun h => absurd h (hstart c)) (by rw [hm c hd, hc]; rfl)

theorem digits_not (acc n : Nat) (p q : Str) (h : Digits acc p n q) : ¬ At IsDigit q := by
  induction h with
  | stop n q hq => exact hq
  | more acc n c p q _ _ ih => exact ih

/-- An integer, from behind its first digit, to the byte behind the space. -/
theorem integer_closing (K : List Ctx) (acc n : Nat) (p q : Str) (h : Digits acc p n q) (c : UInt8)
    (s : Str) (hs : behindSpace q = c :: s) : Alike (.go .digits K) p (endInteger K c) s :=
  (digits_alike K acc n p q h).trans (alike_closing .digits .digitsEnd K (endInteger K)
    (fun c hc => by simp only [step, hc, Bool.false_eq_true, if_false]) (fun c => rfl)
    (fun _ => id) (fun _ => id) q (digits_not acc n p q h) c s hs)

/-- A fraction, from behind its first digit. -/
theorem fraction_closing (K : List Ctx) (acc n : Nat) (p q : Str) (h : Digits acc p n q) (c : UInt8)
    (s : Str) (hs : behindSpace q = c :: s) : Alike (.go .frac K) p (endFraction K c) s :=
  (frac_alike K acc n p q h).trans (alike_closing .frac .fracEnd K (endFraction K)
    (fun c hc => by simp only [step, hc, Bool.false_eq_true, if_false]) (fun c => rfl)
    (fun _ => id) (fun _ => id) q (digits_not acc n p q h) c s hs)

/-- An exponent, from behind its first digit. -/
theorem exponent_closing (K : List Ctx) (acc n : Nat) (p q : Str) (h : Digits acc p n q) (c : UInt8)
    (s : Str) (hs : behindSpace q = c :: s) :
    Alike (.go (.expDigits (Int32.ofNat acc)) K) p (endExponent K (Int32.ofNat n) c) s :=
  (expDigits_alike K acc n p q h).trans (alike_closing (.expDigits (Int32.ofNat n))
    (.expEnd (Int32.ofNat n)) K (endExponent K (Int32.ofNat n))
    (fun c hc => by simp only [step, hc, Bool.false_eq_true, if_false]) (fun c => rfl)
    (fun _ => id) (fun _ => id) q (digits_not acc n p q h) c s hs)

/-- The letter, the sign and the first digit of an exponent. -/
theorem exp_digits (K : List Ctx) (k : Nat) (q r : Str) (h : Exp k q r) :
    ∃ acc p, Digits acc p k r ∧ Alike (.go .frac K) q (.go (.expDigits (Int32.ofNat acc)) K) p := by
  have hletter : ∀ (e : UInt8) (p : Str), IsExp e →
      Alike (.go .frac K) (e :: p) (.go .expStart K) p := by
    rintro e p (rfl | rfl) <;> exact alike_to _ _ _ _ _ False.elim rfl
  -- The first digit is added to zero by the machine.
  have hfirst : ∀ c, IsDigit c →
      (0 : Int32) * 10 + digitVal c = Int32.ofNat (c.toNat - 48) := by
    intro c _
    have hval := digit_step 0 c
    rwa [Nat.zero_mul, Nat.zero_add] at hval
  cases h with
  | bare e c p _ he hc hp =>
      refine ⟨_, p, hp, (hletter e _ he).trans (alike_to .expStart K c p _ False.elim ?_)⟩
      have hw := not_isWhitespace_of_isdigit c hc
      -- A digit is no sign, so it is the first one of the exponent.
      have hsign : ¬ (c = Ch.plus ∨ c = Ch.minus) := by
        rintro (rfl | rfl) <;> exact absurd hc (by unfold IsDigit; decide)
      rw [← hfirst c hc]
      simp only [step, hw, Bool.false_eq_true, if_false, if_neg hsign,
        if_pos (show isdigit c = true from hc)]
  | signed e s c p _ he hs hc hp =>
      refine ⟨_, p, hp, (hletter e _ he).trans
        ((alike_to .expStart K s (c :: p) (.go .expSign K) False.elim ?_).trans
          (alike_to .expSign K c p _ False.elim ?_))⟩
      · rcases hs with rfl | rfl <;> rfl
      · have hw := not_isWhitespace_of_isdigit c hc
        rw [← hfirst c hc]
        simp only [step, hw, Bool.false_eq_true, if_false, if_pos (show isdigit c = true from hc)]

/-- The dot and the first digit of a fraction. -/
theorem frac_digits (K : List Ctx) (q r : Str) (h : Frac q r) :
    ∃ acc n p, Digits acc p n r ∧ Alike (.go .digits K) q (.go .frac K) p := by
  cases h with
  | mk n c p _ hc hp =>
      refine ⟨_, n, p, hp,
        (alike_to .digits K Ch.dot (c :: p) (.go .fracStart K) False.elim rfl).trans
          (alike_to .fracStart K c p _ False.elim ?_)⟩
      have hw := not_isWhitespace_of_isdigit c hc
      simp only [step, hw, Bool.false_eq_true, if_false, if_pos (show isdigit c = true from hc)]

/-- A number with a fraction and an exponent, from behind its first digit, to the byte
    behind the space. -/
theorem full_closing (K : List Ctx) (n k acc : Nat) (p q r t : Str) (hint : Digits acc p n q)
    (hfrac : Frac q r) (hexp : Exp k r t) (c : UInt8) (s : Str) (hs : behindSpace t = c :: s) :
    Alike (.go .digits K) p (endExponent K (Int32.ofNat k) c) s := by
  rcases frac_digits K q r hfrac with ⟨acc', n', p', hfrac', hfirst⟩
  rcases exp_digits K k r t hexp with ⟨acc'', p'', hexp', hletter⟩
  exact (digits_alike K acc n p q hint).trans (hfirst.trans
    ((frac_alike K acc' n' p' r hfrac').trans
      (hletter.trans (exponent_closing K acc'' k p'' t hexp' c s hs))))

/-- A number that the parser reads up to its end, from behind its first digit. -/
theorem alike_plain (K : List Ctx) (p q : Str) (h : Plain p q) (c : UInt8) (s : Str)
    (hs : behindSpace q = c :: s) (hz : c ≠ Ch.nul) :
    ∃ d p', p = d :: p' ∧ IsDigit d ∧ Alike (.go .digits K) p' (ended false K) q := by
  -- Behind the number the machine looks at `c`, and so does it behind any value.
  have hfinish : Alike (finish K c) s (ended false K) q := by
    refine (finish_ended K c s).trans ?_
    rw [← hs]
    exact (ended_space false K q).symm
  cases h with
  | integer n _ _ hint hdot _ =>
      rcases intPart_digits n p q hint with ⟨d, p', rfl, hd, hp⟩
      refine ⟨d, p', rfl, hd, (integer_closing K _ n p' q hp c s hs).trans ?_⟩
      -- A dot would have begun a fraction.
      rw [hs] at hdot
      have hcdot : c ≠ Ch.dot := hdot
      simp only [endInteger, if_neg hz, if_neg hcdot]
      exact hfinish
  | decimal n _ q0 _ hint hfrac hexp =>
      rcases intPart_digits n p q0 hint with ⟨d, p', rfl, hd, hp⟩
      rcases frac_digits K q0 q hfrac with ⟨acc, n', p'', hfrac', hfirst⟩
      refine ⟨d, p', rfl, hd, (digits_alike K _ n p' q0 hp).trans (hfirst.trans
        ((fraction_closing K acc n' p'' q hfrac' c s hs).trans ?_))⟩
      -- And the letter an exponent.
      rw [hs] at hexp
      have hcexp : ¬ (c = Ch.lowerE ∨ c = Ch.upperE) := hexp
      simp only [endFraction, if_neg hz, if_neg hcexp]
      exact hfinish
  | full n k _ q0 q1 _ hint hfrac hexp hrange =>
      rcases intPart_digits n p q0 hint with ⟨d, p', rfl, hd, hp⟩
      refine ⟨d, p', rfl, hd, (full_closing K n k _ p' q0 q1 q hp hfrac hexp c s hs).trans ?_⟩
      -- The exponent is looked up, and found.
      simp only [endExponent, if_neg hz, if_pos hrange]
      exact hfinish

/-- A digit is none of the bytes that begin other values. -/
theorem digit_ne (d c : UInt8) (hd : IsDigit d) (hc : isdigit c = false) : d ≠ c := by
  rintro rfl
  exact Bool.false_ne_true (hc.symm.trans hd)

/-- A digit begins a number. -/
theorem step_digit (K : List Ctx) (d : UInt8) (hd : IsDigit d) :
    step .value K d = .go .digits K := by
  have hne : ∀ c, isdigit c = false → d ≠ c := fun c => digit_ne d c hd
  have hliteral : ¬ (d = Ch.lowerN ∨ d = Ch.lowerT) := by
    rintro (h | h)
    · exact hne Ch.lowerN rfl h
    · exact hne Ch.lowerT rfl h
  simp only [step, startValue, not_isWhitespace_of_isdigit d hd, Bool.false_eq_true, if_false,
    if_neg (hne Ch.lbrace rfl), if_neg (hne Ch.lbracket rfl), if_neg (hne Ch.quote rfl),
    if_neg hliteral, if_neg (hne Ch.lowerF rfl), if_neg (hne Ch.minus rfl),
    if_pos (show isdigit d = true from hd)]

theorem step_minus (K : List Ctx) (d : UInt8) (hd : IsDigit d) :
    step .minus K d = .go .digits K := by
  simp only [step, if_pos (show isdigit d = true from hd)]

/-- A number without a sign. -/
theorem alike_positive (K : List Ctx) (p q : Str) (h : Plain p q) (c : UInt8) (s : Str)
    (hs : behindSpace q = c :: s) (hz : c ≠ Ch.nul) :
    Alike (.go .value K) p (ended false K) q := by
  rcases alike_plain K p q h c s hs hz with ⟨d, p', rfl, hd, hrest⟩
  exact (alike_to .value K d p' _ (fun _ => Token.positive _ q h) (step_digit K d hd)).trans hrest

/-- A number with a sign. -/
theorem alike_negative (K : List Ctx) (p q : Str) (h : Plain p q) (c : UInt8) (s : Str)
    (hs : behindSpace q = c :: s) (hz : c ≠ Ch.nul) :
    Alike (.go .value K) (Ch.minus :: p) (ended false K) q := by
  rcases alike_plain K p q h c s hs hz with ⟨d, p', rfl, hd, hrest⟩
  have hsign : Alike (.go .value K) (Ch.minus :: d :: p') (.go .minus K) (d :: p') :=
    alike_to .value K Ch.minus _ _ (fun _ => Token.negative _ q h) rfl
  exact hsign.trans ((alike_to .minus K d p' _ False.elim (step_minus K d hd)).trans hrest)

/-! ## Brackets -/

theorem alike_array (K : List Ctx) (p : Str) :
    Alike (.go .value K) (Ch.lbracket :: p) (.go .firstElem (.arr :: K)) (behindSpace p) :=
  (alike_to .value K Ch.lbracket p _ (fun _ => Token.array p) rfl).trans (firstElem_space _ p)

theorem alike_object (K : List Ctx) (p : Str) :
    Alike (.go .value K) (Ch.lbrace :: p) (.go .firstKey (.obj [] [] :: K)) (behindSpace p) :=
  (alike_to .value K Ch.lbrace p _ (fun _ => Token.object p) rfl).trans (firstKey_space _ p)

/-- The first element begins like any other. -/
theorem firstElem_value (K : List Ctx) (c : UInt8) (p : Str) (hw : isWhitespace c = false)
    (hc : c ≠ Ch.rbracket) : Alike (.go .firstElem K) (c :: p) (.go .value K) (c :: p) := by
  refine alike_modes .firstElem .value K c p ?_ (and_iff_left hc)
  simp only [step, hw, Bool.false_eq_true, if_false, if_neg hc]

/-- So does the first key. -/
theorem firstKey_key (K : List Ctx) (c : UInt8) (p : Str) (hw : isWhitespace c = false)
    (hc : c ≠ Ch.rbrace) : Alike (.go .firstKey K) (c :: p) (.go .key K) (c :: p) := by
  refine alike_modes .firstKey .key K c p ?_ Iff.rfl
  simp only [step, hw, Bool.false_eq_true, if_false, if_neg hc]

/-- An array without elements. -/
theorem alike_emptyArray (K : List Ctx) (p q : Str) (h : behindSpace p = Ch.rbracket :: q) :
    Alike (.go .value K) (Ch.lbracket :: p) (ended false K) q := by
  have hopen := alike_array K p
  rw [h] at hopen
  exact hopen.trans
    (alike_to .firstElem (.arr :: K) Ch.rbracket q _ (fun hs => absurd rfl hs.2) rfl)

/-- An object without members. -/
theorem alike_emptyObject (K : List Ctx) (p q : Str) (h : behindSpace p = Ch.rbrace :: q) :
    Alike (.go .value K) (Ch.lbrace :: p) (ended false K) q := by
  have hopen := alike_object K p
  rw [h] at hopen
  exact hopen.trans
    (alike_to .firstKey (.obj [] [] :: K) Ch.rbrace q _ (fun hs => (by cases hs)) rfl)

/-- A key and its colon. -/
theorem alike_key (K : List Ctx) (k p q r : Str) (h : Chars k p q)
    (hr : behindSpace q = Ch.colon :: r) :
    Alike (.go .key K) (Ch.quote :: p) (.go .value (setKey k K)) (behindSpace r) := by
  -- The key is stored in the bracket that is open, and its colon is next.
  have hcolon := colon_space (setKey k K) q
  rw [hr] at hcolon
  have hquote : Alike (.go .key K) (Ch.quote :: p) (.go (.string true []) K) p :=
    alike_to .key K Ch.quote p _ (fun _ => Token.string k p q h) rfl
  exact hquote.trans ((alike_string true K k p q h []).trans (hcolon.trans
    ((alike_to .colon _ Ch.colon r (.go .value _) False.elim rfl).trans (value_space _ r))))

/-- The bracket behind the last element. -/
theorem alike_close (x : Ctx) (K : List Ctx) (q r : Str) (h : behindSpace q = x.close :: r) :
    Alike (.go .after (x :: K)) q (ended true K) r := by
  have hspace := after_space x K q
  rw [h] at hspace
  refine hspace.trans (alike_to .after (x :: K) _ r _ False.elim ?_)
  cases x <;> rfl

/-- The comma behind another one. -/
theorem alike_comma (x : Ctx) (K : List Ctx) (q r : Str) (h : behindSpace q = Ch.comma :: r) :
    Alike (.go .after (x :: K)) q (.go x.next (x :: K)) (behindSpace r) := by
  have hspace := after_space x K q
  rw [h] at hspace
  -- Behind it a key is due in an object, and a value in an array.
  cases x with
  | obj names key =>
      exact hspace.trans ((alike_to .after _ _ r _ False.elim rfl).trans (key_space _ r))
  | arr => exact hspace.trans ((alike_to .after _ _ r _ False.elim rfl).trans (value_space _ r))

end Scan

end Vsjson
