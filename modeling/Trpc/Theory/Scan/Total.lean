import Trpc.Theory.Scan.Refines

/-!
# The Parser Ends

The recursion bound of the model is never used up, so `parse` always has one
of the outcomes the C++ code has. The measure is the number of bytes behind
the cursor: no function moves the cursor back, and a call nested inside
another starts at least one byte further on, at most three recursive calls
later.

With the bound out of the way the refinement determines every outcome:
`parse_spec` lists them, one for each verdict of the machine.

## Main definitions

* `Within`: An outcome that leaves the cursor in range and is not the bound's.

## Theorems

* `parseImpl_within`: A large enough bound is never used up.
* `parse_spec`: The outcome of `parse`, read off the machine.
* `parse_eq_overrun_iff`: The parser overruns exactly when the machine runs
  out of bytes.
-/

namespace Vsjson

namespace Scan

open parser

variable {α β D : Type}

/-- The recursion bound was not used up, and at most `N` bytes are left. -/
def Within (N : Nat) (r : Res (α × Str)) : Prop :=
  match r with
  | .ok (_, q) => q.length ≤ N
  | .throw _ => True
  | .fault f => f ≠ .fuel

/-- More bytes behind the cursor than there are do not matter. -/
theorem within_mono (N M : Nat) (r : Res (α × Str)) (h : Within N r) (hNM : N ≤ M) :
    Within M r := by
  cases r with
  | ok x => exact le_trans h hNM
  | throw e => trivial
  | fault x => exact h

/-- What goes on from where a function has left the cursor leaves it in range too. A throw
    or a fault of the function is one of the whole. -/
theorem within_bind (N M : Nat) (r : Res (α × Str)) (f : α × Str → Res (β × Str))
    (h : Within N r) (hf : ∀ a q, q.length ≤ N → Within M (f (a, q))) : Within M (r.bind f) := by
  cases r with
  | ok x => exact hf x.1 x.2 h
  | throw e => trivial
  | fault x => exact h

/-- Passing over blanks only moves the cursor on, and there is a byte where it stops. -/
theorem within_skip (M : Nat) (f : Str → Res (β × Str)) (p : Str)
    (hf : ∀ c q, (c :: q).length ≤ p.length → Within M (f (c :: q))) :
    Within M ((skipWhitespace p).bind f) := by
  induction p with
  | nil => exact fun h => absurd h (by decide)
  | cons c p ih =>
      simp only [skipWhitespace]
      by_cases hc : isWhitespace c = true
      · rw [if_pos hc]
        exact ih (fun d q hq => hf d q (by simp only [List.length_cons] at hq ⊢; omega))
      · rw [if_neg hc]
        exact hf c p (le_refl _)

/-- A string is left behind its closing quote, which is in the text. -/
theorem within_scanString (p : Str) : Within p.length (scanString p) := by
  fun_induction scanString p with
  | case1 => exact fun h => absurd h (by decide)
  | case2 p =>
      simp only [Within, List.length_cons]
      omega
  | case3 => exact fun h => absurd h (by decide)
  | case4 _ e p ih =>
      refine within_bind _ _ _ _ ih (fun s q hq => ?_)
      simp only [Within, List.length_cons]
      omega
  | case5 c p _ _ ih =>
      refine within_bind _ _ _ _ ih (fun s q hq => ?_)
      simp only [Within, List.length_cons]
      omega

/-- Digits are passed one by one, and the byte that is none is not. -/
theorem within_scanDigits (p : Str) : ∀ i, Within p.length (scanDigits i p) := by
  induction p with
  | nil => exact fun i h => absurd h (by decide)
  | cons c p ih =>
      intro i
      simp only [scanDigits]
      by_cases hc : isdigit c = true
      · rw [if_pos hc]
        exact within_mono _ _ _ (ih _) (Nat.le_succ _)
      · rw [if_neg hc]
        exact le_refl _

/-- The same for the digits of a fraction, whatever they add up to. -/
theorem within_scanFraction [DecimalImpl D] (p : Str) :
    ∀ d idx : D, Within p.length (scanFraction d idx p) := by
  induction p with
  | nil => exact fun d idx h => absurd h (by decide)
  | cons c p ih =>
      intro d idx
      simp only [scanFraction]
      by_cases hc : isdigit c = true
      · rw [if_pos hc]
        exact within_mono _ _ _ (ih _ _) (Nat.le_succ _)
      · rw [if_neg hc]
        exact le_refl _

/-- The look for the terminator does not move the cursor but over blanks. -/
theorem within_closing (what : String) (a : α) (p : Str) : Within p.length (closing what a p) := by
  refine within_skip _ _ p (fun c q hq => ?_)
  simp only [deref_cons, Res.ok_bind]
  by_cases hc : c = Ch.nul
  · rw [if_pos hc]
    trivial
  · rw [if_neg hc]
    exact hq

/-- An integer, with the blanks in front of it and behind it. -/
theorem within_parseInteger (p : Str) : Within p.length (parseInteger p) := by
  rw [parseInteger_eq]
  refine within_skip _ _ p (fun c q hq => ?_)
  refine within_bind _ _ _ _ (within_scanDigits (c :: q) 0) (fun i r hr => ?_)
  exact within_mono _ _ _ (within_closing _ i r) (le_trans hr hq)

/-- A fraction begins behind its dot, so the dot is gone already. -/
theorem within_parseDeciaml [DecimalImpl D] (c : UInt8) (q : Str) :
    Within q.length (parseDeciaml (D := D) (c :: q)) := by
  rw [parseDeciaml_eq, List.drop_one, List.tail_cons]
  refine within_skip _ _ q (fun d r hr => ?_)
  refine within_bind _ _ _ _ (within_scanFraction (d :: r) _ _) (fun a s hs => ?_)
  exact within_mono _ _ _ (within_closing _ a s) (le_trans hs hr)

/-- The power is looked up when the cursor stands still. An exponent that misses the table
    is a fault, but not that of the bound. -/
theorem within_scaling [DecimalImpl D] (neg : Prop) [Decidable neg] (i : Int32) (p : Str) :
    Within p.length (scaling (D := D) neg (i, p)) := by
  refine within_skip _ _ p (fun c q hq => ?_)
  simp only [deref_cons, Res.ok_bind]
  by_cases hc : c = Ch.nul
  · rw [if_pos hc]
    trivial
  · rw [if_neg hc, pows]
    by_cases hi : 0 ≤ i.toInt ∧ i.toInt < exponentLimit
    · rw [if_pos hi]
      exact hq
    · rw [if_neg hi]
      exact fun h => absurd h (by decide)

/-- An exponent begins behind its letter, and perhaps behind a sign. -/
theorem within_parseExponent [DecimalImpl D] (c : UInt8) (q : Str) :
    Within q.length (parseExponent (D := D) (c :: q)) := by
  rw [parseExponent_eq, List.drop_one, List.tail_cons]
  refine within_skip _ _ q (fun d r hr => ?_)
  simp only [deref_cons, Res.ok_bind, List.drop_one, List.tail_cons]
  -- Whether there is a sign or not, nothing is gained on the letter.
  have hsign : (if d = Ch.plus ∨ d = Ch.minus then r else d :: r).length ≤ q.length := by
    split
    · simp only [List.length_cons] at hr
      omega
    · exact hr
  refine within_bind _ _ _ _ (within_parseInteger _) (fun i s hs => ?_)
  exact within_mono _ _ _ (within_scaling _ i s) (le_trans hs hsign)

/-- A number without its sign: digits, a fraction, an exponent, each behind the one before. -/
theorem within_parseUnsigned [DecimalImpl D] (neg : Bool) (p : Str) :
    Within p.length (parseUnsigned (D := D) neg p) := by
  cases p with
  | nil => exact fun h => absurd h (by decide)
  | cons c q =>
      simp only [parseUnsigned, Res.bind_def, deref_cons, Res.ok_bind]
      by_cases hc : isdigit c = true
      -- Without a digit the cursor stays, and the value is null.
      swap
      · rw [if_neg hc]
        exact le_refl _
      rw [if_pos hc]
      refine within_bind _ _ _ _ (within_parseInteger (c :: q)) (fun i r hr => ?_)
      cases r with
      | nil => exact fun h => absurd h (by decide)
      | cons d r =>
          simp only [deref_cons, Res.ok_bind]
          split
          · -- No dot: the number ends here, and so do the digits.
            exact hr
          refine within_bind _ _ _ _ (within_parseDeciaml d r) (fun a s hs => ?_)
          simp only [List.length_cons] at hr ⊢
          cases s with
          | nil => exact fun h => absurd h (by decide)
          | cons e s =>
              simp only [deref_cons, Res.ok_bind]
              split
              · -- No letter: the number ends behind its fraction.
                exact le_trans hs (by omega)
              refine within_bind _ _ _ _ (within_parseExponent e s) (fun x t ht => ?_)
              simp only [List.length_cons] at hs
              simp only [Within, Res.pure_def]
              omega

/-- A number with its sign. -/
theorem within_parseNumberImpl [DecimalImpl D] (c : UInt8) (q : Str) :
    Within (c :: q).length (parseNumberImpl (D := D) (c :: q)) := by
  simp only [parseNumberImpl, Res.bind_def, deref_cons, Res.ok_bind, List.drop_one, List.tail_cons]
  split
  · exact within_mono _ _ _ (within_parseUnsigned true q) (Nat.le_succ _)
  · exact within_parseUnsigned false (c :: q)

section Recursion

variable (D) [DecimalImpl D]

def WithinImpl (n : Nat) : Prop :=
  ∀ p, 3 * p.length + 1 ≤ n → Within p.length (parseImpl (D := D) n p)

def WithinObject (n : Nat) : Prop :=
  ∀ c q, 3 * q.length + 3 ≤ n → Within q.length (parseObject (D := D) n (c :: q))

def WithinMembers (n : Nat) : Prop :=
  ∀ o p, 3 * p.length + 2 ≤ n → Within p.length (parseMembers (D := D) n o p)

def WithinArray (n : Nat) : Prop :=
  ∀ c q, 3 * q.length + 3 ≤ n → Within q.length (parseArray (D := D) n (c :: q))

def WithinElems (n : Nat) : Prop :=
  ∀ a p, 3 * p.length + 2 ≤ n → Within p.length (parseElems (D := D) n a p)

variable {D}

/-- A value takes one level of the bound. An object or an array gives the byte of its
    bracket for two more. -/
theorem withinImpl_succ (n : Nat) (hO : WithinObject D n) (hA : WithinArray D n) :
    WithinImpl D (n + 1) := by
  intro p hn
  simp only [parseImpl, Res.bind_def]
  refine within_skip _ _ p (fun c q hq => ?_)
  simp only [List.length_cons] at hq
  simp only [deref_cons, Res.ok_bind]
  -- A literal is taken by its length, so all of it may be less than that.
  have hdrop : ∀ (j : Json D) k, Within p.length (.ok (j, (c :: q).drop k)) := by
    intro j k
    simp only [Within, List.length_drop, List.length_cons]
    omega
  split
  · exact hdrop .null 0
  split
  · exact within_mono _ _ _ (hO c q (by omega)) (by omega)
  split
  · exact within_mono _ _ _ (hA c q (by omega)) (by omega)
  split
  · -- Only strings and numbers read on, and they know no bound.
    rename_i hquote
    rw [hquote, parseString_quote]
    refine within_bind _ _ _ _ (within_scanString q) (fun s r hr => ?_)
    simp only [Within, Res.pure_def]
    omega
  split
  · exact hdrop .null 4
  split
  · exact hdrop (.boolean true) 4
  split
  · exact hdrop (.boolean false) 5
  split
  · exact within_mono _ _ _ (within_parseNumberImpl c q) (by simpa only [List.length_cons])
  · exact hdrop .null 0

/-- An object is empty, or goes on with its first member. -/
theorem withinObject_succ (n : Nat) (hM : WithinMembers D n) : WithinObject D (n + 1) := by
  intro c q hn
  simp only [parseObject, Res.bind_def, List.drop_one, List.tail_cons]
  refine within_skip _ _ q (fun d r hr => ?_)
  simp only [List.length_cons] at hr
  simp only [deref_cons, Res.ok_bind, List.tail_cons]
  split
  · simp only [Within, Res.pure_def]
    omega
  · exact within_mono _ _ _ (hM [] (d :: r) (by simp only [List.length_cons]; omega))
      (by simpa only [List.length_cons])

/-- An array is empty, or goes on with its first element. -/
theorem withinArray_succ (n : Nat) (hE : WithinElems D n) : WithinArray D (n + 1) := by
  intro c q hn
  simp only [parseArray, Res.bind_def, List.drop_one, List.tail_cons]
  refine within_skip _ _ q (fun d r hr => ?_)
  simp only [List.length_cons] at hr
  simp only [deref_cons, Res.ok_bind, List.tail_cons]
  split
  · simp only [Within, Res.pure_def]
    omega
  · exact within_mono _ _ _ (hE [] (d :: r) (by simp only [List.length_cons]; omega))
      (by simpa only [List.length_cons])

/-- The value of an element may take the bytes behind the cursor, and what follows it is
    behind a comma: one byte less is three levels more. -/
theorem withinElems_succ (n : Nat) (hI : WithinImpl D n) (hE : WithinElems D n) :
    WithinElems D (n + 1) := by
  intro a p hn
  simp only [parseElems, Res.bind_def]
  refine within_skip _ _ p (fun c q hq => ?_)
  -- The value first, one level down at the same byte.
  refine within_bind _ _ _ _ (hI (c :: q) (by omega)) (fun v r hr => ?_)
  refine within_skip _ _ r (fun d s hs => ?_)
  simp only [List.length_cons] at hq hr hs
  simp only [deref_cons, Res.ok_bind, List.drop_one, List.tail_cons]
  split
  · simp only [Within, Res.pure_def]
    omega
  split
  · exact within_mono _ _ _ (hE _ s (by omega)) (by omega)
  · trivial

/-- The same for members. Name, colon and comma are bytes besides, and the assignment takes
    no level: it ends, or frees something twice. -/
theorem withinMembers_succ (n : Nat) (hI : WithinImpl D n) (hM : WithinMembers D n) :
    WithinMembers D (n + 1) := by
  intro o p hn
  simp only [parseMembers, parseString, Res.bind_def]
  refine within_skip _ _ p (fun c q hq => ?_)
  -- The blanks are passed over once by the loop and once by `parseString`.
  rw [Res.bind_assoc]
  refine within_skip _ _ (c :: q) (fun c q hq' => ?_)
  simp only [List.length_cons] at hq hq'
  simp only [deref_cons, Res.ok_bind, List.drop_one, List.tail_cons]
  split
  · trivial
  refine within_bind _ _ _ _ (within_scanString q) (fun key r hr => ?_)
  refine within_skip _ _ r (fun d s hs => ?_)
  simp only [List.length_cons] at hs
  simp only [deref_cons, Res.ok_bind, List.tail_cons]
  split
  · trivial
  refine within_skip _ _ s (fun e t ht => ?_)
  -- At least a quote and a colon have been read by now.
  refine within_bind _ _ _ _ (hI (e :: t) (by omega)) (fun v u hu => ?_)
  -- The fault of the assignment is another one.
  rw [Json.assignMember]
  split
  · exact fun h => absurd h (by decide)
  rw [Res.ok_bind]
  refine within_skip _ _ u (fun d s hs => ?_)
  simp only [List.length_cons] at ht hu hs
  simp only [deref_cons, Res.ok_bind, List.tail_cons]
  split
  · simp only [Within, Res.pure_def]
    omega
  split
  · exact within_mono _ _ _ (hM _ s (by omega)) (by omega)
  · trivial

/-- By induction on the bound, all the functions at once, since each calls others at one
    less. -/
theorem within_all (n : Nat) :
    WithinImpl D n ∧ WithinObject D n ∧ WithinMembers D n ∧ WithinArray D n ∧ WithinElems D n := by
  induction n with
  | zero =>
      -- No text is so short that no level would do.
      exact ⟨fun _ h => by omega, fun _ _ h => by omega, fun _ _ h => by omega,
        fun _ _ h => by omega, fun _ _ h => by omega⟩
  | succ n ih =>
      rcases ih with ⟨hI, hO, hM, hA, hE⟩
      exact ⟨withinImpl_succ n hO hA, withinObject_succ n hM, withinMembers_succ n hI hM,
        withinArray_succ n hE, withinElems_succ n hI hE⟩

theorem parseImpl_within (n : Nat) (p : Str) (h : 3 * p.length + 1 ≤ n) :
    Within p.length (parseImpl (D := D) n p) :=
  (within_all n).1 p h

end Recursion

/-- The machine's verdict on a whole text. -/
def verdict (p : Str) : Option Stop := feed .value [] p

/-- The outcome of `parse`, read off the machine: one case for each verdict. -/
theorem parse_spec [DecimalImpl D] (p : Str) :
    (∃ j : Json D, parse p = .ok j ∧ verdict p = some .done) ∨
    (∃ what, parse (D := D) p = .throw (.json what) ∧ verdict p = some .throw) ∨
    (parse (D := D) p = .fault .powIndex ∧ verdict p = some .powIndex) ∨
    (parse (D := D) p = .fault .doubleFree ∧ verdict p = some .doubleFree) ∨
    (parse (D := D) p = .fault .overrun ∧ verdict p = none) := by
  -- What the parser does is what the machine does, or the bound was too small.
  have hfollows := follows_parseImpl (D := D) (3 * p.length + 3) [] p
  have hwithin := parseImpl_within (D := D) (3 * p.length + 3) p (by omega)
  simp only [parse, verdict, Res.bind_def]
  cases hr : parseImpl (D := D) (3 * p.length + 3) p with
  | ok x =>
      rw [hr] at hfollows
      exact Or.inl ⟨x.1, rfl, hfollows⟩
  | throw e =>
      rw [hr] at hfollows
      rcases hfollows with ⟨hs, what, rfl⟩
      exact Or.inr (Or.inl ⟨what, rfl, hs⟩)
  | fault x =>
      rw [hr] at hfollows hwithin
      cases x with
      | overrun => exact Or.inr (Or.inr (Or.inr (Or.inr ⟨rfl, hfollows⟩)))
      | doubleFree => exact Or.inr (Or.inr (Or.inr (Or.inl ⟨rfl, hfollows⟩)))
      | powIndex => exact Or.inr (Or.inr (Or.inl ⟨rfl, hfollows⟩))
      -- Neither of these is an outcome of the parser: it does not overflow, and the bound
      -- is enough.
      | overflow => exact absurd hfollows id
      | fuel => exact absurd rfl hwithin

theorem parse_eq_overrun_iff [DecimalImpl D] (p : Str) :
    parse (D := D) p = .fault .overrun ↔ verdict p = none := by
  rcases parse_spec (D := D) p with ⟨j, h, hv⟩ | ⟨w, h, hv⟩ | ⟨h, hv⟩ | ⟨h, hv⟩ | ⟨h, hv⟩ <;>
    rw [h, hv] <;> simp only [reduceCtorEq, Res.fault.injEq]

end Scan

end Vsjson
