import Trpc.Theory.Text.Numbers
import Trpc.Theory.Text.Soundness

/-!
# Integers That Fit, and Integers That Do Not

`parseInteger` multiplies and adds in an `int`, for as many digits as there are, and
`parseNumberImpl` puts the sign on afterwards. As long as the digits denote less than
`2^31` no step leaves the range of an `int` and the value is the one that was written.
From there on some step does, and nothing notices: what is left is an `int` all the same,
and the parser goes on with it.

The smallest `int` is on the wrong side of this, since its digits are read before its
sign counts.

## Main definitions

* `intText`, `denoted`: An integer as it is written, and what it denotes.
* `steps`: What the operations on the way give, before they are cut to an `int`.
* `Place`: Where in an array or an object a value stands.
* `ReadRight`: What a reader may expect of an integer.

## Theorems

* `digitSteps_iff`: When the loop stays within the range of an `int`.
* `place_integer`: What the parser makes of an integer, at any place.
* `readRight_iff`: Which integers are read as they should be.
-/

namespace Vsjson

namespace Grammar

open parser

variable {D : Type}

/-- An integer as it is written. -/
def intText (neg : Bool) (N : Numeral) : Str := (if neg then [Ch.minus] else []) ++ N.digits

/-- What it denotes. -/
def denoted (neg : Bool) (N : Numeral) : Int := if neg then -(N.value : Int) else N.value

/-- The range of an `int`. -/
def InInt (x : Int) : Prop := -2147483648 ≤ x ∧ x ≤ 2147483647

/-- The products and the sums of the digit loop, before they are cut to an `int`. -/
def digitSteps (i : Int32) : Str → List Int
  | [] => []
  | c :: p => i.toInt * 10 :: ((i * 10).toInt + (digitVal c).toInt) ::
      digitSteps (i * 10 + digitVal c) p

/-- The same of all operations on an integer, the sign included. -/
def steps (neg : Bool) (N : Numeral) : List Int :=
  digitSteps 0 N.digits ++ if neg then [-(Int32.ofNat N.value).toInt] else []

/-! ## The loop -/

theorem digit_le (c : UInt8) (h : IsDigit c) : c.toNat - 48 ≤ 9 := by
  have hle : (decide (Ch.zero ≤ c) && decide (c ≤ Ch.nine)) = true := h
  rw [Bool.and_eq_true, decide_eq_true_iff, decide_eq_true_iff, UInt8.le_iff_toNat_le,
    UInt8.le_iff_toNat_le] at hle
  have hnine : Ch.nine.toNat = 57 := rfl
  omega

theorem le_value (n : Nat) (ds : Str) : n ≤ value n ds := by
  induction ds generalizing n with
  | nil => exact Nat.le_refl n
  | cons d ds ih =>
      -- Each digit makes it larger.
      have h := ih (n * 10 + (d.toNat - 48))
      simp only [value, List.foldl_cons] at h ⊢
      omega

theorem toInt_ofNat (n : Nat) (h : n ≤ 2147483647) : (Int32.ofNat n).toInt = n :=
  Int32.toInt_ofNat_of_lt (by omega)

/-- The loop stays within an `int` exactly when what it computes does. -/
theorem digitSteps_iff (ds : Str) (hds : ∀ c ∈ ds, IsDigit c) (n : Nat) (hn : n ≤ 2147483647) :
    (∀ x ∈ digitSteps (Int32.ofNat n) ds, InInt x) ↔ value n ds ≤ 2147483647 := by
  induction ds generalizing n with
  | nil =>
      simp only [digitSteps, List.not_mem_nil, false_implies, implies_true, value, List.foldl_nil,
        hn]
  | cons c ds ih =>
      have hc := digit_le c (hds c List.mem_cons_self)
      have hrest := fun m => ih (fun x hx => hds x (List.mem_cons_of_mem c hx)) m
      have hle := le_value (n * 10 + (c.toNat - 48)) ds
      have hvalue : value n (c :: ds) = value (n * 10 + (c.toNat - 48)) ds := rfl
      -- What the code computes is what is denoted, cut to an `int`.
      have hten : Int32.ofNat n * 10 = Int32.ofNat (n * 10) := by
        rw [Int32.ofNat_mul]
        rfl
      have hdigit : (digitVal c).toInt = ((c.toNat - 48 : Nat) : Int) := toInt_ofNat _ (by omega)
      rw [digitSteps, List.forall_mem_cons, List.forall_mem_cons, digit_step, hten, hdigit,
        toInt_ofNat n hn, hvalue]
      -- Once a step leaves the range what is computed is out of it for good.
      by_cases hfits : n * 10 + (c.toNat - 48) ≤ 2147483647
      · rw [hrest _ hfits, toInt_ofNat (n * 10) (by omega)]
        unfold InInt
        omega
      · constructor
        · rintro ⟨hmul, hadd, _⟩
          unfold InInt at hmul hadd
          rw [toInt_ofNat (n * 10) (by omega)] at hadd
          omega
        · intro h
          omega

/-- All operations on an integer stay within an `int` exactly when its digits do. -/
theorem steps_iff (neg : Bool) (N : Numeral) :
    (∀ x ∈ steps neg N, InInt x) ↔ N.value ≤ 2147483647 := by
  have hloop : (∀ x ∈ digitSteps 0 N.digits, InInt x) ↔ N.value ≤ 2147483647 :=
    digitSteps_iff N.digits N.isDigits 0 (by omega)
  rw [steps, List.forall_mem_append, hloop]
  constructor
  · intro h
    exact h.1
  · intro h
    refine ⟨h, fun x hx => ?_⟩
    -- The sign comes last, and what it turns around is not the smallest `int`.
    cases neg with
    | false => exact absurd hx List.not_mem_nil
    | true =>
        rw [List.mem_singleton.mp hx, toInt_ofNat N.value h]
        unfold InInt
        omega

/-! ## Places -/

/-- Where a value stands: behind the elements or the members read so far, a member behind
    its key. -/
inductive Place (D : Type) where
  | elem (a : List (Json D))
  | member (o : List (Str × Json D)) (k : Str) (safe : rawSafe k = true)

namespace Place

/-- The loop of `parseArray` or `parseObject` at the place. -/
def parse [DecimalImpl D] : Place D → Nat → Str → Res (Json D × Str)
  | .elem a, n, p => parseElems n a p
  | .member o k _, n, p => parseMembers n o (printString k ++ Ch.colon :: p)

def closing : Place D → UInt8
  | .elem _ => Ch.rbracket
  | .member _ _ _ => Ch.rbrace

/-- What stands behind the value: a comma, or what closes the array or object. -/
def Closes (x : Place D) (c : UInt8) : Prop := c = Ch.comma ∨ c = x.closing

/-- How the loop goes on when `v` has been read up to `c`. -/
def behind [DecimalImpl D] : Place D → Nat → Json D → UInt8 → Str → Res (Json D × Str)
  | .elem a, n, v, c, q =>
    if c = Ch.comma then parseElems n (a ++ [v]) q else .ok (.array (a ++ [v]), q)
  | .member o k _, n, v, c, q => (Json.assignMember k v o).bind fun o =>
    if c = Ch.comma then parseMembers n o q else .ok (.object o, q)

theorem Closes.delim (x : Place D) (c : UInt8) (h : x.Closes c) : Delim c := by
  cases x with
  | elem a => exact h.elim Or.inl fun h => Or.inr (Or.inl h)
  | member o k safe => exact h.elim Or.inl fun h => Or.inr (Or.inr h)

theorem parse_step [DecimalImpl D] (x : Place D) (n : Nat) (v : Json D) (c : UInt8) (p q : Str)
    (hc : x.Closes c) (hv : parseImpl (n + 1) p = .ok (v, c :: q)) :
    x.parse (n + 2) p = x.behind (n + 1) v c q := by
  have hdelim := hc.delim
  cases x with
  | elem a =>
      rw [parse, parseElems_step (n + 1) a v c p q (by omega) hdelim hv, behind]
      rcases hc with rfl | rfl <;> rfl
  | member o k safe =>
      rw [parse, parseMembers_step (n + 1) o k v c p q (by omega) hdelim safe hv, behind]
      rcases hc with rfl | rfl <;> rfl

end Place

/-! ## Integers -/

/-- An integer between spaces, as a value. -/
theorem parseImpl_integer [DecimalImpl D] (neg : Bool) (N : Numeral) (n : Nat) (ws ws' : Str)
    (hws : ∀ c ∈ ws, isWhitespace c = true) (hws' : ∀ c ∈ ws', isWhitespace c = true) (c : UInt8)
    (q : Str) (hc : Delim c) :
    parseImpl (D := D) (n + 1) (ws ++ (intText neg N ++ (ws' ++ c :: q)))
      = .ok (.integer (if neg then -Int32.ofNat N.value else Int32.ofNat N.value), c :: q) := by
  have hrun := parseNumberImpl_integer (D := D) neg N ws' hws' c q (ends_delim c hc)
    (delim_facts c hc).2.2.2
  have hvalue : ∀ p, parseImpl (D := D) (n + 1) p = (skipWhitespace p).bind (parseValue n) :=
    fun p => rfl
  rw [intText, List.append_assoc, hvalue]
  cases neg with
  | true =>
      rw [if_pos rfl] at hrun ⊢
      rw [List.singleton_append, skipWhitespace_run ws hws Ch.minus _ rfl]
      exact hrun
  | false =>
      rcases N.cons with ⟨d, ds, hN, hd⟩
      simp only [Bool.false_eq_true, if_false, List.nil_append] at hrun ⊢
      rw [hN, List.cons_append] at hrun ⊢
      have hne : d ≠ Ch.minus := Scan.digit_ne d Ch.minus hd rfl
      rw [skipWhitespace_run ws hws d _ (Scan.not_isWhitespace_of_isdigit d hd), Res.ok_bind,
        parseValue_digit n d _ hd, ← hrun]
      simp only [parseNumberImpl, Res.bind_def, deref_cons, Res.ok_bind, if_neg hne]

/-- What the parser makes of an integer, wherever it stands. -/
theorem place_integer [DecimalImpl D] (neg : Bool) (N : Numeral) (x : Place D) (n : Nat)
    (ws ws' : Str) (hws : ∀ c ∈ ws, isWhitespace c = true) (hws' : ∀ c ∈ ws', isWhitespace c = true)
    (c : UInt8) (q : Str) (hc : x.Closes c) :
    x.parse (n + 2) (ws ++ (intText neg N ++ (ws' ++ c :: q)))
      = x.behind (n + 1)
          (.integer (if neg then -Int32.ofNat N.value else Int32.ofNat N.value)) c q :=
  x.parse_step n _ c _ q hc (parseImpl_integer neg N n ws ws' hws hws' c q hc.delim)

/-- What a reader may expect: an integer in the range of an `int` is read as what it
    denotes, wherever it stands and without a step outside the range, and any other is
    refused. -/
def ReadRight (D : Type) [DecimalImpl D] (neg : Bool) (N : Numeral) : Prop :=
  (InInt (denoted neg N) → (∀ x ∈ steps neg N, InInt x) ∧
    ∃ i : Int32, i.toInt = denoted neg N ∧
      ∀ (x : Place D) n ws ws' c q, (∀ c ∈ ws, isWhitespace c = true) →
        (∀ c ∈ ws', isWhitespace c = true) → x.Closes c →
        x.parse (n + 2) (ws ++ (intText neg N ++ (ws' ++ c :: q)))
          = x.behind (n + 1) (.integer i) c q) ∧
  (¬ InInt (denoted neg N) →
    ∀ (x : Place D) n ws ws' c q, (∀ c ∈ ws, isWhitespace c = true) →
      (∀ c ∈ ws', isWhitespace c = true) → x.Closes c →
      ∃ what, x.parse (n + 2) (ws ++ (intText neg N ++ (ws' ++ c :: q))) = .throw (.json what))

theorem toInt_denoted (neg : Bool) (N : Numeral) (h : N.value ≤ 2147483647) :
    (if neg then -Int32.ofNat N.value else Int32.ofNat N.value).toInt = denoted neg N := by
  cases neg with
  | false => exact toInt_ofNat N.value h
  | true =>
      simp only [denoted, if_true]
      rw [Int32.toInt_neg, toInt_ofNat N.value h, Int.bmod_eq_of_le] <;> omega

/-- An integer is read as it should be exactly when its digits denote less than `2^31`. -/
theorem readRight_iff [DecimalImpl D] (neg : Bool) (N : Numeral) :
    ReadRight D neg N ↔ N.value ≤ 2147483647 := by
  constructor
  · rintro ⟨hfits, hrefused⟩
    by_contra hlarge
    by_cases hin : InInt (denoted neg N)
    · exact hlarge ((steps_iff neg N).mp (hfits hin).1)
    · -- Nothing is refused: in front of a bracket that closes an array, say.
      rcases hrefused hin (.elem []) 0 [] [] Ch.rbracket [] (fun _ h => absurd h List.not_mem_nil)
        (fun _ h => absurd h List.not_mem_nil) (Or.inr rfl) with ⟨what, hthrow⟩
      rw [place_integer neg N (.elem []) 0 [] [] (fun _ h => absurd h List.not_mem_nil)
        (fun _ h => absurd h List.not_mem_nil) Ch.rbracket [] (Or.inr rfl)] at hthrow
      cases hthrow
  · intro h
    refine ⟨fun _ => ⟨(steps_iff neg N).mpr h, _, toInt_denoted neg N h, ?_⟩, fun hout => ?_⟩
    · -- In range, it is the same at every place.
      intro x n ws ws' c q hws hws' hc
      exact place_integer neg N x n ws ws' hws hws' c q hc
    · -- Such an integer is never out of range.
      refine absurd ?_ hout
      unfold InInt denoted
      cases neg <;> simp only [Bool.false_eq_true, if_false, if_true] <;> omega

/-- One more than the largest `int`. -/
def tooLarge : Numeral := ⟨text "2147483648", by decide, by unfold IsDigit; decide +kernel⟩

/-- It is read as a negative number. -/
theorem tooLarge_read : ¬ ∀ (neg : Bool) (N : Numeral), ReadRight Unit neg N := by
  intro h
  have hout : ¬ InInt (denoted false tooLarge) := by
    unfold InInt denoted
    decide +kernel
  rcases (h false tooLarge).2 hout (.elem []) 0 [] [] Ch.rbracket []
    (fun _ h => absurd h List.not_mem_nil) (fun _ h => absurd h List.not_mem_nil) (Or.inr rfl)
    with ⟨what, hthrow⟩
  -- The place is an array of nothing but this integer.
  have hread : (Place.elem [] : Place Unit).parse 2 (text "2147483648]")
      = .ok (.array [.integer (-2147483648)], []) := by decide +kernel
  exact absurd (hread.symm.trans hthrow) (by simp only [reduceCtorEq, not_false_eq_true])

end Grammar

end Vsjson
