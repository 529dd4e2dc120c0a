import Trpc.Theory.Scan.Machine

/-!
# The Parser Follows the Machine

The refinement between the recursive parser and the machine that reads its
text byte by byte: over the same bytes, both complete a value, or throw, or
index the table of powers out of range, or free memory twice, or run out of
bytes.

`Follows` states it for one function of the parser, with the machine's verdict
from where the function left the cursor as a parameter, so that the statement
of a sequence is put together from those of its parts by `follows_bind`. The
leaf functions follow by induction on the bytes. For the recursive ones the
induction is on the recursion bound, and the statements of all five are proved
side by side; a bound that is used up says nothing, which is why no bound
appears in the statement.

## Main definitions

* `Follows`: A function's outcome against the machine's.
* `owners`: What the machine keeps of the members read so far.
* `closing`, `scaling`: The ends of the number functions.

## Theorems

* `follows_skip`, `follows_scanDigits`, `follows_scanString`: The leaf loops.
* `follows_parseUnsigned`: A number.
* `followsImpl_succ`, `followsObject_succ`, `followsMembers_succ`,
  `followsArray_succ`, `followsElems_succ`: One level of the recursion.
* `follows_parseImpl`: The recursive parser reads as the machine does.
-/

namespace Vsjson

namespace Scan

open parser

variable {α β D : Type}

/-- A parser function's outcome `r`, with `k` the machine's verdict from where
    the function left the cursor, against the machine's verdict `s` on the same
    bytes. A fault of the recursion bound says nothing. -/
def Follows (r : Res (α × Str)) (k : α → Str → Option Stop) (s : Option Stop) : Prop :=
  match r with
  | .ok (a, q) => s = k a q
  | .throw e => s = some .throw ∧ ∃ what, e = .json what
  | .fault .overrun => s = none
  | .fault .powIndex => s = some .powIndex
  | .fault .overflow => False
  | .fault .doubleFree => s = some .doubleFree
  | .fault .fuel => True

/-- What the machine does behind a value that the parser has returned. -/
def resumed (K : List Ctx) (j : Json D) (q : Str) : Option Stop := resume K j.ownsHeap q

/-- Which members own memory on the heap. -/
def owners (members : List (Str × Json D)) : List (Str × Bool) :=
  members.map fun e => (e.1, e.2.ownsHeap)

/-- What is kept of a member is whether its value owns memory. -/
theorem lookup_owners (k : Str) (members : List (Str × Json D)) :
    SortedMap.lookup k (owners members) = (SortedMap.lookup k members).map Json.ownsHeap := by
  induction members with
  | nil => rfl
  | cons e members ih =>
      rcases e with ⟨k', v⟩
      by_cases hk : k = k'
      · rw [hk, owners, List.map_cons, SortedMap.lookup_cons_self, SortedMap.lookup_cons_self]
        rfl
      · rw [owners, List.map_cons, SortedMap.lookup_cons_ne _ _ _ _ hk,
          SortedMap.lookup_cons_ne _ _ _ _ hk]
        exact ih

/-- Keeping track of the owners is assigning the members. -/
theorem insert_owners (k : Str) (v : Json D) (members : List (Str × Json D)) :
    SortedMap.insert k v.ownsHeap (owners members) = owners (SortedMap.insert k v members) := by
  induction members with
  | nil => rfl
  | cons e members ih =>
      rcases e with ⟨k', v'⟩
      rw [owners, List.map_cons, SortedMap.insert, SortedMap.insert]
      -- Both go through the sorted names alike.
      by_cases hlt : k < k'
      · rw [if_pos hlt, if_pos hlt]
        rfl
      · by_cases hk : k = k'
        · rw [if_neg hlt, if_neg hlt, if_pos hk, if_pos hk]
          rfl
        · rw [if_neg hlt, if_neg hlt, if_neg hk, if_neg hk]
          exact congrArg _ ih

/-- The machine notes a member as the parser assigns it. -/
theorem note_assignMember (k : Str) (v : Json D) (members : List (Str × Json D)) (K : List Ctx) :
    Json.assignMember k v members = .fault .doubleFree ∧
        note v.ownsHeap (.obj (owners members) k :: K) = none ∨
      Json.assignMember k v members = .ok (SortedMap.insert k v members) ∧
        note v.ownsHeap (.obj (owners members) k :: K)
          = some (.obj (owners (SortedMap.insert k v members)) k :: K) := by
  -- A new name is a default object in the code, which owns nothing.
  have hheap : (SortedMap.lookup k (owners members)).getD false
      = ((SortedMap.lookup k members).getD (.object [])).ownsHeap := by
    rw [lookup_owners]
    cases SortedMap.lookup k members <;> rfl
  rw [Json.assignMember, note, hheap, insert_owners]
  by_cases h : ((SortedMap.lookup k members).getD (.object [])).ownsHeap = true
  · rw [if_pos h, if_pos h]
    exact Or.inl ⟨rfl, rfl⟩
  · rw [if_neg h, if_neg h]
    exact Or.inr ⟨rfl, rfl⟩

theorem follows_throw (what : String) (k : α → Str → Option Stop) :
    Follows (.throw (.json what) : Res (α × Str)) k (some .throw) :=
  ⟨rfl, what, rfl⟩

/-- Functions one behind the other: the verdict behind the first is where the second begins. -/
theorem follows_bind (r : Res (α × Str)) (f : α × Str → Res (β × Str))
    (k : α → Str → Option Stop) (k' : β → Str → Option Stop) (s : Option Stop) (h : Follows r k s)
    (hf : ∀ a q, Follows (f (a, q)) k' (k a q)) : Follows (r.bind f) k' s := by
  cases r with
  | ok x =>
      rcases x with ⟨a, q⟩
      have hs : s = k a q := h
      rw [hs]
      exact hf a q
  | throw e => exact h
  | fault x => cases x <;> exact h

/-- Skipping space is staying in a mode that stays on space. -/
theorem follows_skip (m : Mode) (K : List Ctx)
    (hm : ∀ c, isWhitespace c = true → step m K c = .go m K)
    (f : Str → Res (β × Str)) (k : β → Str → Option Stop)
    (hf : ∀ c q, isWhitespace c = false → Follows (f (c :: q)) k (feed m K (c :: q))) :
    ∀ p, Follows ((skipWhitespace p).bind f) k (feed m K p) := by
  intro p
  induction p with
  | nil => rfl
  | cons c p ih =>
      by_cases hc : isWhitespace c = true
      · simp only [skipWhitespace, hc, if_true]
        rw [feed_cons, hm c hc, proceed_go]
        exact ih
      · simp only [skipWhitespace, hc]
        exact hf c p (by simpa using hc)

/-- The digits of an integer. -/
theorem follows_scanDigits (K : List Ctx) (f : Int32 × Str → Res (β × Str))
    (k : β → Str → Option Stop)
    (hf : ∀ i c q, isdigit c = false → Follows (f (i, c :: q)) k (feed .digits K (c :: q))) :
    ∀ p i, Follows ((scanDigits i p).bind f) k (feed .digits K p) := by
  intro p
  induction p with
  | nil => intro i; rfl
  | cons c p ih =>
      intro i
      by_cases hc : isdigit c = true
      · simp only [scanDigits, hc, if_true]
        rw [feed_cons]
        simp only [step, hc, if_true, proceed_go]
        exact ih _
      · simp only [scanDigits, hc]
        exact hf i c p (by simpa using hc)

/-- The digits of an exponent; here the machine keeps the number. -/
theorem follows_scanDigits_exp (K : List Ctx) (f : Int32 × Str → Res (β × Str))
    (k : β → Str → Option Stop)
    (hf : ∀ i c q, isdigit c = false → Follows (f (i, c :: q)) k (feed (.expDigits i) K (c :: q))) :
    ∀ p i, Follows ((scanDigits i p).bind f) k (feed (.expDigits i) K p) := by
  intro p
  induction p with
  | nil => intro i; rfl
  | cons c p ih =>
      intro i
      by_cases hc : isdigit c = true
      · simp only [scanDigits, hc, if_true]
        rw [feed_cons]
        simp only [step, hc, if_true, proceed_go]
        exact ih _
      · simp only [scanDigits, hc]
        exact hf i c p (by simpa using hc)

/-- The digits of a fraction. -/
theorem follows_scanFraction [DecimalImpl D] (K : List Ctx) (f : D × Str → Res (β × Str))
    (k : β → Str → Option Stop)
    (hf : ∀ d c q, isdigit c = false → Follows (f (d, c :: q)) k (feed .frac K (c :: q))) :
    ∀ p d idx, Follows ((scanFraction d idx p).bind f) k (feed .frac K p) := by
  intro p
  induction p with
  | nil => intro d idx; rfl
  | cons c p ih =>
      intro d idx
      by_cases hc : isdigit c = true
      · simp only [scanFraction, hc, if_true]
        rw [feed_cons]
        simp only [step, hc, if_true, proceed_go]
        exact ih _ _
      · simp only [scanFraction, hc]
        exact hf d c p (by simpa using hc)

/-- A string, from behind its opening quote. -/
theorem follows_scanString (isKey : Bool) (K : List Ctx) (p : Str) : ∀ s,
    Follows (scanString p) (fun t q => if isKey then feed .colon (setKey (s ++ t) K) q
      else resume K (decide (15 < (s ++ t).length)) q) (feed (.string isKey s) K p) := by
  fun_induction scanString p with
  | case1 => exact fun s => rfl
  | case2 p =>
      intro s
      rw [feed_cons]
      simp only [step, if_true, Follows, List.append_nil]
      cases isKey with
      | true => rfl
      | false => rfl
  | case3 hq => exact fun s => rfl
  -- A backslash and the byte behind it, whatever that is.
  | case4 e p hq ih =>
      intro s
      refine follows_bind _ _ _ _ _ (ih (s ++ [Ch.backslash, e])) (fun t q => ?_)
      simp only [Follows, List.append_assoc, List.cons_append, List.nil_append]
  | case5 c p hq hb ih =>
      intro s
      rw [feed_cons]
      simp only [step, if_neg hq, if_neg hb, proceed_go]
      refine follows_bind _ _ _ _ _ (ih (s ++ [c])) (fun t q => ?_)
      simp only [Follows, List.append_assoc, List.cons_append, List.nil_append]

/-- No digit is space. -/
theorem not_isWhitespace_of_isdigit (c : UInt8) (h : isdigit c = true) :
    isWhitespace c = false := by
  cases hw : isWhitespace c with
  | false => rfl
  | true =>
      simp only [isWhitespace, Bool.or_eq_true, beq_iff_eq] at hw
      rcases hw with ((rfl | rfl) | rfl) | rfl <;> exact absurd h (by decide)

/-- How `parseInteger` and `parseDeciaml` end: skip space, and refuse the
    terminator. -/
def closing (what : String) (a : α) (p : Str) : Res (α × Str) :=
  (skipWhitespace p).bind fun p => (deref p).bind fun c =>
    if c = Ch.nul then .throw (.json what) else .ok (a, p)

theorem parseInteger_eq (p : Str) :
    parseInteger p = (skipWhitespace p).bind fun p => (scanDigits 0 p).bind fun x =>
      closing "integer parse failure: assert non-\\n" x.1 x.2 := rfl

theorem parseDeciaml_eq [DecimalImpl D] (p : Str) :
    parseDeciaml (D := D) p = (skipWhitespace (p.drop 1)).bind fun p =>
      (scanFraction DecimalImpl.zero DecimalImpl.tenth p).bind fun x =>
        closing "decimal parse failure: assert non-\\n" x.1 x.2 := rfl

/-- Behind the digits and the space: `E` is what the machine makes of the byte
    there. -/
theorem follows_closing_at (what : String) (E : UInt8 → Next) (a : α)
    (f : α × Str → Res (β × Str)) (k : β → Str → Option Stop) (hnul : E Ch.nul = .stop .throw)
    (hf : ∀ d r, isWhitespace d = false → d ≠ Ch.nul →
      Follows (f (a, d :: r)) k (proceed (E d) r))
    (d : UInt8) (r : Str) (hd : isWhitespace d = false) :
    Follows ((closing what a (d :: r)).bind f) k (proceed (E d) r) := by
  simp only [closing, skipWhitespace, hd, Bool.false_eq_true, if_false, Res.ok_bind, deref_cons]
  by_cases hz : d = Ch.nul
  · rw [if_pos hz, hz, hnul]
    exact follows_throw what k
  · rw [if_neg hz]
    exact hf d r hd hz

/-- The end of a run of digits. `m` is the machine's mode within the digits,
    `mEnd` the mode in the space behind them, and `E` what both make of the byte
    after that. -/
theorem follows_closing (what : String) (m mEnd : Mode) (K : List Ctx) (E : UInt8 → Next) (a : α)
    (f : α × Str → Res (β × Str)) (k : β → Str → Option Stop)
    (hm : ∀ c, isdigit c = false → step m K c = if isWhitespace c then .go mEnd K else E c)
    (hEnd : ∀ c, step mEnd K c = if isWhitespace c then .go mEnd K else E c)
    (hnul : E Ch.nul = .stop .throw)
    (hf : ∀ d r, isWhitespace d = false → d ≠ Ch.nul →
      Follows (f (a, d :: r)) k (proceed (E d) r))
    (c : UInt8) (q : Str) (hc : isdigit c = false) :
    Follows ((closing what a (c :: q)).bind f) k (feed m K (c :: q)) := by
  by_cases hw : isWhitespace c = true
  · -- One blank puts the machine into the mode of the space.
    have hfeed : feed m K (c :: q) = feed mEnd K q := by
      rw [feed_cons, hm c hc, if_pos hw, proceed_go]
    have hskip : closing what a (c :: q) = closing what a q := by
      simp only [closing, skipWhitespace, hw, if_true]
    rw [hfeed, hskip, closing, Res.bind_assoc]
    refine follows_skip mEnd K (fun d hd => by rw [hEnd, if_pos hd]) _ k (fun d r hd => ?_) q
    rw [feed_cons, hEnd, if_neg (by simp only [hd, Bool.false_eq_true, not_false_eq_true])]
    have hat := follows_closing_at what E a f k hnul hf d r hd
    simpa only [closing, skipWhitespace, hd, Bool.false_eq_true, if_false, Res.ok_bind] using hat
  · have hw' : isWhitespace c = false := by simpa using hw
    rw [feed_cons, hm c hc, if_neg hw]
    exact follows_closing_at what E a f k hnul hf c q hw'

theorem endInteger_nul (K : List Ctx) : endInteger K Ch.nul = .stop .throw := rfl

theorem endFraction_nul (K : List Ctx) : endFraction K Ch.nul = .stop .throw := rfl

theorem endExponent_nul (K : List Ctx) (i : Int32) : endExponent K i Ch.nul = .stop .throw := rfl

/-- An integer, from behind its first digit. -/
theorem follows_parseInteger (K : List Ctx) (f : Int32 × Str → Res (β × Str))
    (k : β → Str → Option Stop)
    (hf : ∀ i d r, isWhitespace d = false → d ≠ Ch.nul →
      Follows (f (i, d :: r)) k (proceed (endInteger K d) r))
    (c : UInt8) (q : Str) (hc : isdigit c = true) :
    Follows ((parseInteger (c :: q)).bind f) k (feed .digits K q) := by
  rw [parseInteger_eq]
  simp only [skipWhitespace, not_isWhitespace_of_isdigit c hc, Bool.false_eq_true, if_false,
    Res.ok_bind, scanDigits, hc, if_true, Res.bind_assoc]
  refine follows_scanDigits K _ k (fun i d r hd => ?_) q _
  exact follows_closing _ .digits .digitsEnd K (endInteger K) i f k
    (fun c hc => by simp only [step, hc, Bool.false_eq_true, if_false])
    (fun c => rfl) (endInteger_nul K) (hf i) d r hd

/-- The number of an exponent, from behind its sign. -/
theorem follows_parseInteger_exp (K : List Ctx) (f : Int32 × Str → Res (β × Str))
    (k : β → Str → Option Stop)
    (hf : ∀ i d r, isWhitespace d = false → d ≠ Ch.nul →
      Follows (f (i, d :: r)) k (proceed (endExponent K i d) r)) (p : Str) :
    Follows ((parseInteger p).bind f) k (feed .expSign K p) := by
  rw [parseInteger_eq, Res.bind_assoc]
  refine follows_skip .expSign K (fun c hc => by simp only [step, hc, if_true]) _ k
    (fun c q hc => ?_) p
  rw [Res.bind_assoc, feed_cons]
  cases hd : isdigit c with
  | true =>
      simp only [step, hc, hd, scanDigits, Bool.false_eq_true, if_false, if_true, proceed_go]
      refine follows_scanDigits_exp K _ k (fun i d r hd => ?_) q _
      exact follows_closing _ (.expDigits i) (.expEnd i) K (endExponent K i) i f k
        (fun c hc => by simp only [step, hc, Bool.false_eq_true, if_false])
        (fun c => rfl) (endExponent_nul K i) (hf i) d r hd
  | false =>
      -- No digit at all: the number is zero.
      simp only [step, hc, hd, scanDigits, Bool.false_eq_true, if_false, Res.ok_bind]
      exact follows_closing_at _ (endExponent K 0) 0 f k (endExponent_nul K 0) (hf 0) c q hc

/-- A fraction, from behind its dot. -/
theorem follows_parseDeciaml [DecimalImpl D] (K : List Ctx) (f : D × Str → Res (β × Str))
    (k : β → Str → Option Stop)
    (hf : ∀ a d r, isWhitespace d = false → d ≠ Ch.nul →
      Follows (f (a, d :: r)) k (proceed (endFraction K d) r)) (c : UInt8) (q : Str) :
    Follows ((parseDeciaml (c :: q)).bind f) k (feed .fracStart K q) := by
  rw [parseDeciaml_eq, List.drop_one, List.tail_cons, Res.bind_assoc]
  refine follows_skip .fracStart K (fun c hc => by simp only [step, hc, if_true]) _ k
    (fun c q hc => ?_) q
  rw [Res.bind_assoc, feed_cons]
  cases hd : isdigit c with
  | true =>
      simp only [step, hc, hd, scanFraction, Bool.false_eq_true, if_false, if_true, proceed_go]
      refine follows_scanFraction K _ k (fun a d r hd => ?_) q _ _
      exact follows_closing _ .frac .fracEnd K (endFraction K) a f k
        (fun c hc => by simp only [step, hc, Bool.false_eq_true, if_false])
        (fun c => rfl) (endFraction_nul K) (hf a) d r hd
  | false =>
      simp only [step, hc, hd, scanFraction, Bool.false_eq_true, if_false, Res.ok_bind]
      exact follows_closing_at _ (endFraction K) _ f k (endFraction_nul K) (hf _) c q hc

/-- What `parseExponent` does with the number it read. -/
def scaling [DecimalImpl D] (neg : Prop) [Decidable neg] (x : Int32 × Str) : Res (D × Str) :=
  (skipWhitespace x.2).bind fun p => (deref p).bind fun c =>
    if c = Ch.nul then .throw (.json "exponent parse failure: assert non-\\n")
    else (pows x.1).bind fun e => .ok (if neg then DecimalImpl.div DecimalImpl.one e else e, p)

theorem parseExponent_eq [DecimalImpl D] (p : Str) :
    parseExponent (D := D) p = (skipWhitespace (p.drop 1)).bind fun p => (deref p).bind fun c =>
      (parseInteger (if c = Ch.plus ∨ c = Ch.minus then p.drop 1 else p)).bind
        (scaling (c = Ch.minus)) := rfl

theorem follows_scaling [DecimalImpl D] (neg : Prop) [Decidable neg] (K : List Ctx)
    (f : D × Str → Res (β × Str)) (k : β → Str → Option Stop)
    (hf : ∀ e d r, isWhitespace d = false →
      Follows (f (e, d :: r)) k (proceed (finish K d) r))
    (i : Int32) (d : UInt8) (r : Str) (hd : isWhitespace d = false) (hz : d ≠ Ch.nul) :
    Follows ((scaling neg (i, d :: r)).bind f) k (proceed (endExponent K i d) r) := by
  simp only [scaling, skipWhitespace, hd, Bool.false_eq_true, if_false, Res.ok_bind, deref_cons,
    if_neg hz, endExponent, pows]
  by_cases hi : 0 ≤ i.toInt ∧ i.toInt < exponentLimit
  · simp only [if_pos hi, Res.ok_bind]
    exact hf _ d r hd
  · simp only [if_neg hi]
    rfl

/-- An exponent, from behind its letter. -/
theorem follows_parseExponent [DecimalImpl D] (K : List Ctx) (f : D × Str → Res (β × Str))
    (k : β → Str → Option Stop)
    (hf : ∀ e d r, isWhitespace d = false →
      Follows (f (e, d :: r)) k (proceed (finish K d) r)) (c : UInt8) (q : Str) :
    Follows ((parseExponent (c :: q)).bind f) k (feed .expStart K q) := by
  rw [parseExponent_eq, List.drop_one, List.tail_cons, Res.bind_assoc]
  refine follows_skip .expStart K (fun c hc => by simp only [step, hc, if_true]) _ k
    (fun c q hc => ?_) q
  simp only [deref_cons, Res.ok_bind, Res.bind_assoc]
  by_cases hs : c = Ch.plus ∨ c = Ch.minus
  · rw [if_pos hs, List.drop_one, List.tail_cons, feed_cons]
    simp only [step, hc, Bool.false_eq_true, if_false, if_pos hs, proceed_go]
    exact follows_parseInteger_exp K _ k
      (fun i d r hd hz => follows_scaling (c = Ch.minus) K f k hf i d r hd hz) q
  · -- Without a sign the machine treats the byte as it would behind one.
    have hfeed : feed .expStart K (c :: q) = feed .expSign K (c :: q) := by
      simp only [feed_cons, step, hc, Bool.false_eq_true, if_false, if_neg hs]
    rw [if_neg hs, hfeed]
    exact follows_parseInteger_exp K _ k
      (fun i d r hd hz => follows_scaling (c = Ch.minus) K f k hf i d r hd hz) (c :: q)

/-- A number, from behind its sign. -/
theorem follows_parseUnsigned [DecimalImpl D] (neg : Bool) (K : List Ctx) (c : UInt8) (q : Str) :
    Follows (parseUnsigned (D := D) neg (c :: q)) (resumed K)
      (proceed (if isdigit c then .go .digits K else finish K c) q) := by
  unfold parseUnsigned
  simp only [Res.bind_def, deref_cons, Res.ok_bind]
  cases hc : isdigit c with
  | false =>
      simp only [Bool.false_eq_true, if_false]
      exact proceed_finish K c q
  | true =>
      simp only [if_true, proceed_go]
      -- The digits, and at the byte behind them a fraction or the end.
      refine follows_parseInteger K _ (resumed K) (fun i d r hd hz => ?_) c q hc
      simp only [deref_cons, Res.ok_bind]
      by_cases hdot : d = Ch.dot
      · have hE : endInteger K d = .go .fracStart K := by
          simp only [endInteger, if_neg hz, if_pos hdot]
        rw [hE, proceed_go,
          if_neg (by simp only [hdot, ne_eq, not_true_eq_false, not_false_eq_true])]
        -- Only a fraction can have an exponent.
        refine follows_parseDeciaml K _ (resumed K) (fun a e s he hz => ?_) d r
        simp only [deref_cons, Res.ok_bind]
        by_cases hexp : e ≠ Ch.lowerE ∧ e ≠ Ch.upperE
        · have hE : endFraction K e = finish K e := by
            simp only [endFraction, if_neg hz]
            rw [if_neg (by rintro (h | h); exacts [hexp.1 h, hexp.2 h])]
          rw [if_pos hexp, hE]
          exact proceed_finish K e s
        · have hE : endFraction K e = .go .expStart K := by
            simp only [endFraction, if_neg hz]
            rw [if_pos (by tauto)]
          rw [if_neg hexp, hE, proceed_go]
          refine follows_parseExponent K _ (resumed K) (fun x y z _ => ?_) e s
          exact proceed_finish K y z
      · have hE : endInteger K d = finish K d := by
          simp only [endInteger, if_neg hz, if_neg hdot]
        rw [if_pos hdot, hE]
        exact proceed_finish K d r

/-- Passing over the rest of a nested literal. -/
theorem feed_skip (K : List Ctx) :
    ∀ k r, feed (.skip k) K r = feed .after K (r.drop (k + 1)) := by
  intro k
  induction k with
  | zero =>
      intro r
      cases r with
      | nil => rfl
      | cons d r =>
          rw [feed_cons]
          simp only [step, proceed_go, List.drop_succ_cons, List.drop_zero]
  | succ k ih =>
      intro r
      cases r with
      | nil => rfl
      | cons d r =>
          rw [feed_cons]
          simp only [step, proceed_go, List.drop_succ_cons]
          exact ih r

/-- A literal, from behind its first letter. The cursor moves by a fixed
    amount; the bytes it passes are not looked at. The value is in its place before
    they would be. -/
theorem follows_literal (K : List Ctx) (j : Json D) (hj : j.ownsHeap = false) (k : Nat) (q : Str) :
    Follows (.ok (j, q.drop (k + 1))) (resumed K)
      (proceed (placed (.skip k) (note false K)) q) := by
  simp only [Follows, resumed, resume, ended, hj]
  cases note false K with
  | none => rfl
  | some K' =>
      cases K' with
      | nil => rfl
      | cons x K' => exact feed_skip (x :: K') k q

section Recursion

variable (D) [DecimalImpl D]

/-- `parseImpl` follows the machine from where a value is expected. -/
def FollowsImpl (n : Nat) : Prop :=
  ∀ K p, Follows (parseImpl (D := D) n p) (resumed K) (feed .value K p)

/-- `parseObject` follows the machine from behind the opening brace. -/
def FollowsObject (n : Nat) : Prop :=
  ∀ K c q, Follows (parseObject (D := D) n (c :: q)) (resumed K)
    (feed .firstKey (.obj [] [] :: K) q)

/-- The loop of `parseObject` follows the machine from where a key is
    expected. -/
def FollowsMembers (n : Nat) : Prop :=
  ∀ K o k p, Follows (parseMembers (D := D) n o p) (resumed K)
    (feed .key (.obj (owners o) k :: K) p)

/-- `parseArray` follows the machine from behind the opening bracket. -/
def FollowsArray (n : Nat) : Prop :=
  ∀ K c q, Follows (parseArray (D := D) n (c :: q)) (resumed K) (feed .firstElem (.arr :: K) q)

/-- The loop of `parseArray` follows the machine from where a value is
    expected. -/
def FollowsElems (n : Nat) : Prop :=
  ∀ K a p, Follows (parseElems (D := D) n a p) (resumed K) (feed .value (.arr :: K) p)

variable {D}

theorem parseString_quote (q : Str) : parseString (Ch.quote :: q) = scanString q := rfl

/-- The first byte of a value leads to the same branch in both. -/
theorem followsImpl_succ (n : Nat) (hO : FollowsObject D n) (hA : FollowsArray D n) :
    FollowsImpl D (n + 1) := by
  intro K p
  simp only [parseImpl, Res.bind_def]
  refine follows_skip .value K (fun c hc => by simp only [step, hc, if_true]) _ _
    (fun c q hc => ?_) p
  simp only [deref_cons, Res.ok_bind, Res.pure_def]
  rw [feed_cons]
  simp only [step, hc, Bool.false_eq_true, if_false, startValue]
  -- The terminator is taken for a null, and stays where it is.
  by_cases h0 : c = Ch.nul
  · subst h0
    exact proceed_finish K Ch.nul q
  rw [if_neg h0]
  by_cases h1 : c = Ch.lbrace
  · rw [if_pos h1, if_pos h1, proceed_go]
    exact hO K c q
  rw [if_neg h1, if_neg h1]
  by_cases h2 : c = Ch.lbracket
  · rw [if_pos h2, if_pos h2, proceed_go]
    exact hA K c q
  rw [if_neg h2, if_neg h2]
  by_cases h3 : c = Ch.quote
  · rw [if_pos h3, if_pos h3, proceed_go, h3, parseString_quote]
    exact follows_bind _ _ _ _ _ (follows_scanString false K q []) (fun s r => rfl)
  rw [if_neg h3, if_neg h3]
  by_cases h4 : c = Ch.lowerN
  · rw [if_pos h4, if_pos (Or.inl h4)]
    exact follows_literal K .null rfl 2 q
  by_cases h5 : c = Ch.lowerT
  · rw [if_neg h4, if_pos h5, if_pos (Or.inr h5)]
    exact follows_literal K (.boolean true) rfl 2 q
  -- The machine has one branch for the two literals of four letters.
  have h45 : ¬ (c = Ch.lowerN ∨ c = Ch.lowerT) := by
    rintro (h | h)
    · exact h4 h
    · exact h5 h
  rw [if_neg h4, if_neg h5, if_neg h45]
  by_cases h6 : c = Ch.lowerF
  · rw [if_pos h6, if_pos h6]
    exact follows_literal K (.boolean false) rfl 3 q
  rw [if_neg h6, if_neg h6]
  simp only [parseNumberImpl, Res.bind_def, deref_cons, Res.ok_bind]
  by_cases h7 : c = Ch.minus
  · rw [if_pos (Or.inl h7), if_pos h7, if_pos h7, List.drop_one, List.tail_cons, proceed_go]
    cases q with
    | nil => rfl
    | cons d r => exact follows_parseUnsigned true K d r
  · rw [if_neg h7, if_neg h7]
    have hnum := follows_parseUnsigned (D := D) false K c q
    by_cases h8 : isdigit c = true
    · rw [if_pos (Or.inr (Or.inl h8)), if_pos h8]
      rwa [if_pos h8] at hnum
    · rw [if_neg h8]
      rw [if_neg h8] at hnum
      -- A lone dot is handed to `parseNumberImpl`, which leaves it alone.
      by_cases h9 : c = Ch.dot
      · rw [if_pos (Or.inr (Or.inr h9))]
        exact hnum
      · -- The branch that the source calls impossible.
        rw [if_neg (by rintro (h | h | h); exacts [h7 h, h8 h, h9 h])]
        exact proceed_finish K c q

/-- An object is closed at once, or the machine goes over to the mode of any key. -/
theorem followsObject_succ (n : Nat) (hM : FollowsMembers D n) : FollowsObject D (n + 1) := by
  intro K c q
  simp only [parseObject, Res.bind_def, List.drop_one, List.tail_cons]
  refine follows_skip .firstKey (.obj [] [] :: K) (fun c hc => by simp only [step, hc, if_true]) _ _
    (fun d r hd => ?_) q
  simp only [deref_cons, Res.ok_bind, List.tail_cons]
  by_cases hb : d = Ch.rbrace
  · rw [if_pos hb, feed_cons]
    simp only [step, hd, Bool.false_eq_true, if_false, if_pos hb, List.tail_cons]
    exact proceed_ended false K r
  · have hfeed : feed .firstKey (.obj [] [] :: K) (d :: r)
        = feed .key (.obj [] [] :: K) (d :: r) := by
      simp only [feed_cons, step, hd, Bool.false_eq_true, if_false, if_neg hb]
    rw [if_neg hb, hfeed]
    exact hM K [] [] (d :: r)

/-- The same for an array. -/
theorem followsArray_succ (n : Nat) (hE : FollowsElems D n) : FollowsArray D (n + 1) := by
  intro K c q
  simp only [parseArray, Res.bind_def, List.drop_one, List.tail_cons]
  refine follows_skip .firstElem (.arr :: K) (fun c hc => by simp only [step, hc, if_true]) _ _
    (fun d r hd => ?_) q
  simp only [deref_cons, Res.ok_bind, List.tail_cons]
  by_cases hb : d = Ch.rbracket
  · rw [if_pos hb, feed_cons]
    simp only [step, hd, Bool.false_eq_true, if_false, if_pos hb, List.tail_cons]
    exact proceed_ended false K r
  · have hfeed : feed .firstElem (.arr :: K) (d :: r) = feed .value (.arr :: K) (d :: r) := by
      simp only [feed_cons, step, hd, Bool.false_eq_true, if_false, if_neg hb]
    rw [if_neg hb, hfeed]
    exact hE K [] (d :: r)

theorem feed_after_cons (x : Ctx) (K : List Ctx) (c : UInt8) (q : Str) :
    feed .after (x :: K) (c :: q) = proceed (settle (x :: K) c) q := rfl

omit [DecimalImpl D] in
/-- What closes an array or object, the comma in it, or neither. -/
theorem follows_behind (x : Ctx) (K : List Ctx) (j : Json D) (hj : j.ownsHeap = true) (c : UInt8)
    (s : Str) (f : Res (Json D × Str)) (what : String) (hc : isWhitespace c = false)
    (hf : c = Ch.comma → Follows f (resumed K) (feed x.next (x :: K) s)) :
    Follows (if c = x.close then .ok (j, s) else if c = Ch.comma then f
      else .throw (.json what)) (resumed K) (feed .after (x :: K) (c :: s)) := by
  rw [feed_after_cons]
  simp only [settle, hc, Bool.false_eq_true, if_false]
  by_cases hb : c = x.close
  · rw [if_pos hb, if_pos hb]
    simp only [Follows, resumed, hj, proceed_ended]
  · rw [if_neg hb, if_neg hb]
    by_cases hcomma : c = Ch.comma
    · rw [if_pos hcomma, if_pos hcomma, proceed_go]
      exact hf hcomma
    · rw [if_neg hcomma, if_neg hcomma]
      exact follows_throw _ _

/-- An element: blanks, a value, blanks, and what is behind it. -/
theorem followsElems_succ (n : Nat) (hI : FollowsImpl D n) (hE : FollowsElems D n) :
    FollowsElems D (n + 1) := by
  intro K a p
  simp only [parseElems, Res.bind_def]
  refine follows_skip .value (.arr :: K) (fun c hc => by simp only [step, hc, if_true]) _ _
    (fun c q _ => ?_) p
  refine follows_bind _ _ _ _ _ (hI (.arr :: K) (c :: q)) (fun v r => ?_)
  refine follows_skip .after (.arr :: K) (fun c hc => by simp only [step, settle, hc, if_true]) _ _
    (fun d s hd => ?_) r
  simp only [deref_cons, Res.ok_bind, List.drop_one, List.tail_cons]
  refine follows_behind .arr K _ ?_ d s _ _ hd (fun _ => hE K _ s)
  -- With one element it owns memory.
  cases a <;> rfl

/-- A member: the machine keeps the name, and notes the value when it is there. -/
theorem followsMembers_succ (n : Nat) (hI : FollowsImpl D n) (hM : FollowsMembers D n) :
    FollowsMembers D (n + 1) := by
  intro K o k p
  simp only [parseMembers, Res.bind_def]
  refine follows_skip .key _ (fun c hc => by simp only [step, hc, if_true]) _ _
    (fun c q hc => ?_) p
  simp only [parseString, skipWhitespace, hc, Bool.false_eq_true, if_false, Res.bind_def,
    Res.ok_bind, deref_cons, List.drop_one, List.tail_cons]
  rw [feed_cons]
  simp only [step, hc, Bool.false_eq_true, if_false]
  by_cases hq : c = Ch.quote
  swap
  · rw [if_pos hq, if_neg hq]
    exact follows_throw _ _
  rw [if_neg (by simp only [hq, ne_eq, not_true_eq_false, not_false_eq_true]), if_pos hq,
    proceed_go]
  -- The key, then the colon, then the value, then a comma or the brace.
  refine follows_bind _ _ _ _ _ (follows_scanString true _ q []) (fun key r => ?_)
  simp only [if_true, List.nil_append, setKey]
  refine follows_skip .colon _ (fun c hc => by simp only [step, hc, if_true]) _ _
    (fun d s hd => ?_) r
  simp only [deref_cons, Res.ok_bind, List.tail_cons]
  rw [feed_cons]
  simp only [step, hd, Bool.false_eq_true, if_false]
  by_cases hcol : d = Ch.colon
  swap
  · rw [if_pos hcol, if_neg hcol]
    exact follows_throw _ _
  rw [if_neg (by simp only [hcol, ne_eq, not_true_eq_false, not_false_eq_true]), if_pos hcol,
    proceed_go]
  refine follows_skip .value _ (fun c hc => by simp only [step, hc, if_true]) _ _
    (fun e t _ => ?_) s
  refine follows_bind _ _ _ _ _ (hI _ (e :: t)) (fun v u => ?_)
  -- The value goes into the object, if what is there can go.
  simp only [resumed, resume, ended]
  rcases note_assignMember key v o K with ⟨hassign, hnote⟩ | ⟨hassign, hnote⟩
  · rw [hassign, hnote]
    rfl
  rw [hassign, hnote, Res.ok_bind]
  refine follows_skip .after _ (fun c hc => by simp only [step, settle, hc, if_true]) _ _
    (fun d s hd => ?_) u
  simp only [deref_cons, Res.ok_bind, List.tail_cons]
  refine follows_behind (.obj (owners (SortedMap.insert key v o)) key) K _ ?_ d s _ _ hd
    (fun _ => hM K _ key s)
  simp only [Json.ownsHeap, SortedMap.insert_isEmpty, Bool.not_false]

/-- The recursive functions read as the machine does. -/
theorem follows_all (n : Nat) :
    FollowsImpl D n ∧ FollowsObject D n ∧ FollowsMembers D n ∧ FollowsArray D n ∧
      FollowsElems D n := by
  induction n with
  | zero =>
      exact ⟨fun _ _ => trivial, fun _ _ _ => trivial, fun _ _ _ _ => trivial, fun _ _ _ => trivial,
        fun _ _ _ => trivial⟩
  | succ n ih =>
      rcases ih with ⟨hI, hO, hM, hA, hE⟩
      exact ⟨followsImpl_succ n hO hA, followsObject_succ n hM, followsMembers_succ n hI hM,
        followsArray_succ n hE, followsElems_succ n hI hE⟩

theorem follows_parseImpl (n : Nat) (K : List Ctx) (p : Str) :
    Follows (parseImpl (D := D) n p) (resumed K) (feed .value K p) :=
  (follows_all n).1 K p

end Recursion

end Scan

end Vsjson
