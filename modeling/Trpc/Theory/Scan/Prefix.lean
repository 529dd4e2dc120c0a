import Trpc.Theory.Scan.Total

/-!
# What Lies Behind the Text

The parser is handed a pointer and no length. This module says what the bytes
behind a text can do to its parse.

In one direction: if the parser comes to an end within the text, the bytes
behind it change nothing. `Agrees` compares a function's outcome on a text with
its outcome on the same text followed by more bytes, and is proved for each
function in turn. A cursor that a literal has moved past the end of the text is
the one place where the two runs do not stay side by side; it is harmless,
because whatever reads there next has already left the text.

In the other direction: if the parser does not come to an end within the text,
some bytes behind it keep it going. `feed_extend` finds the next one, mode by
mode, so a text that is not enough can be followed by any number of bytes that
are not enough either.

## Main definitions

* `Agrees`: An outcome on a text against the outcome with more bytes behind it.
* `Mode.food`: A byte that keeps the machine going.

## Theorems

* `parse_append`: A parse that ends within the text ignores what follows.
* `feed_extend`: A run that has not stopped can be kept from stopping.
* `parse_overrun_extend`: A text that is not enough has followers of every
  length that are not enough.
-/

namespace Vsjson

namespace Scan

open parser

variable {α β D : Type}

/-- The outcome `r` on a text against the outcome `r'` with `ext` behind the
    text. Where `r` ran out of bytes nothing is claimed. -/
def Agrees (ext : Str) (r r' : Res (α × Str)) : Prop :=
  match r with
  | .ok (a, q) => ∃ q', r' = .ok (a, q') ∧ (q' = q ++ ext ∨ q = [])
  | .throw e => r' = .throw e
  | .fault .powIndex => r' = .fault .powIndex
  | .fault .doubleFree => r' = .fault .doubleFree
  | .fault _ => True

variable (ext : Str)

theorem agrees_ok (a : α) (q : Str) : Agrees ext (.ok (a, q)) (.ok (a, q ++ ext)) :=
  ⟨q ++ ext, rfl, Or.inl rfl⟩

/-- Two runs side by side stay so if the next function keeps them so. If the first has left
    the text by a literal, the next one has nothing to read in it. -/
theorem agrees_bind (r r' : Res (α × Str)) (f f' : α × Str → Res (β × Str))
    (h : Agrees ext r r') (hf : ∀ a q, Agrees ext (f (a, q)) (f' (a, q ++ ext)))
    (hend : ∀ a q', Agrees ext (f (a, [])) (f' (a, q'))) :
    Agrees ext (r.bind f) (r'.bind f') := by
  cases r with
  | ok x =>
      rcases x with ⟨a, q⟩
      rcases h with ⟨q', rfl, rfl | rfl⟩
      · exact hf a q
      · -- Here the cursors have parted, and only the shorter text counts.
        exact hend a q'
  | throw e =>
      have hr' : r' = .throw e := h
      rw [hr']
      exact rfl
  | fault x =>
      cases x with
      | powIndex =>
          have hr' : r' = .fault .powIndex := h
          rw [hr']
          exact rfl
      | doubleFree =>
          have hr' : r' = .fault .doubleFree := h
          rw [hr']
          exact rfl
      -- About an overrun nothing is claimed.
      | _ => trivial

/-- Blanks are passed over in both, and the byte behind them is the same. -/
theorem agrees_skip (f f' : Str → Res (β × Str))
    (hf : ∀ c q, Agrees ext (f (c :: q)) (f' (c :: (q ++ ext)))) :
    ∀ p, Agrees ext ((skipWhitespace p).bind f) ((skipWhitespace (p ++ ext)).bind f') := by
  intro p
  induction p with
  | nil => trivial
  | cons c p ih =>
      simp only [List.cons_append, skipWhitespace]
      by_cases hc : isWhitespace c = true
      · rw [if_pos hc, if_pos hc]
        exact ih
      · rw [if_neg hc, if_neg hc]
        exact hf c p

/-- A string that is closed within the text. -/
theorem agrees_scanString (p : Str) : Agrees ext (scanString p) (scanString (p ++ ext)) := by
  fun_induction scanString p with
  -- The text ends inside the string, or behind a backslash in it.
  | case1 => trivial
  | case2 p =>
      rw [List.cons_append, scanString_quote]
      exact agrees_ok ext [] p
  | case3 => trivial
  | case4 _ e p ih =>
      rw [List.cons_append, List.cons_append, scanString_backslash]
      exact agrees_bind ext _ _ _ _ ih (fun s q => agrees_ok ext _ q)
        (fun s q' => ⟨q', rfl, Or.inr rfl⟩)
  | case5 c p hq hb ih =>
      rw [List.cons_append, scanString_other c _ hq hb]
      exact agrees_bind ext _ _ _ _ ih (fun s q => agrees_ok ext _ q)
        (fun s q' => ⟨q', rfl, Or.inr rfl⟩)

/-- Digits with the byte behind them in the text. -/
theorem agrees_scanDigits (p : Str) :
    ∀ i, Agrees ext (scanDigits i p) (scanDigits i (p ++ ext)) := by
  induction p with
  | nil => exact fun i => trivial
  | cons c p ih =>
      intro i
      simp only [List.cons_append, scanDigits]
      by_cases hc : isdigit c = true
      · rw [if_pos hc, if_pos hc]
        exact ih _
      · rw [if_neg hc, if_neg hc]
        exact agrees_ok ext i (c :: p)

/-- The digits of a fraction, likewise. -/
theorem agrees_scanFraction [DecimalImpl D] (p : Str) :
    ∀ d idx : D, Agrees ext (scanFraction d idx p) (scanFraction d idx (p ++ ext)) := by
  induction p with
  | nil => exact fun d idx => trivial
  | cons c p ih =>
      intro d idx
      simp only [List.cons_append, scanFraction]
      by_cases hc : isdigit c = true
      · rw [if_pos hc, if_pos hc]
        exact ih _ _
      · rw [if_neg hc, if_neg hc]
        exact agrees_ok ext d (c :: p)

/-- The look for the terminator sees the same byte. -/
theorem agrees_closing (what : String) (a : α) (p : Str) :
    Agrees ext (closing what a p) (closing what a (p ++ ext)) := by
  refine agrees_skip ext _ _ (fun c q => ?_) p
  simp only [deref_cons, Res.ok_bind]
  by_cases hc : c = Ch.nul
  · rw [if_pos hc, if_pos hc]
    rfl
  · rw [if_neg hc, if_neg hc]
    exact agrees_ok ext a (c :: q)

/-- An integer with a byte behind it. -/
theorem agrees_parseInteger (p : Str) :
    Agrees ext (parseInteger p) (parseInteger (p ++ ext)) := by
  rw [parseInteger_eq, parseInteger_eq]
  refine agrees_skip ext _ _ (fun c q => ?_) p
  exact agrees_bind ext _ _ _ _ (agrees_scanDigits ext (c :: q) 0)
    (fun i q => agrees_closing ext _ i q) (fun i q' => trivial)

/-- A fraction with a byte behind it. -/
theorem agrees_parseDeciaml [DecimalImpl D] (c : UInt8) (q : Str) :
    Agrees ext (parseDeciaml (D := D) (c :: q)) (parseDeciaml (c :: (q ++ ext))) := by
  rw [parseDeciaml_eq, parseDeciaml_eq]
  simp only [List.drop_one, List.tail_cons]
  refine agrees_skip ext _ _ (fun c q => ?_) q
  exact agrees_bind ext _ _ _ _ (agrees_scanFraction ext (c :: q) _ _)
    (fun d q => agrees_closing ext _ d q) (fun d q' => trivial)

/-- The power is looked up under the same exponent. -/
theorem agrees_scaling [DecimalImpl D] (neg : Prop) [Decidable neg] (i : Int32) (p : Str) :
    Agrees ext (scaling (D := D) neg (i, p)) (scaling neg (i, p ++ ext)) := by
  refine agrees_skip ext _ _ (fun c q => ?_) p
  simp only [deref_cons, Res.ok_bind, pows]
  by_cases hc : c = Ch.nul
  · rw [if_pos hc, if_pos hc]
    rfl
  · rw [if_neg hc, if_neg hc]
    by_cases hi : 0 ≤ i.toInt ∧ i.toInt < exponentLimit
    · simp only [if_pos hi, Res.ok_bind]
      exact agrees_ok ext _ (c :: q)
    · simp only [if_neg hi]
      rfl

/-- An exponent with a byte behind it. -/
theorem agrees_parseExponent [DecimalImpl D] (c : UInt8) (q : Str) :
    Agrees ext (parseExponent (D := D) (c :: q)) (parseExponent (c :: (q ++ ext))) := by
  rw [parseExponent_eq, parseExponent_eq]
  simp only [List.drop_one, List.tail_cons]
  refine agrees_skip ext _ _ (fun d r => ?_) q
  simp only [deref_cons, Res.ok_bind, List.tail_cons]
  -- A sign is skipped in both or in neither.
  by_cases hs : d = Ch.plus ∨ d = Ch.minus
  · rw [if_pos hs, if_pos hs]
    exact agrees_bind ext _ _ _ _ (agrees_parseInteger ext r)
      (fun i q => agrees_scaling ext _ i q) (fun i q' => trivial)
  · rw [if_neg hs, if_neg hs]
    exact agrees_bind ext _ _ _ _ (agrees_parseInteger ext (d :: r))
      (fun i q => agrees_scaling ext _ i q) (fun i q' => trivial)

/-- A number without its sign. Each part of it is over only at a byte that does not belong
    to it. -/
theorem agrees_parseUnsigned [DecimalImpl D] (neg : Bool) (p : Str) :
    Agrees ext (parseUnsigned (D := D) neg p) (parseUnsigned neg (p ++ ext)) := by
  cases p with
  | nil => trivial
  | cons c q =>
      simp only [parseUnsigned, Res.bind_def, List.cons_append, deref_cons, Res.ok_bind]
      -- Without a digit nothing is read.
      by_cases hc : isdigit c = true
      swap
      · rw [if_neg hc, if_neg hc]
        exact agrees_ok ext _ (c :: q)
      rw [if_pos hc, if_pos hc]
      refine agrees_bind ext _ _ _ _ (agrees_parseInteger ext (c :: q)) (fun i r => ?_)
        (fun i q' => trivial)
      cases r with
      | nil => trivial
      | cons d r =>
          simp only [List.cons_append, deref_cons, Res.ok_bind]
          -- The byte behind the digits decides, and it is the same in both texts.
          by_cases hd : d ≠ Ch.dot
          · rw [if_pos hd, if_pos hd]
            exact agrees_ok ext _ (d :: r)
          rw [if_neg hd, if_neg hd]
          refine agrees_bind ext _ _ _ _ (agrees_parseDeciaml ext d r) (fun a s => ?_)
            (fun a q' => trivial)
          cases s with
          | nil => trivial
          | cons e s =>
              simp only [List.cons_append, deref_cons, Res.ok_bind]
              by_cases he : e ≠ Ch.lowerE ∧ e ≠ Ch.upperE
              · rw [if_pos he, if_pos he]
                exact agrees_ok ext _ (e :: s)
              rw [if_neg he, if_neg he]
              exact agrees_bind ext _ _ _ _ (agrees_parseExponent ext e s)
                (fun x t => agrees_ok ext _ t) (fun x q' => ⟨q', rfl, Or.inr rfl⟩)

/-- A number with its sign. -/
theorem agrees_parseNumberImpl [DecimalImpl D] (c : UInt8) (q : Str) :
    Agrees ext (parseNumberImpl (D := D) (c :: q)) (parseNumberImpl (c :: (q ++ ext))) := by
  simp only [parseNumberImpl, Res.bind_def, deref_cons, Res.ok_bind, List.drop_one, List.tail_cons]
  by_cases hc : c = Ch.minus
  · rw [if_pos hc, if_pos hc]
    exact agrees_parseUnsigned ext true q
  · rw [if_neg hc, if_neg hc]
    exact agrees_parseUnsigned ext false (c :: q)

section Recursion

variable (D) [DecimalImpl D]

/-- At one bound, and any larger one for the longer text. -/
def AgreesAt (parser : Nat → Str → Res (Json D × Str)) (n : Nat) : Prop :=
  ∀ m p, n ≤ m → Agrees ext (parser n p) (parser m (p ++ ext))

/-- The same for the functions that start on a bracket. -/
def AgreesBehind (parser : Nat → Str → Res (Json D × Str)) (n : Nat) : Prop :=
  ∀ m c q, n ≤ m → Agrees ext (parser n (c :: q)) (parser m (c :: (q ++ ext)))

variable {D}

/-- A value. Only here can the cursor leave the shorter text without a fault. -/
theorem agreesImpl_succ (n : Nat) (hO : AgreesBehind D ext parseObject n)
    (hA : AgreesBehind D ext parseArray n) : AgreesAt D ext parseImpl (n + 1) := by
  intro m p hm
  cases m with
  | zero => omega
  | succ m =>
      simp only [parseImpl, Res.bind_def]
      refine agrees_skip ext _ _ (fun c q => ?_) p
      simp only [deref_cons, Res.ok_bind, Res.pure_def]
      -- A literal is taken by its length, which can run past the shorter text.
      have hdrop : ∀ (j : Json D) k, Agrees ext (.ok (j, (c :: q).drop k))
          (.ok (j, (c :: (q ++ ext)).drop k)) := by
        intro j k
        refine ⟨_, rfl, ?_⟩
        rw [← List.cons_append, List.drop_append]
        by_cases hk : k ≤ (c :: q).length
        · left
          rw [Nat.sub_eq_zero_of_le hk, List.drop_zero]
        · right
          exact List.drop_eq_nil_of_le (by omega)
      -- The same byte is looked at in both texts, so the same branch is taken.
      by_cases h0 : c = Ch.nul
      · rw [if_pos h0, if_pos h0]
        exact hdrop .null 0
      rw [if_neg h0, if_neg h0]
      by_cases h1 : c = Ch.lbrace
      · rw [if_pos h1, if_pos h1]
        exact hO m c q (by omega)
      rw [if_neg h1, if_neg h1]
      by_cases h2 : c = Ch.lbracket
      · rw [if_pos h2, if_pos h2]
        exact hA m c q (by omega)
      rw [if_neg h2, if_neg h2]
      by_cases h3 : c = Ch.quote
      · rw [if_pos h3, if_pos h3, h3, parseString_quote, parseString_quote]
        exact agrees_bind ext _ _ _ _ (agrees_scanString ext q) (fun s q => agrees_ok ext _ q)
          (fun s q' => ⟨q', rfl, Or.inr rfl⟩)
      rw [if_neg h3, if_neg h3]
      by_cases h4 : c = Ch.lowerN
      · rw [if_pos h4, if_pos h4]
        exact hdrop .null 4
      rw [if_neg h4, if_neg h4]
      by_cases h5 : c = Ch.lowerT
      · rw [if_pos h5, if_pos h5]
        exact hdrop (.boolean true) 4
      rw [if_neg h5, if_neg h5]
      by_cases h6 : c = Ch.lowerF
      · rw [if_pos h6, if_pos h6]
        exact hdrop (.boolean false) 5
      rw [if_neg h6, if_neg h6]
      by_cases h7 : c = Ch.minus ∨ isdigit c = true ∨ c = Ch.dot
      · rw [if_pos h7, if_pos h7]
        exact agrees_parseNumberImpl ext c q
      · rw [if_neg h7, if_neg h7]
        exact hdrop .null 0

/-- An object, from its bracket. -/
theorem agreesObject_succ (n : Nat) (hM : ∀ o, AgreesAt D ext (parseMembers · o) n) :
    AgreesBehind D ext parseObject (n + 1) := by
  intro m c q hm
  cases m with
  | zero => omega
  | succ m =>
      simp only [parseObject, Res.bind_def, List.drop_one, List.tail_cons]
      refine agrees_skip ext _ _ (fun d r => ?_) q
      simp only [deref_cons, Res.ok_bind, List.tail_cons]
      by_cases hb : d = Ch.rbrace
      · rw [if_pos hb, if_pos hb]
        exact agrees_ok ext _ r
      · rw [if_neg hb, if_neg hb]
        exact hM [] m (d :: r) (by omega)

/-- An array, from its bracket. -/
theorem agreesArray_succ (n : Nat) (hE : ∀ a, AgreesAt D ext (parseElems · a) n) :
    AgreesBehind D ext parseArray (n + 1) := by
  intro m c q hm
  cases m with
  | zero => omega
  | succ m =>
      simp only [parseArray, Res.bind_def, List.drop_one, List.tail_cons]
      refine agrees_skip ext _ _ (fun d r => ?_) q
      simp only [deref_cons, Res.ok_bind, List.tail_cons]
      by_cases hb : d = Ch.rbracket
      · rw [if_pos hb, if_pos hb]
        exact agrees_ok ext _ r
      · rw [if_neg hb, if_neg hb]
        exact hE [] m (d :: r) (by omega)

/-- The elements. A literal that has run past the text has no comma behind it there. -/
theorem agreesElems_succ (n : Nat) (hI : AgreesAt D ext parseImpl n)
    (hE : ∀ a, AgreesAt D ext (parseElems · a) n) (a : List (Json D)) :
    AgreesAt D ext (parseElems · a) (n + 1) := by
  intro m p hm
  cases m with
  | zero => omega
  | succ m =>
      simp only [parseElems, Res.bind_def]
      refine agrees_skip ext _ _ (fun c q => ?_) p
      -- Behind the value a comma or a bracket has to be read, so a cursor that has left
      -- the text is an overrun.
      refine agrees_bind ext _ _ _ _ (hI m (c :: q) (by omega)) (fun v r => ?_)
        (fun v q' => trivial)
      refine agrees_skip ext _ _ (fun d s => ?_) r
      simp only [deref_cons, Res.ok_bind, List.drop_one, List.tail_cons]
      by_cases hb : d = Ch.rbracket
      · rw [if_pos hb, if_pos hb]
        exact agrees_ok ext _ s
      rw [if_neg hb, if_neg hb]
      by_cases hc : d = Ch.comma
      · rw [if_pos hc, if_pos hc]
        exact hE _ m s (by omega)
      · rw [if_neg hc, if_neg hc]
        rfl

/-- The members, in which a name and a colon are read before the value. -/
theorem agreesMembers_succ (n : Nat) (hI : AgreesAt D ext parseImpl n)
    (hM : ∀ o, AgreesAt D ext (parseMembers · o) n) (o : List (Str × Json D)) :
    AgreesAt D ext (parseMembers · o) (n + 1) := by
  intro m p hm
  cases m with
  | zero => omega
  | succ m =>
      simp only [parseMembers, parseString, Res.bind_def]
      refine agrees_skip ext _ _ (fun c q => ?_) p
      -- The name: blanks are passed over twice, and then a string is scanned.
      rw [Res.bind_assoc, Res.bind_assoc]
      refine agrees_skip ext _ _ (fun c q => ?_) (c :: q)
      simp only [deref_cons, Res.ok_bind, List.drop_one, List.tail_cons]
      by_cases hq : c ≠ Ch.quote
      · rw [if_pos hq, if_pos hq]
        rfl
      rw [if_neg hq, if_neg hq]
      refine agrees_bind ext _ _ _ _ (agrees_scanString ext q) (fun key r => ?_)
        (fun key q' => trivial)
      refine agrees_skip ext _ _ (fun d s => ?_) r
      simp only [deref_cons, Res.ok_bind, List.tail_cons]
      by_cases hcol : d ≠ Ch.colon
      · rw [if_pos hcol, if_pos hcol]
        rfl
      rw [if_neg hcol, if_neg hcol]
      -- The value, and the byte behind it, which ends the object or the member.
      refine agrees_skip ext _ _ (fun e t => ?_) s
      refine agrees_bind ext _ _ _ _ (hI m (e :: t) (by omega)) (fun v u => ?_) ?_
      -- Whether the value can be assigned is decided before any byte behind it is read.
      swap
      · intro v q'
        rw [Json.assignMember]
        split
        · rfl
        · trivial
      rw [Json.assignMember]
      split
      · rfl
      rw [Res.ok_bind, Res.ok_bind]
      refine agrees_skip ext _ _ (fun d s => ?_) u
      simp only [deref_cons, Res.ok_bind, List.tail_cons]
      by_cases hb : d = Ch.rbrace
      · rw [if_pos hb, if_pos hb]
        exact agrees_ok ext _ s
      rw [if_neg hb, if_neg hb]
      by_cases hc : d = Ch.comma
      · rw [if_pos hc, if_pos hc]
        exact hM _ m s (by omega)
      · rw [if_neg hc, if_neg hc]
        rfl

/-- By induction on the bound of the shorter text. -/
theorem agrees_all (n : Nat) :
    AgreesAt D ext parseImpl n ∧ AgreesBehind D ext parseObject n ∧
      (∀ o, AgreesAt D ext (parseMembers · o) n) ∧ AgreesBehind D ext parseArray n ∧
      (∀ a, AgreesAt D ext (parseElems · a) n) := by
  induction n with
  | zero =>
      exact ⟨fun _ _ _ => trivial, fun _ _ _ _ => trivial, fun _ _ _ _ => trivial,
        fun _ _ _ _ => trivial, fun _ _ _ _ => trivial⟩
  | succ n ih =>
      rcases ih with ⟨hI, hO, hM, hA, hE⟩
      exact ⟨agreesImpl_succ ext n hO hA, agreesObject_succ ext n hM,
        agreesMembers_succ ext n hI hM, agreesArray_succ ext n hE, agreesElems_succ ext n hI hE⟩

end Recursion

/-- A parse that ends within the text ignores what follows it. -/
theorem parse_append [DecimalImpl D] (p : Str) (h : parse (D := D) p ≠ .fault .overrun) :
    parse (D := D) (p ++ ext) = parse p := by
  have hagrees := (agrees_all (D := D) ext (3 * p.length + 3)).1 (3 * (p ++ ext).length + 3) p
    (by rw [List.length_append]; omega)
  have hwithin := parseImpl_within (D := D) (3 * p.length + 3) p (by omega)
  -- The bound of the model is not in the way, in either text.
  have hfollows := follows_parseImpl (D := D) (3 * p.length + 3) [] p
  simp only [parse, Res.bind_def] at h ⊢
  cases hr : parseImpl (D := D) (3 * p.length + 3) p with
  | ok x =>
      rw [hr] at hagrees
      rcases hagrees with ⟨q', hq', _⟩
      rw [hq']
      rfl
  | throw e =>
      rw [hr] at hagrees
      have hq' : parseImpl (3 * (p ++ ext).length + 3) (p ++ ext) = .throw e := hagrees
      rw [hq']
  | fault x =>
      rw [hr] at h hagrees hwithin hfollows
      cases x with
      | powIndex =>
          have hq' : parseImpl (D := D) (3 * (p ++ ext).length + 3) (p ++ ext)
              = .fault .powIndex := hagrees
          rw [hq']
      | doubleFree =>
          have hq' : parseImpl (D := D) (3 * (p ++ ext).length + 3) (p ++ ext)
              = .fault .doubleFree := hagrees
          rw [hq']
      | overrun => exact absurd rfl h
      | fuel => exact absurd rfl hwithin
      | overflow => exact absurd hfollows id

/-- Outside all brackets the machine is never waiting for a comma, nor inside
    a literal: there it stops as soon as the value is complete. -/
def Next.Nested : Next → Prop
  | .go m K => K = [] → m ≠ .after ∧ ∀ k, m ≠ .skip k
  | .stop _ => True

theorem go_nested (m : Mode) (x : Ctx) (K : List Ctx) : (Next.go m (x :: K)).Nested :=
  fun h => absurd h (List.cons_ne_nil x K)

/-- A value has been put in its place, so what is left of the brackets was there before. -/
theorem placed_nested (m : Mode) (K : Option (List Ctx)) : (placed m K).Nested := by
  rcases K with _ | _ | ⟨x, K⟩
  · trivial
  · trivial
  · exact go_nested m x K

/-- A comma or a closing bracket behind a value. -/
theorem settle_nested (K : List Ctx) (c : UInt8) : (settle K c).Nested := by
  cases K with
  -- Outside all brackets there is nothing to settle.
  | nil => trivial
  | cons x K =>
      simp only [settle]
      split
      · exact go_nested _ x K
      split
      · exact placed_nested _ _
      split
      · exact go_nested _ x K
      · trivial

/-- The end of a value, behind which the bytes of the next token may stand. -/
theorem finish_nested (K : List Ctx) (c : UInt8) : (finish K c).Nested := by
  unfold finish
  split
  · -- It was the outermost value, and the machine stops.
    trivial
  · exact settle_nested _ c

/-- The first byte of a value. -/
theorem startValue_nested (K : List Ctx) (c : UInt8) : (startValue K c).Nested := by
  -- Modes in which it may be anywhere.
  have hgo : ∀ m L, m ≠ .after → (∀ k, m ≠ .skip k) → (Next.go m L).Nested :=
    fun m L h h' _ => ⟨h, h'⟩
  unfold startValue
  split
  · exact hgo _ _ (by decide) (fun k h => by cases h)
  split
  · exact hgo _ _ (by decide) (fun k h => by cases h)
  split
  · exact hgo _ _ (by decide) (fun k h => by cases h)
  split
  · exact placed_nested _ _
  split
  · exact placed_nested _ _
  split
  · exact hgo _ _ (by decide) (fun k h => by cases h)
  split
  · exact hgo _ _ (by decide) (fun k h => by cases h)
  · exact finish_nested K c

/-- A byte does not lead outside the brackets unless the value is complete. -/
theorem step_nested (m : Mode) (K : List Ctx) (c : UInt8) (h : (Next.go m K).Nested) :
    (step m K c).Nested := by
  have hgo : ∀ m L, m ≠ .after → (∀ k, m ≠ .skip k) → (Next.go m L).Nested :=
    fun m L h h' _ => ⟨h, h'⟩
  cases m with
  | after => exact settle_nested K c
  | skip k =>
      -- Inside a literal there are brackets, by assumption.
      have hK : K ≠ [] := fun hK => (h hK).2 k rfl
      cases k <;> exact fun h' => absurd h' hK
  | escape isKey s => exact hgo _ _ (by simp) (by simp)
  -- Everywhere else the branches of the step are told apart by the lemmas above.
  | _ =>
      simp only [step, endInteger, endFraction, endExponent]
      repeat' split
      all_goals first
        | exact hgo _ _ (by simp) (by simp)
        | exact placed_nested _ _
        | exact finish_nested _ _
        | exact startValue_nested _ _
        | trivial

/-- The byte that keeps a machine in mode `m` from stopping. -/
def Mode.food : Mode → UInt8
  | .minus => Ch.zero
  | _ => Ch.space

/-- There is always a byte that keeps the machine going: a blank, or a digit behind a minus. -/
theorem step_food (m : Mode) (K : List Ctx) (h : (Next.go m K).Nested) :
    ∃ m' K', step m K m.food = .go m' K' := by
  cases m with
  | after =>
      cases K with
      -- Outside the brackets it does not wait for a comma.
      | nil => exact absurd rfl (h rfl).1
      | cons x K => exact ⟨.after, x :: K, rfl⟩
  | skip k => cases k <;> exact ⟨_, _, rfl⟩
  | _ => exact ⟨_, _, rfl⟩

/-- Nor does a whole run lead outside, by induction on the text. -/
theorem behind_nested (p : Str) :
    ∀ m K, (Next.go m K).Nested → (behind m K p).Nested := by
  induction p with
  | nil => exact fun m K h => h
  | cons c p ih =>
      intro m K h
      have hs := step_nested m K c h
      simp only [behind]
      cases hc : step m K c with
      | go m' K' =>
          rw [hc] at hs
          exact ih m' K' hs
      | stop s => trivial

/-- A run that has not stopped can be kept from stopping, for any number of
    bytes. -/
theorem feed_extend (n : Nat) :
    ∀ m K, (Next.go m K).Nested → ∃ r : Str, r.length = n ∧ feed m K r = none := by
  induction n with
  | zero => exact fun m K _ => ⟨[], rfl, rfl⟩
  | succ n ih =>
      intro m K h
      -- One byte keeps it going, and so do the others behind it.
      rcases step_food m K h with ⟨m', K', hc⟩
      have hs := step_nested m K m.food h
      rw [hc] at hs
      rcases ih m' K' hs with ⟨r, hr, hf⟩
      refine ⟨m.food :: r, by rw [List.length_cons, hr], ?_⟩
      rw [feed_cons, hc]
      exact hf

/-- A text that is not enough for the parser can be followed by any number of
    bytes that are not enough either. -/
theorem parse_overrun_extend [DecimalImpl D] (p : Str) (n : Nat)
    (h : parse (D := D) p = .fault .overrun) :
    ∃ r : Str, r.length = n ∧ parse (D := D) (p ++ r) = .fault .overrun := by
  rw [parse_eq_overrun_iff, verdict, feed_eq_none_iff] at h
  rcases h with ⟨m, K, hb⟩
  -- Where the machine stands behind the text, it can be kept going.
  have hn := behind_nested p .value [] (fun _ => ⟨by decide, fun k h => by cases h⟩)
  rw [hb] at hn
  rcases feed_extend n m K hn with ⟨r, hr, hf⟩
  refine ⟨r, hr, ?_⟩
  rw [parse_eq_overrun_iff, verdict, feed_append, hb]
  exact hf

end Scan

end Vsjson
