import Trpc.Core.Parser

/-!
# The Values the Parser Makes

What is true of every value `parse` returns, whatever the text was. Its objects
list their keys in order, since every member goes in through `SortedMap.insert`.
Its strings and keys could have stood between the quotes of some text, since
that is where they come from: `rawSafe` is the condition that a string, put
between quotes as it is, is read back up to the closing quote and no further.

## Main definitions

* `rawSafe`: No bare quote inside, and no backslash at the very end.
* `Json.Strings`: All strings and keys of a value satisfy a predicate.
* `Json.NoDecimal`: No number of a value is a `double`.
* `Json.Readable`: What the parser guarantees of a value.

## Theorems

* `scanString_rawSafe`: A safe string is read back from between its quotes.
* `rawSafe_of_scanString`: What is read from between quotes is safe.
* `parse_readable`: Every parsed value is readable.
-/

namespace Vsjson

open parser

variable {α β D : Type}

/-- Going through a string as `parseString` does, a backslash taking the next
    byte along, no quote is met and the last byte is not such a backslash. -/
def rawSafe : Str → Bool
  | [] => true
  | c :: s =>
    if c = Ch.quote then false
    else if c = Ch.backslash then
      match s with
      | [] => false
      | _ :: s => rawSafe s
    else rawSafe s

theorem rawSafe_backslash (e : UInt8) (s : Str) : rawSafe (Ch.backslash :: e :: s) = rawSafe s :=
    rfl

theorem rawSafe_other (c : UInt8) (s : Str) (hq : c ≠ Ch.quote) (hb : c ≠ Ch.backslash) :
    rawSafe (c :: s) = rawSafe s := by
  cases s <;> simp only [rawSafe, if_neg hq, if_neg hb]

/-- A string without quotes and backslashes is safe. -/
theorem rawSafe_of_plain (s : Str) (h : ∀ c ∈ s, c ≠ Ch.quote ∧ c ≠ Ch.backslash) :
    rawSafe s = true := by
  induction s with
  | nil => rfl
  | cons c s ih =>
      rcases h c List.mem_cons_self with ⟨hq, hb⟩
      rw [rawSafe_other c s hq hb]
      exact ih (fun d hd => h d (List.mem_cons_of_mem c hd))

/-- A safe string is read back up to its closing quote. -/
theorem scanString_rawSafe (s p : Str) (h : rawSafe s = true) :
    scanString (s ++ Ch.quote :: p) = .ok (s, p) := by
  fun_induction rawSafe s with
  | case1 => exact scanString_quote p
  -- A quote inside, or a backslash with nothing behind it: both are excluded.
  | case2 s => exact absurd h (by decide)
  | case3 _ => exact absurd h (by decide)
  | case4 _ e s ih =>
      rw [List.cons_append, List.cons_append, scanString_backslash, ih h]
      rfl
  | case5 c s hq hb ih =>
      rw [List.cons_append, scanString_other c _ hq hb, ih h]
      rfl

/-- What the loop of `parseString` returns is safe. -/
theorem rawSafe_of_scanString (p s q : Str) (h : scanString p = .ok (s, q)) :
    rawSafe s = true := by
  fun_induction scanString p generalizing s with
  | case1 => cases h
  | case2 p =>
      cases h
      rfl
  | case3 => cases h
  -- The byte behind a backslash is never looked at, so the rest decides.
  | case4 _ e p ih =>
      rcases Res.bind_eq_ok _ _ _ h with ⟨⟨s', q'⟩, hr, hs⟩
      cases hs
      rw [rawSafe_backslash]
      exact ih s' hr
  | case5 c p hq hb ih =>
      rcases Res.bind_eq_ok _ _ _ h with ⟨⟨s', q'⟩, hr, hs⟩
      cases hs
      rw [rawSafe_other c s' hq hb]
      exact ih s' hr

namespace Json

mutual

/-- Every string and every key inside a value satisfies `P`. -/
def Strings (P : Str → Prop) : Json D → Prop
  | .object members => StringsMembers P members
  | .array elems => StringsElems P elems
  | .string s => P s
  | _ => True

/-- `Strings` along an array. -/
def StringsElems (P : Str → Prop) : List (Json D) → Prop
  | [] => True
  | j :: js => Strings P j ∧ StringsElems P js

/-- `Strings` along an object, keys included. -/
def StringsMembers (P : Str → Prop) : List (Str × Json D) → Prop
  | [] => True
  | (k, j) :: ms => P k ∧ Strings P j ∧ StringsMembers P ms

end

mutual

/-- No number inside a value is a `double`. -/
def NoDecimal : Json D → Prop
  | .object members => NoDecimalMembers members
  | .array elems => NoDecimalElems elems
  | .decimal _ => False
  | _ => True

/-- `NoDecimal` along an array. -/
def NoDecimalElems : List (Json D) → Prop
  | [] => True
  | j :: js => NoDecimal j ∧ NoDecimalElems js

/-- `NoDecimal` along an object. -/
def NoDecimalMembers : List (Str × Json D) → Prop
  | [] => True
  | (_, j) :: ms => NoDecimal j ∧ NoDecimalMembers ms

end

mutual

/-- `Strings` follows the predicate. -/
theorem strings_mono (P Q : Str → Prop) (h : ∀ s, P s → Q s) :
    ∀ j : Json D, Strings P j → Strings Q j
  | .null, _ => trivial
  | .object members, hj => stringsMembers_mono P Q h members hj
  | .array elems, hj => stringsElems_mono P Q h elems hj
  | .string s, hj => h s hj
  | .integer _, _ => trivial
  | .decimal _, _ => trivial
  | .boolean _, _ => trivial

theorem stringsElems_mono (P Q : Str → Prop) (h : ∀ s, P s → Q s) :
    ∀ js : List (Json D), StringsElems P js → StringsElems Q js
  | [], _ => trivial
  | j :: js, ⟨hj, hjs⟩ => ⟨strings_mono P Q h j hj, stringsElems_mono P Q h js hjs⟩

theorem stringsMembers_mono (P Q : Str → Prop) (h : ∀ s, P s → Q s) :
    ∀ ms : List (Str × Json D), StringsMembers P ms → StringsMembers Q ms
  | [], _ => trivial
  | (k, j) :: ms, ⟨hk, hj, hms⟩ =>
      ⟨h k hk, strings_mono P Q h j hj, stringsMembers_mono P Q h ms hms⟩

end

/-- What the parser guarantees: ordered objects, and strings that could have
    stood between quotes. -/
def Readable (j : Json D) : Prop := Wf j ∧ Strings (rawSafe · = true) j

theorem stringsElems_iff (P : Str → Prop) (js : List (Json D)) :
    StringsElems P js ↔ ∀ j ∈ js, Strings P j := by
  induction js with
  | nil => simp only [StringsElems, List.not_mem_nil, false_implies, implies_true]
  | cons j js ih => simp only [StringsElems, ih, List.forall_mem_cons]

/-- For an object it is a condition on every member. -/
theorem stringsMembers_iff (P : Str → Prop) (ms : List (Str × Json D)) :
    StringsMembers P ms ↔ ∀ e ∈ ms, P e.1 ∧ Strings P e.2 := by
  induction ms with
  | nil => simp only [StringsMembers, List.not_mem_nil, false_implies, implies_true]
  | cons e ms ih =>
      rcases e with ⟨k, j⟩
      simp only [StringsMembers, ih, List.forall_mem_cons, and_assoc]

theorem wfElems_iff (js : List (Json D)) : WfElems js ↔ ∀ j ∈ js, Wf j := by
  induction js with
  | nil => simp only [WfElems, List.not_mem_nil, false_implies, implies_true]
  | cons j js ih => simp only [WfElems, ih, List.forall_mem_cons]

theorem wfMembers_iff (ms : List (Str × Json D)) : WfMembers ms ↔ ∀ e ∈ ms, Wf e.2 := by
  induction ms with
  | nil => simp only [WfMembers, List.not_mem_nil, false_implies, implies_true]
  | cons e ms ih =>
      rcases e with ⟨k, j⟩
      simp only [WfMembers, ih, List.forall_mem_cons]

/-- An array is readable when its elements are. -/
theorem readable_array (js : List (Json D)) :
    Readable (.array js) ↔ ∀ j ∈ js, Readable j := by
  simp only [Readable, Wf, Strings, wfElems_iff, stringsElems_iff]
  constructor
  · rintro ⟨hw, hs⟩ j hj
    exact ⟨hw j hj, hs j hj⟩
  · intro h
    exact ⟨fun j hj => (h j hj).1, fun j hj => (h j hj).2⟩

/-- An object is readable when its keys are in order and safe and its values are readable. -/
theorem readable_object (ms : List (Str × Json D)) :
    Readable (.object ms) ↔
      SortedMap.Sorted ms ∧ ∀ e ∈ ms, rawSafe e.1 = true ∧ Readable e.2 := by
  simp only [Readable, Wf, Strings, wfMembers_iff, stringsMembers_iff]
  constructor
  · rintro ⟨⟨ho, hw⟩, hs⟩
    exact ⟨ho, fun e he => ⟨(hs e he).1, hw e he, (hs e he).2⟩⟩
  · rintro ⟨ho, h⟩
    exact ⟨⟨ho, fun e he => (h e he).2.1⟩, fun e he => ⟨(h e he).1, (h e he).2.2⟩⟩

/-- The step of `parseElems`. -/
theorem readable_append (js : List (Json D)) (j : Json D) (hjs : Readable (.array js))
    (hj : Readable j) : Readable (.array (js ++ [j])) := by
  rw [readable_array] at hjs ⊢
  intro x hx
  rcases List.mem_append.mp hx with hx | hx
  · exact hjs x hx
  · rw [List.mem_singleton.mp hx]
    exact hj

/-- The step of `parseMembers`. The order is kept by the insertion, whatever key comes. -/
theorem readable_insert (k : Str) (j : Json D) (ms : List (Str × Json D))
    (hk : rawSafe k = true) (hj : Readable j) (hms : Readable (.object ms)) :
    Readable (.object (SortedMap.insert k j ms)) := by
  rw [readable_object] at hms ⊢
  refine ⟨SortedMap.insert_sorted k j ms hms.1, fun e he => ?_⟩
  -- What is in the object now was in it before or has just come.
  rcases SortedMap.mem_insert k j ms e he with rfl | he
  · exact ⟨hk, hj⟩
  · exact hms.2 e he

end Json

/-- If a function returns, what it returns satisfies `Q`. -/
def Returns (Q : α → Prop) (r : Res (α × Str)) : Prop := ∀ a q, r = .ok (a, q) → Q a

theorem returns_bind (Q : α → Prop) (Q' : β → Prop) (r : Res (α × Str))
    (f : α × Str → Res (β × Str)) (h : Returns Q r) (hf : ∀ a q, Q a → Returns Q' (f (a, q))) :
    Returns Q' (r.bind f) := by
  intro b q hb
  rcases Res.bind_eq_ok r f _ hb with ⟨⟨a, q'⟩, hr, ha⟩
  exact hf a q' (h a q' hr) b q ha

theorem returns_step (Q : β → Prop) (r : Res α) (f : α → Res (β × Str))
    (hf : ∀ a, Returns Q (f a)) : Returns Q (r.bind f) := by
  intro b q hb
  rcases Res.bind_eq_ok r f _ hb with ⟨a, _, ha⟩
  exact hf a b q ha

/-- Where the assignment of a member comes to an end, the member has been put in. -/
theorem returns_assign {D : Type} (Q : β → Prop) (key : Str) (v : Json D)
    (o : List (Str × Json D)) (f : List (Str × Json D) → Res (β × Str))
    (hf : Returns Q (f (SortedMap.insert key v o))) :
    Returns Q ((Json.assignMember key v o).bind f) := by
  intro b q hb
  rcases Res.bind_eq_ok _ f _ hb with ⟨o', ho, ha⟩
  rw [Json.assignMember_ok key v o o' ho] at ha
  exact hf b q ha

theorem returns_ok (Q : α → Prop) (a : α) (q : Str) (h : Q a) : Returns Q (.ok (a, q)) := by
  intro b q' hb
  cases hb
  exact h

theorem returns_throw (Q : α → Prop) (e : Exn) : Returns Q (.throw e) := by
  intro b q hb
  cases hb

theorem returns_parseString (p : Str) : Returns (rawSafe · = true) (parseString p) := by
  simp only [parseString, Res.bind_def]
  refine returns_step _ _ _ (fun p => returns_step _ _ _ (fun c => ?_))
  split
  · exact returns_throw _ _
  · exact fun s q h => rawSafe_of_scanString _ s q h

/-- A number is an integer or a decimal, or nothing at all. -/
theorem returns_parseUnsigned [DecimalImpl D] (Q : Json D → Prop) (hnull : Q .null)
    (hint : ∀ i, Q (.integer i)) (hdec : ∀ d, Q (.decimal d)) (neg : Bool) (p : Str) :
    Returns Q (parseUnsigned (D := D) neg p) := by
  simp only [parseUnsigned, Res.bind_def]
  refine returns_step _ _ _ (fun c => ?_)
  split
  -- A byte that is no digit gives null: no digits were there at all.
  swap
  · exact returns_ok _ _ _ hnull
  refine returns_step _ _ _ (fun x => returns_step _ _ _ (fun c => ?_))
  split
  · exact returns_ok _ _ _ (hint _)
  refine returns_step _ _ _ (fun y => returns_step _ _ _ (fun c => ?_))
  split
  · exact returns_ok _ _ _ (hdec _)
  · exact returns_step _ _ _ (fun z => returns_ok _ _ _ (hdec _))

theorem returns_parseNumberImpl [DecimalImpl D] (Q : Json D → Prop) (hnull : Q .null)
    (hint : ∀ i, Q (.integer i)) (hdec : ∀ d, Q (.decimal d)) (p : Str) :
    Returns Q (parseNumberImpl (D := D) p) := by
  simp only [parseNumberImpl, Res.bind_def]
  refine returns_step _ _ _ (fun c => ?_)
  split <;> exact returns_parseUnsigned Q hnull hint hdec _ _

section Recursion

variable (D) [DecimalImpl D]

/-- The five recursive functions at one bound. -/
structure Returning (n : Nat) : Prop where
  impl : ∀ p, Returns Json.Readable (parseImpl (D := D) n p)
  object : ∀ p, Returns Json.Readable (parseObject (D := D) n p)
  members : ∀ o p, Json.Readable (.object o) →
    Returns Json.Readable (parseMembers (D := D) n o p)
  array : ∀ p, Returns Json.Readable (parseArray (D := D) n p)
  elems : ∀ a p, Json.Readable (.array a) → Returns Json.Readable (parseElems (D := D) n a p)

variable {D}

/-- A value of any kind, the functions below returning readable values. -/
theorem returning_impl (n : Nat) (h : Returning D n) (p : Str) :
    Returns Json.Readable (parseImpl (D := D) (n + 1) p) := by
  simp only [parseImpl, Res.bind_def]
  refine returns_step _ _ _ (fun p => returns_step _ _ _ (fun c => ?_))
  split
  · exact returns_ok _ _ _ ⟨trivial, trivial⟩
  split
  · exact h.object p
  split
  · exact h.array p
  split
  · -- Only here is something to show: a string satisfies the condition since it was read.
    exact returns_bind _ _ _ _ (returns_parseString p)
      (fun s q hs => returns_ok _ _ _ ⟨trivial, hs⟩)
  split
  · exact returns_ok _ _ _ ⟨trivial, trivial⟩
  split
  · exact returns_ok _ _ _ ⟨trivial, trivial⟩
  split
  · exact returns_ok _ _ _ ⟨trivial, trivial⟩
  split
  · exact returns_parseNumberImpl _ ⟨trivial, trivial⟩ (fun _ => ⟨trivial, trivial⟩)
      (fun _ => ⟨trivial, trivial⟩) p
  · exact returns_ok _ _ _ ⟨trivial, trivial⟩

/-- One member, and those behind it. -/
theorem returning_members (n : Nat) (h : Returning D n) (o : List (Str × Json D)) (p : Str)
    (ho : Json.Readable (.object o)) :
    Returns Json.Readable (parseMembers (D := D) (n + 1) o p) := by
  simp only [parseMembers, Res.bind_def]
  refine returns_step _ _ _ (fun p => ?_)
  refine returns_bind _ _ _ _ (returns_parseString p) (fun key q hkey => ?_)
  refine returns_step _ _ _ (fun p => returns_step _ _ _ (fun c => ?_))
  split
  · exact returns_throw _ _
  refine returns_step _ _ _ (fun p => ?_)
  refine returns_bind _ _ _ _ (h.impl p) (fun v q hv => ?_)
  have hinsert := Json.readable_insert key v o hkey hv ho
  -- An assignment that destroys the earlier value twice does not return.
  refine returns_assign _ key v o _ ?_
  refine returns_step _ _ _ (fun p => returns_step _ _ _ (fun c => ?_))
  split
  · exact returns_ok _ _ _ hinsert
  split
  · -- The members so far are the invariant of the loop.
    exact h.members _ _ hinsert
  · exact returns_throw _ _

/-- One element, and those behind it. -/
theorem returning_elems (n : Nat) (h : Returning D n) (a : List (Json D)) (p : Str)
    (ha : Json.Readable (.array a)) : Returns Json.Readable (parseElems (D := D) (n + 1) a p) := by
  simp only [parseElems, Res.bind_def]
  refine returns_step _ _ _ (fun p => ?_)
  refine returns_bind _ _ _ _ (h.impl p) (fun v q hv => ?_)
  refine returns_step _ _ _ (fun p => returns_step _ _ _ (fun c => ?_))
  have happend := Json.readable_append a v ha hv
  split
  · exact returns_ok _ _ _ happend
  split
  · exact h.elems _ _ happend
  · exact returns_throw _ _

/-- At every bound, by induction on it. -/
theorem returning_all (n : Nat) : Returning D n := by
  induction n with
  | zero =>
      -- Without any fuel nothing returns.
      constructor <;> intros <;> intro a q h <;> cases h
  | succ n ih =>
      have hobj : Json.Readable (.object [] : Json D) :=
        (Json.readable_object []).mpr ⟨SortedMap.sorted_nil, fun e he => absurd he List.not_mem_nil⟩
      have harr : Json.Readable (.array [] : Json D) :=
        (Json.readable_array []).mpr (fun e he => absurd he List.not_mem_nil)
      -- The two brackets open an empty container and leave the rest to the loops.
      refine ⟨returning_impl n ih, fun p => ?_, returning_members n ih, fun p => ?_,
        returning_elems n ih⟩
      · simp only [parseObject, Res.bind_def]
        refine returns_step _ _ _ (fun p => returns_step _ _ _ (fun c => ?_))
        split
        · exact returns_ok _ _ _ hobj
        · exact ih.members _ _ hobj
      · simp only [parseArray, Res.bind_def]
        refine returns_step _ _ _ (fun p => returns_step _ _ _ (fun c => ?_))
        split
        · exact returns_ok _ _ _ harr
        · exact ih.elems _ _ harr

end Recursion

/-- Whatever `parse` returns has its objects in order and no string that could
    not have stood between quotes. -/
theorem parse_readable [DecimalImpl D] (p : Str) (j : Json D) (h : parse p = .ok j) :
    j.Readable := by
  simp only [parse, Res.bind_def] at h
  -- What is left of the text behind the value is not looked at.
  rcases Res.bind_eq_ok _ _ _ h with ⟨⟨j', q⟩, hr, hj⟩
  cases hj
  exact (returning_all (D := D) _).impl p j' q hr

end Vsjson
