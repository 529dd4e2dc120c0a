import Trpc.Theory.Scan.Terminator
import Trpc.Theory.Scan.Tidy
import Trpc.Theory.Text.RoundTrip

/-!
# What the Parser Accepts

The parser keeps to the structure of a text. Where it returns, brackets, commas and
colons have been in their places, and what it returns is made up in the same way as the
text. What it does not check is the tokens: any byte that it does not know makes a
null, `n`, `t` and `f` are passed over by their length, a string ends at the first bare
quote, and a number may have space inside and parts missing.

So the parser is sound for a text if and only if it refuses the text, or there are
complete tokens wherever values and keys begin: `parseText_sound_iff`. In one direction
a derivation is built along the recursion of the parser; in the other, along a
derivation, the scanner is seen to find a token in each of these places.

An exponent behind an integer is in the grammar, but the parser stops in front of it.
Inside brackets the letter is refused then. Outside it is not looked at, and the number
in front of it is returned.

## Main definitions

* `Grammar.Complete`: What is read to its end is tidy.
* `Sound`: What is to hold of the parser and a text.

## Theorems

* `Grammar.sound_all`: What is read in a tidy text is in the grammar.
* `Grammar.complete_value`: What is in the grammar and is read to the end is tidy.
* `parseText_sound_iff`: The texts for which the parser is sound.
-/

namespace Vsjson

namespace Grammar

open parser Scan

variable {D : Type}

/-! ## One level of the recursion, taken apart -/

/-- `parseImpl` behind space. -/
def parseValue [DecimalImpl D] (n : Nat) (p : Str) : Res (Json D × Str) :=
  (deref p).bind fun c =>
    if c = Ch.nul then .ok (.null, p)
    else if c = Ch.lbrace then parseObject n p
    else if c = Ch.lbracket then parseArray n p
    else if c = Ch.quote then (parseString p).bind fun x => .ok (.string x.1, x.2)
    else if c = Ch.lowerN then .ok (.null, p.drop 4)
    else if c = Ch.lowerT then .ok (.boolean true, p.drop 4)
    else if c = Ch.lowerF then .ok (.boolean false, p.drop 5)
    else if c = Ch.minus ∨ isdigit c ∨ c = Ch.dot then parseNumberImpl p
    else .ok (.null, p)

/-- A value is read behind the space in front of it. -/
theorem parseImpl_ok [DecimalImpl D] (n : Nat) (p : Str) (j : Json D) (q : Str)
    (h : parseImpl (n + 1) p = .ok (j, q)) : parseValue n (behindSpace p) = .ok (j, q) := by
  have heq : parseImpl (D := D) (n + 1) p = (skipWhitespace p).bind (parseValue n) := rfl
  rw [heq] at h
  rcases Res.bind_eq_ok _ _ _ h with ⟨r, hr, h⟩
  rw [(skipWhitespace_ok p r hr).1] at h
  exact h

/-- An object is closed behind its brace, or its members begin there. -/
theorem parseObject_ok [DecimalImpl D] (n : Nat) (c : UInt8) (p : Str) (j : Json D) (q : Str)
    (h : parseObject (n + 1) (c :: p) = .ok (j, q)) :
    behindSpace p = Ch.rbrace :: q ∧ j = .object [] ∨
      ∃ d s, behindSpace p = d :: s ∧ d ≠ Ch.rbrace ∧ isWhitespace d = false ∧
        parseMembers n [] (d :: s) = .ok (j, q) := by
  simp only [parseObject, Res.bind_def, List.drop_one, List.tail_cons] at h
  rcases Res.bind_eq_ok _ _ _ h with ⟨r, hr, h⟩
  rcases skipWhitespace_ok p r hr with ⟨rfl, d, s, hds, hd⟩
  rw [hds, deref_cons, Res.ok_bind] at h
  by_cases hb : d = Ch.rbrace
  · rw [if_pos hb] at h
    cases h
    exact Or.inl ⟨by rw [hds, hb, List.tail_cons], rfl⟩
  · rw [if_neg hb] at h
    exact Or.inr ⟨d, s, hds, hb, hd, h⟩

/-- The same for an array and its elements. -/
theorem parseArray_ok [DecimalImpl D] (n : Nat) (c : UInt8) (p : Str) (j : Json D) (q : Str)
    (h : parseArray (n + 1) (c :: p) = .ok (j, q)) :
    behindSpace p = Ch.rbracket :: q ∧ j = .array [] ∨
      ∃ d s, behindSpace p = d :: s ∧ d ≠ Ch.rbracket ∧ isWhitespace d = false ∧
        parseElems n [] (d :: s) = .ok (j, q) := by
  simp only [parseArray, Res.bind_def, List.drop_one, List.tail_cons] at h
  rcases Res.bind_eq_ok _ _ _ h with ⟨r, hr, h⟩
  rcases skipWhitespace_ok p r hr with ⟨rfl, d, s, hds, hd⟩
  rw [hds, deref_cons, Res.ok_bind] at h
  by_cases hb : d = Ch.rbracket
  · rw [if_pos hb] at h
    cases h
    exact Or.inl ⟨by rw [hds, hb, List.tail_cons], rfl⟩
  · rw [if_neg hb] at h
    exact Or.inr ⟨d, s, hds, hb, hd, h⟩

/-- A value, and behind it the bracket or a comma and the other elements. -/
theorem parseElems_ok [DecimalImpl D] (n : Nat) (a : List (Json D)) (p : Str) (j : Json D) (q : Str)
    (h : parseElems (n + 1) a p = .ok (j, q)) :
    ∃ v r d s, parseImpl n (behindSpace p) = .ok (v, r) ∧ behindSpace r = d :: s ∧
      (d = Ch.rbracket ∧ j = .array (a ++ [v]) ∧ q = s ∨
        d = Ch.comma ∧ parseElems n (a ++ [v]) s = .ok (j, q)) := by
  simp only [parseElems, Res.bind_def] at h
  rcases Res.bind_eq_ok _ _ _ h with ⟨p', hp', h⟩
  rcases Res.bind_eq_ok _ _ _ h with ⟨⟨v, r⟩, hv, h⟩
  rcases Res.bind_eq_ok _ _ _ h with ⟨r', hr', h⟩
  rcases skipWhitespace_ok p p' hp' with ⟨rfl, _⟩
  rcases skipWhitespace_ok r r' hr' with ⟨rfl, d, s, hds, _⟩
  rw [hds, deref_cons, Res.ok_bind, List.drop_one, List.tail_cons] at h
  refine ⟨v, r, d, s, hv, hds, ?_⟩
  by_cases hb : d = Ch.rbracket
  · rw [if_pos hb] at h
    -- Anything else behind the value is refused.
    cases h
    exact Or.inl ⟨hb, rfl, rfl⟩
  · rw [if_neg hb] at h
    by_cases hc : d = Ch.comma
    · rw [if_pos hc] at h
      exact Or.inr ⟨hc, h⟩
    · rw [if_neg hc] at h
      cases h

/-- A name, a colon and a value that finds its place, and behind it the brace or a comma and
    the other members. -/
theorem parseMembers_ok [DecimalImpl D] (n : Nat) (m : List (Str × Json D)) (p : Str) (j : Json D)
    (q : Str) (h : parseMembers (n + 1) m p = .ok (j, q)) :
    ∃ p' k r s v t d u, behindSpace p = Ch.quote :: p' ∧ scanString p' = .ok (k, r) ∧
      behindSpace r = Ch.colon :: s ∧ parseImpl n (behindSpace s) = .ok (v, t) ∧
      behindSpace t = d :: u ∧
      Json.assignMember k v m = .ok (SortedMap.insert k v m) ∧
      (d = Ch.rbrace ∧ j = .object (SortedMap.insert k v m) ∧ q = u ∨
        d = Ch.comma ∧ parseMembers n (SortedMap.insert k v m) u = .ok (j, q)) := by
  simp only [parseMembers, parseString, Res.bind_def] at h
  rcases Res.bind_eq_ok _ _ _ h with ⟨p1, hp1, h⟩
  rcases Res.bind_eq_ok _ _ _ h with ⟨⟨k, r⟩, hk, h⟩
  rcases Res.bind_eq_ok _ _ _ h with ⟨r1, hr1, h⟩
  rcases skipWhitespace_ok p p1 hp1 with ⟨rfl, c, p', hcp, hc⟩
  rcases skipWhitespace_ok r r1 hr1 with ⟨rfl, c', s, hcs, _⟩
  -- The key.
  rw [hcp] at hk
  simp only [skipWhitespace, hc, Bool.false_eq_true, if_false, Res.ok_bind, deref_cons,
    List.drop_one, List.tail_cons] at hk
  by_cases hq : c = Ch.quote
  swap
  · rw [if_pos hq] at hk
    cases hk
  rw [if_neg (not_not.mpr hq)] at hk
  -- The colon and the value.
  rw [hcs, deref_cons, Res.ok_bind] at h
  by_cases hcol : c' = Ch.colon
  swap
  · rw [if_pos hcol] at h
    cases h
  rw [if_neg (not_not.mpr hcol), List.drop_one, List.tail_cons] at h
  rcases Res.bind_eq_ok _ _ _ h with ⟨s1, hs1, h⟩
  rcases Res.bind_eq_ok _ _ _ h with ⟨⟨v, t⟩, hv, h⟩
  rcases Res.bind_eq_ok _ _ _ h with ⟨m', hm', h⟩
  -- The parser has come back from the assignment, so nothing was freed twice.
  have hinsert := Json.assignMember_ok k v m m' hm'
  subst hinsert
  rcases Res.bind_eq_ok _ _ _ h with ⟨t1, ht1, h⟩
  rcases skipWhitespace_ok s s1 hs1 with ⟨rfl, _⟩
  rcases skipWhitespace_ok t t1 ht1 with ⟨rfl, d, u, hdu, _⟩
  rw [hdu, deref_cons, Res.ok_bind, List.drop_one, List.tail_cons] at h
  refine ⟨p', k, r, s, v, t, d, u, by rw [hcp, hq], hk, by rw [hcs, hcol], hv, hdu, hm', ?_⟩
  by_cases hb : d = Ch.rbrace
  · rw [if_pos hb] at h
    cases h
    exact Or.inl ⟨hb, rfl, rfl⟩
  · rw [if_neg hb] at h
    by_cases hc : d = Ch.comma
    · rw [if_pos hc] at h
      exact Or.inr ⟨hc, h⟩
    · rw [if_neg hc] at h
      cases h

/-! ## What is read is in the grammar -/

/-- Only a string begins with a quote. -/
theorem token_quote (p : Str) (h : Token (Ch.quote :: p)) : ∃ s q, Chars s p q := by
  cases h with
  | string s _ q hchars => exact ⟨s, q, hchars⟩
  | positive _ q hplain =>
      rcases plain_digit _ q hplain with ⟨d, s, hds, hd⟩
      cases hds
      exact absurd hd (by unfold IsDigit; decide)

/-- At a digit the parser goes to its numbers, past all other branches. -/
theorem parseValue_digit [DecimalImpl D] (n : Nat) (d : UInt8) (p : Str) (hd : IsDigit d) :
    parseValue (D := D) n (d :: p) = parseUnsigned false (d :: p) := by
  have hne : ∀ c, isdigit c = false → d ≠ c := fun c => digit_ne d c hd
  simp only [parseValue, deref_cons, Res.ok_bind, if_neg (hne Ch.nul rfl),
    if_neg (hne Ch.lbrace rfl), if_neg (hne Ch.lbracket rfl), if_neg (hne Ch.quote rfl),
    if_neg (hne Ch.lowerN rfl), if_neg (hne Ch.lowerT rfl), if_neg (hne Ch.lowerF rfl),
    parseNumberImpl, Res.bind_def, if_neg (hne Ch.minus rfl),
    if_pos (Or.inr (Or.inl hd) : d = Ch.minus ∨ isdigit d = true ∨ _)]

/-- A number owns no memory on the heap. -/
theorem unsigned_ownsHeap (neg : Bool) (p q : Str) (j : Json D) (h : Unsigned neg p j q) :
    j.ownsHeap = false := by
  cases h <;> rfl

/-- An array with elements does. -/
theorem elems_ownsHeap (p q : Str) (js : List (Json D)) (h : Elems p js q) :
    (Json.array js).ownsHeap = true := by
  cases h <;> rfl

/-- And so does an object to which a member has been assigned. -/
theorem insert_ownsHeap (k : Str) (j : Json D) (m : List (Str × Json D)) :
    (Json.object (SortedMap.insert k j m)).ownsHeap = true := by
  rw [Json.ownsHeap, SortedMap.insert_isEmpty]
  rfl

section Recursion

variable (D) [DecimalImpl D]

/-- In a tidy text, what the function reads is a value, and tidiness goes on behind it. -/
def SoundImpl (n : Nat) : Prop :=
  ∀ K p (j : Json D) q', parseImpl n p = .ok (j, q') → Tidy .value K p →
    (∃ q, Value (behindSpace p) j q ∧ behindSpace q' = behindSpace q) ∧
      TidyNext (ended j.ownsHeap K) q'

def SoundObject (n : Nat) : Prop :=
  ∀ K p (j : Json D) q', parseObject n (Ch.lbrace :: p) = .ok (j, q') →
    Tidy .firstKey (.obj [] [] :: K) (behindSpace p) →
    Value (Ch.lbrace :: p) j q' ∧ TidyNext (ended j.ownsHeap K) q'

def SoundMembers (n : Nat) : Prop :=
  ∀ K m key p (j : Json D) q', parseMembers n m p = .ok (j, q') →
    Tidy .key (.obj (owners m) key :: K) (behindSpace p) →
    (∃ ms, j = .object ms ∧ Members m (behindSpace p) ms q') ∧ TidyNext (ended j.ownsHeap K) q'

def SoundArray (n : Nat) : Prop :=
  ∀ K p (j : Json D) q', parseArray n (Ch.lbracket :: p) = .ok (j, q') →
    Tidy .firstElem (.arr :: K) (behindSpace p) →
    Value (Ch.lbracket :: p) j q' ∧ TidyNext (ended j.ownsHeap K) q'

def SoundElems (n : Nat) : Prop :=
  ∀ K a p (j : Json D) q', parseElems n a p = .ok (j, q') →
    Tidy .value (.arr :: K) (behindSpace p) →
    (∃ js, j = .array (a ++ js) ∧ Elems (behindSpace p) js q') ∧ TidyNext (ended true K) q'

variable {D}

/-- One value, token by token. What the machine does behind it depends on whether it owns
    memory. -/
theorem soundImpl_succ (n : Nat) (hO : SoundObject D n) (hA : SoundArray D n) :
    SoundImpl D (n + 1) := by
  intro K p j q' h ht
  replace h := parseImpl_ok n p j q' h
  replace ht := (value_space K p).tidy.mp ht
  have hhead := behindSpace_head p
  generalize behindSpace p = p at h ht hhead
  -- A tidy text stops at a byte that starts a value.
  have htoken : Token p := by
    cases p with
    | nil => cases h
    | cons c p => exact ((tidy_cons .value K c p).mp ht).1 (hhead c p rfl)
  cases htoken with
  | null q =>
      cases h
      exact ⟨⟨q, Value.null q, rfl⟩, (alike_null K q).tidy.mp ht⟩
  | true q =>
      cases h
      exact ⟨⟨q, Value.true q, rfl⟩, (alike_true K q).tidy.mp ht⟩
  | false q =>
      cases h
      exact ⟨⟨q, Value.false q, rfl⟩, (alike_false K q).tidy.mp ht⟩
  -- Literals and strings are read in the same way by both.
  | string s p q hchars =>
      have heq : parseValue (D := D) n (Ch.quote :: p)
          = (scanString p).bind fun x => .ok (.string x.1, x.2) := rfl
      rw [heq, scanString_chars s p q hchars] at h
      cases h
      exact ⟨⟨q, Value.string s p q hchars, rfl⟩, (alike_quote K s p q hchars).tidy.mp ht⟩
  | positive _ q hplain =>
      rcases plain_digit p q hplain with ⟨d, s, rfl, hd⟩
      rw [parseValue_digit n d s hd] at h
      -- The parser passes over the blanks behind a number too.
      rcases parseUnsigned_plain false (d :: s) q hplain j q' h with ⟨hnum, rfl, c, t, hct, hz⟩
      refine ⟨⟨q, Value.number _ j q (Number.positive _ j q hnum), behindSpace_twice q⟩, ?_⟩
      rw [unsigned_ownsHeap false _ q j hnum]
      exact (ended_space false K q).tidy.mp ((alike_positive K _ q hplain c t hct hz).tidy.mp ht)
  -- Behind the sign it is the same number.
  | negative p q hplain =>
      have heq : parseValue (D := D) n (Ch.minus :: p) = parseUnsigned true p := rfl
      rw [heq] at h
      rcases parseUnsigned_plain true p q hplain j q' h with ⟨hnum, rfl, c, t, hct, hz⟩
      refine ⟨⟨q, Value.number _ j q (Number.negative p j q hnum), behindSpace_twice q⟩, ?_⟩
      rw [unsigned_ownsHeap true p q j hnum]
      exact (ended_space false K q).tidy.mp ((alike_negative K p q hplain c t hct hz).tidy.mp ht)
  | array p =>
      rcases hA K p j q' h ((alike_array K p).tidy.mp ht) with ⟨hvalue, hrest⟩
      exact ⟨⟨q', hvalue, rfl⟩, hrest⟩
  | object p =>
      rcases hO K p j q' h ((alike_object K p).tidy.mp ht) with ⟨hvalue, hrest⟩
      exact ⟨⟨q', hvalue, rfl⟩, hrest⟩

/-- An object. Its first key is like any other, since it is not the brace. -/
theorem soundObject_succ (n : Nat) (hM : SoundMembers D n) : SoundObject D (n + 1) := by
  intro K p j q' h ht
  rcases parseObject_ok n _ p j q' h with ⟨hclose, rfl⟩ | ⟨d, s, hds, hb, hd, h⟩
  · rw [hclose] at ht
    have hend := alike_to .firstKey (.obj [] [] :: K) Ch.rbrace q' _ (fun hs => (by cases hs)) rfl
    exact ⟨Value.emptyObject p q' hclose, hend.tidy.mp ht⟩
  · rw [hds] at ht
    have ht := (firstKey_key (.obj [] [] :: K) d s hd hb).tidy.mp ht
    rw [← hds] at h ht
    -- The loop passes over space again, of which there is none.
    rw [← behindSpace_twice] at ht
    rcases hM K [] [] _ j q' h ht with ⟨⟨ms, rfl, hms⟩, hrest⟩
    rw [behindSpace_twice] at hms
    exact ⟨Value.object p ms q' hms, hrest⟩

/-- An array, in the same way. -/
theorem soundArray_succ (n : Nat) (hE : SoundElems D n) : SoundArray D (n + 1) := by
  intro K p j q' h ht
  rcases parseArray_ok n _ p j q' h with ⟨hclose, rfl⟩ | ⟨d, s, hds, hb, hd, h⟩
  · rw [hclose] at ht
    have hend := alike_to .firstElem (.arr :: K) Ch.rbracket q' _ (fun hs => absurd rfl hs.2) rfl
    exact ⟨Value.emptyArray p q' hclose, hend.tidy.mp ht⟩
  · rw [hds] at ht
    have ht := (firstElem_value (.arr :: K) d s hd hb).tidy.mp ht
    rw [← hds] at h ht
    rw [← behindSpace_twice] at ht
    rcases hE K [] _ j q' h ht with ⟨⟨js, rfl, hjs⟩, hrest⟩
    rw [behindSpace_twice] at hjs
    rw [List.nil_append, elems_ownsHeap _ q' js hjs]
    exact ⟨Value.array p js q' hjs, hrest⟩

/-- An element, what is behind it, and the elements that are left. -/
theorem soundElems_succ (n : Nat) (hI : SoundImpl D n) (hE : SoundElems D n) :
    SoundElems D (n + 1) := by
  intro K a p j q' h ht
  rcases parseElems_ok n a p j q' h with ⟨v, r, d, s, hv, hds, hnext⟩
  rcases hI (.arr :: K) _ v r hv ht with ⟨⟨q, hvalue, hq⟩, hrest⟩
  rw [behindSpace_twice] at hvalue
  -- Parser and grammar stop at different ends of the space, before the same byte.
  rw [hds] at hq
  rcases hnext with ⟨rfl, rfl, rfl⟩ | ⟨rfl, h⟩
  · exact ⟨⟨[v], rfl, Elems.last _ v q _ hvalue hq.symm⟩,
      (alike_close .arr K r _ hds).tidy.mp hrest⟩
  · rcases hE K _ s j q' h ((alike_comma .arr K r s hds).tidy.mp hrest) with ⟨⟨js, rfl, hjs⟩, hlast⟩
    exact ⟨⟨v :: js, by rw [List.append_assoc]; rfl, Elems.more _ v q s js q' hvalue hq.symm hjs⟩,
      hlast⟩

/-- A member, what is behind it, and the members that are left. -/
theorem soundMembers_succ (n : Nat) (hI : SoundImpl D n) (hM : SoundMembers D n) :
    SoundMembers D (n + 1) := by
  intro K m key p j q' h ht
  rcases parseMembers_ok n m p j q' h with
    ⟨p', k, r, s, v, t, d, u, hp, hk, hr, hv, hdu, hassign, hnext⟩
  rw [hp] at ht
  -- A tidy key is closed, so the scan of the parser is the one of the grammar.
  rcases token_quote p' (((tidy_cons .key _ Ch.quote p').mp ht).1 rfl) with ⟨k', r', hchars⟩
  rw [scanString_chars k' p' r' hchars] at hk
  cases hk
  have ht := (alike_key (.obj (owners m) key :: K) k p' r s hchars hr).tidy.mp ht
  rcases hI (.obj (owners m) k :: K) _ v t hv ht with ⟨⟨q, hvalue, hq⟩, hrest⟩
  -- The parser has got past the assignment, so the machine has too.
  rcases note_assignMember k v m K with ⟨hfree, _⟩ | ⟨_, hnote⟩
  · rw [hassign] at hfree
    cases hfree
  rw [ended, hnote, placed] at hrest
  rw [behindSpace_twice] at hvalue
  rw [hdu] at hq
  rw [hp]
  rcases hnext with ⟨rfl, rfl, rfl⟩ | ⟨rfl, h⟩
  · refine ⟨⟨_, rfl, Members.last m k p' r s v q _ hchars hr hvalue hq.symm⟩, ?_⟩
    rw [Json.assignMember_ok k v m _ hassign, insert_ownsHeap]
    exact (alike_close (.obj _ k) K t _ hdu).tidy.mp hrest
  · rcases hM K _ k u j q' h ((alike_comma (.obj _ k) K t u hdu).tidy.mp hrest) with
      ⟨⟨ms, rfl, hms⟩, hlast⟩
    exact ⟨⟨ms, rfl, Members.more m ms k p' r s v q u q' hchars hr hvalue hq.symm hms⟩, hlast⟩

/-- What is read in a tidy text is in the grammar, by induction on the recursion bound. -/
theorem sound_all (n : Nat) :
    SoundImpl D n ∧ SoundObject D n ∧ SoundMembers D n ∧ SoundArray D n ∧ SoundElems D n := by
  induction n with
  | zero =>
      exact ⟨fun _ _ _ _ h => (by cases h), fun _ _ _ _ h => (by cases h),
        fun _ _ _ _ _ _ h => (by cases h), fun _ _ _ _ h => (by cases h),
        fun _ _ _ _ _ h => (by cases h)⟩
  | succ n ih =>
      rcases ih with ⟨hI, hO, hM, hA, hE⟩
      exact ⟨soundImpl_succ n hO hA, soundObject_succ n hM, soundMembers_succ n hI hM,
        soundArray_succ n hE, soundElems_succ n hI hE⟩

end Recursion

/-! ## What is in the grammar is tidy -/

/-- If reading from here ends with a complete value, it is tidy. -/
def Complete (x : Next) (p : Str) : Prop := proceed x p = some .done → TidyNext x p

theorem complete_alike (x y : Next) (p q : Str) (h : Alike x p y q) (hq : Complete y q) :
    Complete x p := fun hdone => h.tidy.mpr (hq (h.feed.symm.trans hdone))

/-- A comma or a closing bracket comes next. -/
def Delimited (q : Str) : Prop := ∃ c s, behindSpace q = c :: s ∧ Delim c

/-- What is true of no delimiter is not true of the next byte. -/
theorem delimited_not (P : UInt8 → Prop) (q : Str) (h : Delimited q)
    (hP : ∀ c, Delim c → ¬ P c) : ¬ At P (behindSpace q) := by
  rcases h with ⟨c, s, hcs, hc⟩
  rw [hcs]
  exact hP c hc

theorem delim_not_exp (c : UInt8) (h : Delim c) : ¬ IsExp c := by
  unfold IsExp
  rcases h with rfl | rfl | rfl <;> decide

/-- Inside brackets the letter of an exponent is not passed behind an integer. -/
theorem digits_letter (x : Ctx) (K : List Ctx) (e : UInt8) (r : Str) (he : IsExp e) :
    feed .digits (x :: K) (e :: r) ≠ some .done := by
  have hstep : step .digits (x :: K) e = finish (x :: K) e := by
    rcases he with rfl | rfl <;> rfl
  rw [feed_cons, hstep, finish]
  rcases note_cons false x K with hnote | ⟨x', hnote, _, _⟩ <;> rw [hnote]
  · exact fun h => by cases h
  · rcases he with rfl | rfl <;> cases x' <;> exact fun h => by cases h

/-- Inside brackets, a number that is read to the end of the value around it. -/
theorem unsigned_nested (neg : Bool) (x : Ctx) (K : List Ctx) (d : UInt8) (p q : Str) (j : Json D)
    (h : Unsigned neg (d :: p) j q) (hd : Delimited q)
    (hfeed : feed .digits (x :: K) p = some .done) : Plain (d :: p) q := by
  have hdot : ¬ At (· = Ch.dot) (behindSpace q) :=
    delimited_not _ q hd (fun c hc => (delim_facts c hc).2.2.2)
  have hnoexp : ¬ At IsExp (behindSpace q) := delimited_not _ q hd delim_not_exp
  cases h with
  -- A delimiter is next, so there is neither a dot nor a letter.
  | integer n _ _ hint _ hexp => exact Plain.integer n _ q hint hdot hexp
  | decimal n d' _ r _ hint hfrac _ => exact Plain.decimal n _ r q hint hfrac hnoexp
  | scaled n k d' _ r _ hint hexp =>
      -- The machine stops at the letter.
      rcases intPart_digits n _ r hint with ⟨d'', p', heq, _, hp⟩
      cases heq
      have hat := (exp_letter k r q hexp).1
      rw [show feed .digits (x :: K) p = feed .digits (x :: K) r from
        (digits_alike (x :: K) _ n p r hp).feed] at hfeed
      cases r with
      | nil => cases hfeed
      | cons e r =>
          exact absurd hfeed (digits_letter x K e r hat)
  | full n k d' _ r r' _ hint hfrac hexp =>
      refine Plain.full n k _ r r' q hint hfrac hexp ?_
      rcases intPart_digits n _ r hint with ⟨d'', p', heq, _, hp⟩
      cases heq
      rcases hd with ⟨c, s, hcs, hc⟩
      have hclose : feed .digits (x :: K) p = proceed (endExponent (x :: K) (Int32.ofNat k) c) s :=
        (full_closing (x :: K) n k _ p r r' q hp hfrac hexp c s hcs).feed
      -- An exponent that is too large stops the machine inside the brackets.
      by_contra hrange
      rw [hclose] at hfeed
      simp only [endExponent, if_neg (delim_facts c hc).2.2.1, if_neg hrange] at hfeed
      cases hfeed

/-- A number inside brackets. Its first digit is where the machine begins. -/
theorem complete_number (x : Ctx) (K : List Ctx) (p q : Str) (j : Json D) (h : Number p j q)
    (hd : Delimited q) (hq : Complete (ended j.ownsHeap (x :: K)) q) :
    Complete (.go .value (x :: K)) p := by
  intro hdone
  have hdelim := hd
  rcases hdelim with ⟨c, s, hcs, hc⟩
  have hz := (delim_facts c hc).2.2.1
  cases h with
  | positive _ _ _ hnum =>
      rcases unsigned_intPart false p q j hnum with ⟨n, r, hint⟩
      rcases intPart_digits n p r hint with ⟨d, p', rfl, hdigit, _⟩
      have hfeed := hdone
      rw [proceed_go, feed_cons, step_digit (x :: K) d hdigit] at hfeed
      -- The machine has got to the end, so the number is one that the parser reads.
      have hplain := unsigned_nested false x K d p' q j hnum hd hfeed
      rw [unsigned_ownsHeap false _ q j hnum] at hq
      exact complete_alike _ _ _ _ (alike_positive (x :: K) _ q hplain c s hcs hz) hq hdone
  | negative p _ _ hnum =>
      rcases unsigned_intPart true p q j hnum with ⟨n, r, hint⟩
      rcases intPart_digits n p r hint with ⟨d, p', rfl, hdigit, _⟩
      have hfeed : feed .minus (x :: K) (d :: p') = some .done := hdone
      rw [feed_cons, step_minus (x :: K) d hdigit] at hfeed
      have hplain := unsigned_nested true x K d p' q j hnum hd hfeed
      rw [unsigned_ownsHeap true _ q j hnum] at hq
      exact complete_alike _ _ _ _ (alike_negative (x :: K) _ q hplain c s hcs hz) hq hdone

/-- A value begins with a byte that is no space, closes nothing and does not end the text. -/
theorem value_head (p q : Str) (j : Json D) (h : Value p j q) :
    ∃ c s, p = c :: s ∧ isWhitespace c = false ∧ c ≠ Ch.rbracket ∧ c ≠ Ch.nul := by
  cases h with
  | null q => exact ⟨_, _, rfl, rfl, by decide, by decide⟩
  | true q => exact ⟨_, _, rfl, rfl, by decide, by decide⟩
  | false q => exact ⟨_, _, rfl, rfl, by decide, by decide⟩
  | string s p q _ => exact ⟨_, _, rfl, rfl, by decide, by decide⟩
  | number _ _ _ hnum =>
      cases hnum with
      | positive _ _ _ hnum =>
          rcases unsigned_intPart _ p q j hnum with ⟨n, r, hint⟩
          rcases intPart_digits n p r hint with ⟨d, p', rfl, hd, _⟩
          exact ⟨d, p', rfl, not_isWhitespace_of_isdigit d hd, digit_ne d _ hd rfl,
            digit_ne d _ hd rfl⟩
      | negative p _ _ _ => exact ⟨_, _, rfl, rfl, by decide, by decide⟩
  | emptyArray p q _ => exact ⟨_, _, rfl, rfl, by decide, by decide⟩
  | array p js q _ => exact ⟨_, _, rfl, rfl, by decide, by decide⟩
  | emptyObject p q _ => exact ⟨_, _, rfl, rfl, by decide, by decide⟩
  | object p ms q _ => exact ⟨_, _, rfl, rfl, by decide, by decide⟩

/-- So do the elements of an array. -/
theorem elems_head (p q : Str) (js : List (Json D)) (h : Elems p js q) :
    ∃ c s, p = c :: s ∧ isWhitespace c = false ∧ c ≠ Ch.rbracket := by
  have hvalue : ∃ j r, Value (D := D) p j r := by
    cases h with
    | last _ j r _ hvalue => exact ⟨j, r, hvalue⟩
    | more _ j r _ _ _ hvalue => exact ⟨j, r, hvalue⟩
  rcases hvalue with ⟨j, r, hvalue⟩
  rcases value_head p r j hvalue with ⟨c, s, hp, hw, hc, _⟩
  exact ⟨c, s, hp, hw, hc⟩

/-- The members of an object begin with a quote. -/
theorem members_head (m m' : List (Str × Json D)) (p q : Str) (h : Members m p m' q) :
    ∃ s, p = Ch.quote :: s := by
  cases h with
  | last _ k p _ _ _ _ _ => exact ⟨p, rfl⟩
  | more _ _ k p _ _ _ _ _ _ => exact ⟨p, rfl⟩

/-- Elements that are read to the end make an array that is. -/
theorem complete_array (K : List Ctx) (p q : Str) (js : List (Json D))
    (h : Elems (behindSpace p) js q) (hc : Complete (.go .value (.arr :: K)) (behindSpace p)) :
    Complete (.go .value K) (Ch.lbracket :: p) := by
  rcases elems_head _ q js h with ⟨c, s, hp, hw, hb⟩
  have hopen := alike_array K p
  rw [hp] at hopen hc
  exact complete_alike _ _ _ _ (hopen.trans (firstElem_value (.arr :: K) c s hw hb)) hc

/-- And so do members. -/
theorem complete_object (K : List Ctx) (p q : Str) (ms : List (Str × Json D))
    (h : Members [] (behindSpace p) ms q)
    (hc : Complete (.go .key (.obj [] [] :: K)) (behindSpace p)) :
    Complete (.go .value K) (Ch.lbrace :: p) := by
  rcases members_head [] ms _ q h with ⟨s, hp⟩
  have hopen := alike_object K p
  rw [hp] at hopen hc
  exact complete_alike _ _ _ _
    (hopen.trans (firstKey_key (.obj [] [] :: K) Ch.quote s (by decide) (by decide))) hc

/-- Behind a member, if that has found its place. -/
theorem complete_member (heap : Bool) (names : List (Str × Bool)) (key : Str) (K : List Ctx)
    (q : Str) (h : ∀ names', Complete (.go .after (.obj names' key :: K)) q) :
    Complete (ended heap (.obj names key :: K)) q := by
  rw [ended, note]
  split
  · -- The machine stops at a double free, and has read nothing to the end.
    exact fun hdone => by cases hdone
  · exact h _

mutual

/-- What is in the grammar and is read to the end is tidy. Along the derivation, behind each
    value there is a delimiter. -/
theorem complete_value : ∀ {p q : Str} {j : Json D}, Value p j q → ∀ (x : Ctx) (K : List Ctx),
    Delimited q → Complete (ended j.ownsHeap (x :: K)) q → Complete (.go .value (x :: K)) p
  | _, _, _, .null q, x, K, _, hq => complete_alike _ _ _ _ (alike_null (x :: K) q) hq
  | _, _, _, .true q, x, K, _, hq => complete_alike _ _ _ _ (alike_true (x :: K) q) hq
  | _, _, _, .false q, x, K, _, hq => complete_alike _ _ _ _ (alike_false (x :: K) q) hq
  | _, _, _, .string s p q h, x, K, _, hq =>
      complete_alike _ _ _ _ (alike_quote (x :: K) s p q h) hq
  | _, _, _, .number p j q h, x, K, hd, hq => complete_number x K p q j h hd hq
  | _, _, _, .emptyArray p q h, x, K, _, hq =>
      complete_alike _ _ _ _ (alike_emptyArray (x :: K) p q h) hq
  | _, _, _, .array p js q h, x, K, _, hq =>
      complete_array (x :: K) p q js h
        (complete_elems h (x :: K) (by rwa [elems_ownsHeap _ q js h] at hq))
  | _, _, _, .emptyObject p q h, x, K, _, hq =>
      complete_alike _ _ _ _ (alike_emptyObject (x :: K) p q h) hq
  | _, _, _, .object p ms q h, x, K, _, hq =>
      complete_object (x :: K) p q ms h
        (complete_members h [] [] (x :: K) hq)

theorem complete_elems : ∀ {p q : Str} {js : List (Json D)}, Elems p js q → ∀ (K : List Ctx),
    Complete (ended true K) q → Complete (.go .value (.arr :: K)) p
  | _, _, _, .last p j q r h hr, K, hq =>
      complete_value h .arr K ⟨_, r, hr, Or.inr (Or.inl rfl)⟩
        (complete_alike _ _ _ _ (alike_close .arr K q r hr) hq)
  | _, _, _, .more p j q r js t h hr hrest, K, hq =>
      complete_value h .arr K ⟨_, r, hr, Or.inl rfl⟩
        (complete_alike _ _ _ _ (alike_comma .arr K q r hr) (complete_elems hrest K hq))

theorem complete_members : ∀ {m m' : List (Str × Json D)} {p q : Str}, Members m p m' q →
    ∀ (names : List (Str × Bool)) (key : Str) (K : List Ctx),
      Complete (ended (Json.object m').ownsHeap K) q → Complete (.go .key (.obj names key :: K)) p
  | _, _, _, _, .last m k p q r _ t u hk hr h hu, names, key, K, hq =>
      complete_alike _ _ _ _ (alike_key (.obj names key :: K) k p q r hk hr)
        (complete_value h (.obj names k) K ⟨_, u, hu, Or.inr (Or.inr rfl)⟩
          (complete_member _ names k K t fun names' =>
            complete_alike _ _ _ _ (alike_close (.obj names' k) K t u hu)
              (by rwa [insert_ownsHeap] at hq)))
  | _, _, _, _, .more m _ k p q r _ t u _ hk hr h hu hrest, names, key, K, hq =>
      complete_alike _ _ _ _ (alike_key (.obj names key :: K) k p q r hk hr)
        (complete_value h (.obj names k) K ⟨_, u, hu, Or.inl rfl⟩
          (complete_member _ names k K t fun names' =>
            complete_alike _ _ _ _ (alike_comma (.obj names' k) K t u hu)
              (complete_members hrest names' k K hq)))

end

/-! ## Whole texts -/

/-- Behind an integer that a dot follows there is a decimal or nothing. -/
theorem parseRest_dot [DecimalImpl D] (neg : Bool) (i : Int32) (t : Str)
    (h : At (· = Ch.dot) t) (j : Json D) (r : Str) (hr : parseRest neg i t = .ok (j, r)) :
    ∃ d, j = .decimal d := by
  cases t with
  | nil => exact absurd h id
  | cons c t =>
      have hc : c = Ch.dot := h
      rw [parseRest, deref_cons, Res.ok_bind, if_neg (not_not.mpr hc)] at hr
      rcases Res.bind_eq_ok _ _ _ hr with ⟨x, _, hr⟩
      rcases Res.bind_eq_ok _ _ _ hr with ⟨c', _, hr⟩
      by_cases he : c' ≠ Ch.lowerE ∧ c' ≠ Ch.upperE
      · rw [if_pos he] at hr
        cases hr
        exact ⟨_, rfl⟩
      · rw [if_neg he] at hr
        rcases Res.bind_eq_ok _ _ _ hr with ⟨y, _, hr⟩
        cases hr
        exact ⟨_, rfl⟩

theorem behindSpace_length (p : Str) : (behindSpace p).length ≤ p.length :=
  (List.dropWhile_suffix _).length_le

/-- Not inside brackets, a number that the parser has read up to its end. -/
theorem unsigned_top [DecimalImpl D] (neg : Bool) (p q q' : Str) (j : Json D)
    (h : Unsigned neg p j q) (hparse : parseUnsigned neg p = .ok (j, q'))
    (hq : behindSpace q' = behindSpace q) :
    Plain p q ∧ ∃ c s, behindSpace q = c :: s ∧ c ≠ Ch.nul := by
  cases h with
  | integer n _ _ hint _ hexp =>
      rcases parseUnsigned_intPart neg n p q hint _ q' hparse with ⟨t, hland, hrest⟩
      rcases hland with ⟨rfl, hnext⟩
      -- With a dot behind it, it would not have been an integer.
      refine ⟨Plain.integer n p q hint (fun hdot => ?_) hexp, hnext⟩
      rcases parseRest_dot neg _ _ hdot _ q' hrest with ⟨d, hd⟩
      cases hd
  | decimal n d _ r _ hint hfrac _ =>
      rcases parseUnsigned_intPart neg n p r hint _ q' hparse with ⟨t, hland, hrest⟩
      rcases parseRest_frac neg _ r q t hland hfrac _ q' hrest with
        ⟨d', u, _, ⟨rfl, hnext⟩, ⟨hat, rfl⟩ | ⟨hat, e, he⟩⟩
      · exact ⟨Plain.decimal n p r q hint hfrac hat, hnext⟩
      · -- The parser has gone on behind the letter.
        rcases hnext with ⟨c, s, hcs, _⟩
        rw [hcs] at he hq
        have hwithin := within_parseExponent (D := D) c s
        rw [he] at hwithin
        have hle := behindSpace_length q'
        rw [hq] at hle
        have hlt : q'.length ≤ s.length := hwithin
        simp only [List.length_cons] at hle
        omega
  | scaled n k d _ r _ hint hexp =>
      rcases parseUnsigned_intPart neg n p r hint _ q' hparse with ⟨t, hland, hrest⟩
      have hletter := exp_letter k r q hexp
      -- A letter stands there, so it is no dot, and the parser would have made an integer of
      -- it.
      have hdot : ¬ At (· = Ch.dot) (behindSpace r) := by
        rw [hletter.2]
        cases r with
        | nil => exact id
        | cons e r =>
            rintro (rfl : e = Ch.dot)
            rcases hletter.1 with h | h <;> cases h
      cases (parseRest_integer neg _ r t hland hdot _ q' hrest).1
  | full n k d _ r r' _ hint hfrac hexp =>
      rcases parseUnsigned_intPart neg n p r hint _ q' hparse with ⟨t, hland, hrest⟩
      have hletter := exp_letter k r' q hexp
      rcases parseRest_frac neg _ r r' t hland hfrac _ q' hrest with
        ⟨d', u, _, ⟨rfl, _⟩, ⟨hat, _⟩ | ⟨_, e, he⟩⟩
      · -- The letter is there, and was looked at.
        rw [hletter.2] at hat
        exact absurd hletter.1 hat
      · rw [hletter.2] at he
        rcases parseExponent_exp k r' q hexp e q' he with ⟨hrange, rfl, hnext⟩
        exact ⟨Plain.full n k p r r' q hint hfrac hexp hrange, hnext⟩

theorem complete_ended (heap : Bool) (q : Str) : Complete (ended heap []) q := fun _ => trivial

/-- A value of the grammar with nothing around it, which the parser has read. -/
theorem complete_top [DecimalImpl D] (n : Nat) (p q q' : Str) (j : Json D) (h : Value p j q)
    (hparse : parseValue n p = .ok (j, q')) (hq : behindSpace q' = behindSpace q) :
    Complete (.go .value []) p := by
  cases h with
  | null q => exact complete_alike _ _ _ _ (alike_null [] q) (complete_ended _ q)
  | true q => exact complete_alike _ _ _ _ (alike_true [] q) (complete_ended _ q)
  | false q => exact complete_alike _ _ _ _ (alike_false [] q) (complete_ended _ q)
  | string s p q hs => exact complete_alike _ _ _ _ (alike_quote [] s p q hs) (complete_ended _ q)
  | number _ _ _ hnum =>
      cases hnum with
      | positive _ _ _ hnum =>
          rcases unsigned_intPart false p q j hnum with ⟨m, r, hint⟩
          rcases intPart_digits m p r hint with ⟨d, p', rfl, hd, _⟩
          rw [parseValue_digit n d p' hd] at hparse
          -- Nothing comes behind the number that would tell where it ends, but the parser
          -- has read it.
          rcases unsigned_top false _ q q' j hnum hparse hq with ⟨hplain, c, s, hcs, hz⟩
          exact complete_alike _ _ _ _ (alike_positive [] _ q hplain c s hcs hz)
            (complete_ended _ q)
      | negative p _ _ hnum =>
          rcases unsigned_top true p q q' j hnum hparse hq with ⟨hplain, c, s, hcs, hz⟩
          exact complete_alike _ _ _ _ (alike_negative [] p q hplain c s hcs hz)
            (complete_ended _ q)
  | emptyArray p q hp =>
      exact complete_alike _ _ _ _ (alike_emptyArray [] p q hp) (complete_ended _ q)
  | array p js q hjs =>
      exact complete_array [] p q js hjs (complete_elems hjs [] (complete_ended true q))
  | emptyObject p q hp =>
      exact complete_alike _ _ _ _ (alike_emptyObject [] p q hp) (complete_ended _ q)
  | object p ms q hms =>
      exact complete_object [] p q ms hms (complete_members hms [] [] [] (complete_ended true q))

end Grammar

open Grammar in
/-- `parse` throws a `JsonException`, or it returns what the value at the beginning of
    the text denotes, and has read this value and no more than space behind it. -/
def Sound (D : Type) [DecimalImpl D] (s : Str) : Prop :=
  (∃ what, parseText (D := D) s = .throw (.json what)) ∨
    ∃ (j : Json D) (q' q : Str),
      parser.parseImpl (3 * (s ++ [Ch.nul]).length + 3) (s ++ [Ch.nul]) = .ok (j, q') ∧
        parseText s = .ok j ∧ Value (behindSpace (s ++ [Ch.nul])) j q ∧
        behindSpace q' = behindSpace q

open Grammar in
/-- When the parser returns, soundness is a matter of the one value it returns. -/
theorem sound_of_ok [DecimalImpl D] (s : Str) (j : Json D) (q' : Str)
    (h : parser.parseImpl (3 * (s ++ [Ch.nul]).length + 3) (s ++ [Ch.nul]) = .ok (j, q')) :
    Sound D s ↔ ∃ q, Value (behindSpace (s ++ [Ch.nul])) j q ∧ behindSpace q' = behindSpace q := by
  have hparse : parseText s = .ok j := by
    simp only [parseText, parse, Res.bind_def, h]
    rfl
  constructor
  · rintro (⟨what, hthrow⟩ | ⟨j', r', q, hr, _, hvalue, hq⟩)
    · rw [hparse] at hthrow
      cases hthrow
    · rw [h] at hr
      cases hr
      exact ⟨q, hvalue, hq⟩
  · rintro ⟨q, hvalue, hq⟩
    exact Or.inr ⟨j, q', q, h, hparse, hvalue, hq⟩

/-- A fault is neither a value nor a `JsonException`. -/
theorem not_sound_of_fault [DecimalImpl D] (s : Str) (f : Fault)
    (h : parseText (D := D) s = .fault f) : ¬ Sound D s := by
  rintro (⟨what, hthrow⟩ | ⟨j, q', q, _, hok, _, _⟩)
  · rw [h] at hthrow
    cases hthrow
  · rw [h] at hok
    cases hok

open Grammar Scan in
/-- The parser is sound for the texts that it refuses, and for those in which every
    value and every key begins with a complete token. -/
theorem parseText_sound_iff [DecimalImpl D] (s : Str) :
    Sound D s ↔ verdict (s ++ [Ch.nul]) = some .throw ∨
      verdict (s ++ [Ch.nul]) = some .done ∧ Tidy .value [] (s ++ [Ch.nul]) := by
  rcases parse_spec (D := D) (s ++ [Ch.nul]) with
    ⟨j, h, hv⟩ | ⟨what, h, hv⟩ | ⟨h, hv⟩ | ⟨h, hv⟩ | ⟨h, hv⟩
  · -- A value is returned: the two directions are those of the grammar.
    rcases Res.bind_eq_ok _ _ _ h with ⟨⟨j', q'⟩, himpl, _⟩
    rw [sound_of_ok s j' q' himpl, hv]
    constructor
    · rintro ⟨q, hvalue, hq⟩
      have hcomplete := complete_top _ _ q q' j' hvalue (parseImpl_ok _ _ j' q' himpl) hq
      exact Or.inr ⟨rfl, complete_alike _ _ _ _ (value_space [] _) hcomplete hv⟩
    · rintro (hthrow | ⟨_, htidy⟩)
      · cases hthrow
      · exact ((sound_all _).1 [] _ j' q' himpl htidy).1
  · exact ⟨fun _ => Or.inl hv, fun _ => Or.inl ⟨what, h⟩⟩
  · refine ⟨fun hsound => absurd hsound (not_sound_of_fault s _ h), ?_⟩
    rw [hv]
    rintro (hstop | ⟨hstop, _⟩) <;> cases hstop
  · refine ⟨fun hsound => absurd hsound (not_sound_of_fault s _ h), ?_⟩
    rw [hv]
    rintro (hstop | ⟨hstop, _⟩) <;> cases hstop
  · refine ⟨fun hsound => absurd hsound (not_sound_of_fault s _ h), ?_⟩
    rw [hv]
    rintro (hstop | ⟨hstop, _⟩) <;> cases hstop

/-- The empty text is read as null. -/
theorem parseText_empty : ¬ ∀ s, Sound Unit s := by
  intro h
  rcases h [] with ⟨what, hthrow⟩ | ⟨j, q', q, _, _, hvalue, _⟩
  · cases hthrow
  · rcases Grammar.value_head _ q j hvalue with ⟨c, s, hcs, _, _, hz⟩
    cases hcs
    exact hz rfl

end Vsjson
