import Trpc.Core.Dump
import Trpc.Theory.Scan.Prefix
import Trpc.Theory.Text.Values

/-!
# Printing and Reading Back

`parse` against `dump`. A printed value is read back as itself when its strings
are safe between quotes, and the reading does not look at anything behind the
printed text except the one byte that ends a number. The proof follows the
value: `Reads` says that a printed value is consumed and nothing more, for one
constructor at a time, with the loops of `parseObject` and `parseArray` keeping
the members and elements read so far.

When some string is not safe the printed text means something else, or nothing
at all: whatever `parse` returns has safe strings only (`parse_readable`), so
it cannot be the value that was printed.

## Main definitions

* `Delim`: The bytes that end a value inside brackets.
* `Reads`: A printed value is read back, up to the delimiter behind it.
* `Json.Printable`: The values that are read back.

## Theorems

* `scanDigits_printNat`: A number is read back from its digits.
* `reads_dump`: A printable value is read back.
* `parse_dump_append`: A printed container, with anything behind it.
* `parseText_dump_iff`: When a printed container is read back as itself.
* `parseText_dump_quote`: A container that is not.
-/

namespace Vsjson

open parser

variable {D : Type}

/-! ## Numbers -/

theorem isdigit_digitChar : ∀ d, d < 10 → isdigit (digitChar d) = true := by decide

theorem digitVal_digitChar : ∀ d, d < 10 → digitVal (digitChar d) = Int32.ofNat d := by decide

/-- The digit loop over a printed number, most significant digit first. -/
theorem scanDigits_digits (ds : List Nat) (hds : ∀ d ∈ ds, d < 10) (c : UInt8) (p : Str)
    (hc : isdigit c = false) :
    ∀ n, scanDigits (Int32.ofNat n) (ds.map digitChar ++ c :: p)
      = .ok (Int32.ofNat (ds.foldl (fun n d => n * 10 + d) n), c :: p) := by
  induction ds with
  | nil =>
      intro n
      simp only [List.map_nil, List.nil_append, scanDigits, hc, Bool.false_eq_true, if_false,
        List.foldl_nil]
  | cons d ds ih =>
      intro n
      have hd : d < 10 := hds d List.mem_cons_self
      -- The loop adds in an `int`, where printing divided a natural number.
      have hval : Int32.ofNat n * 10 + digitVal (digitChar d) = Int32.ofNat (n * 10 + d) := by
        rw [digitVal_digitChar d hd, Int32.ofNat_add, Int32.ofNat_mul]
        rfl
      simp only [List.map_cons, List.cons_append, scanDigits, isdigit_digitChar d hd, if_true,
        List.foldl_cons]
      rw [hval]
      exact ih (fun e he => hds e (List.mem_cons_of_mem d he)) _

theorem foldl_reverse_digits (n : Nat) :
    (Nat.digits 10 n).reverse.foldl (fun n d => n * 10 + d) 0 = n := by
  rw [List.foldl_reverse]
  have h := Nat.ofDigits_digits 10 n
  rw [Nat.ofDigits_eq_foldr] at h
  simpa only [Nat.cast_id, Nat.add_comm, Nat.mul_comm] using h

/-- A natural number starts with a digit and is read back by the digit loop. -/
theorem scanDigits_printNat (n : Nat) (c : UInt8) (p : Str) (hc : isdigit c = false) :
    scanDigits 0 (printNat n ++ c :: p) = .ok (Int32.ofNat n, c :: p) := by
  unfold printNat
  -- Zero has no digits in Mathlib and is printed as one.
  by_cases hn : n = 0
  · subst hn
    exact scanDigits_digits [0] (by decide) c p hc 0
  · rw [if_neg hn]
    have h := scanDigits_digits (Nat.digits 10 n).reverse
      (fun d hd => Nat.digits_lt_base (by decide) (List.mem_reverse.mp hd)) c p hc 0
    rwa [foldl_reverse_digits] at h

/-- A printed number begins with a digit. -/
theorem printNat_cons (n : Nat) : ∃ d s, printNat n = digitChar d :: s ∧ d < 10 := by
  unfold printNat
  by_cases hn : n = 0
  · rw [if_pos hn]
    exact ⟨0, [], rfl, by decide⟩
  · rw [if_neg hn]
    have hne : (Nat.digits 10 n).reverse ≠ [] := by
      rw [Ne, List.reverse_eq_nil_iff, Nat.digits_eq_nil_iff_eq_zero]
      exact hn
    rcases List.exists_cons_of_ne_nil hne with ⟨d, ds, hd⟩
    refine ⟨d, ds.map digitChar, by rw [hd, List.map_cons], ?_⟩
    exact Nat.digits_lt_base (by decide)
      (List.mem_reverse.mp (by rw [hd]; exact List.mem_cons_self))

/-- The bytes that end a value inside brackets. -/
def Delim (c : UInt8) : Prop := c = Ch.comma ∨ c = Ch.rbracket ∨ c = Ch.rbrace

theorem skipWhitespace_other (c : UInt8) (p : Str) (hc : isWhitespace c = false) :
    skipWhitespace (c :: p) = .ok (c :: p) := by
  simp only [skipWhitespace, hc, Bool.false_eq_true, if_false]

theorem delim_facts (c : UInt8) (h : Delim c) :
    isWhitespace c = false ∧ isdigit c = false ∧ c ≠ Ch.nul ∧ c ≠ Ch.dot := by
  rcases h with rfl | rfl | rfl <;> decide

theorem digit_facts : ∀ d, d < 10 → isWhitespace (digitChar d) = false ∧
    digitChar d ≠ Ch.nul ∧ digitChar d ≠ Ch.lbrace ∧ digitChar d ≠ Ch.lbracket ∧
    digitChar d ≠ Ch.quote ∧ digitChar d ≠ Ch.lowerN ∧ digitChar d ≠ Ch.lowerT ∧
    digitChar d ≠ Ch.lowerF ∧ digitChar d ≠ Ch.minus := by decide

/-- A printed number is read back behind its sign. -/
theorem parseUnsigned_printNat [DecimalImpl D] (neg : Bool) (n : Nat) (c : UInt8) (p : Str)
    (hc : Delim c) :
    parseUnsigned (D := D) neg (printNat n ++ c :: p)
      = .ok (.integer (if neg then -Int32.ofNat n else Int32.ofNat n), c :: p) := by
  rcases delim_facts c hc with ⟨hw, hd, hnul, hdot⟩
  have hscan := scanDigits_printNat n c p hd
  rcases printNat_cons n with ⟨d, s, hs, hd10⟩
  rw [hs, List.cons_append] at hscan ⊢
  simp only [parseUnsigned, parseInteger, Res.bind_def, deref_cons, Res.ok_bind,
    isdigit_digitChar d hd10, if_true, skipWhitespace_other _ _ (digit_facts d hd10).1, hscan,
    skipWhitespace_other c p hw, if_neg hnul, Res.pure_def, ne_eq, hdot, not_false_eq_true]

/-! ## Values -/

/-- `j`, printed and followed by a delimiter, is read back up to it, with any
    recursion bound that is large enough for the text. -/
def Reads [DecimalImpl D] (j : Json D) : Prop :=
  ∀ n c p, Delim c → 3 * (dump j).length + 1 ≤ n →
    parseImpl n (dump j ++ c :: p) = .ok (j, c :: p)

/-- An integer, whose sign is printed in front of its absolute value. -/
theorem reads_integer [DecimalImpl D] (i : Int32) : Reads (.integer i : Json D) := by
  intro n c p hc hn
  cases n with
  | zero => exact absurd hn (by omega)
  | succ n =>
      simp only [dump, printInt]
      by_cases hi : i.toInt < 0
      · -- The least `int` has no counterpart, but its negation in an `int` is itself.
        have hval : -Int32.ofNat i.toInt.natAbs = i := by
          have habs : ((i.toInt.natAbs : Nat) : Int) = -i.toInt := by omega
          rw [← Int32.ofInt_eq_ofNat, ← Int32.ofInt_neg, habs, Int.neg_neg, Int32.ofInt_toInt]
        have hu := parseUnsigned_printNat (D := D) true i.toInt.natAbs c p hc
        simp only [if_pos hi, List.cons_append, parseImpl, Res.bind_def,
          skipWhitespace_other Ch.minus _ (by decide), Res.ok_bind, deref_cons, parseNumberImpl]
        simp only [if_true, hval] at hu
        exact hu
      · have hval : Int32.ofNat i.toInt.natAbs = i := by
          have habs : ((i.toInt.natAbs : Nat) : Int) = i.toInt := by omega
          rw [← Int32.ofInt_eq_ofNat, habs, Int32.ofInt_toInt]
        have hu := parseUnsigned_printNat (D := D) false i.toInt.natAbs c p hc
        rw [if_neg hi]
        rcases printNat_cons i.toInt.natAbs with ⟨d, s, hs, hd10⟩
        -- The first digit is none of the bytes that start another kind.
        rcases digit_facts d hd10 with ⟨hw, h1, h2, h3, h4, h5, h6, h7, h8⟩
        rw [hs, List.cons_append] at hu ⊢
        simp only [parseImpl, Res.bind_def, skipWhitespace_other _ _ hw, Res.ok_bind, deref_cons,
          if_neg h1, if_neg h2, if_neg h3, if_neg h4, if_neg h5, if_neg h6, if_neg h7,
          isdigit_digitChar d hd10, true_or, or_true, if_true, parseNumberImpl, if_neg h8]
        simpa only [Bool.false_eq_true, if_false, hval] using hu

/-- A string. -/
theorem reads_string [DecimalImpl D] (s : Str) (hs : rawSafe s = true) :
    Reads (.string s : Json D) := by
  intro n c p _ hn
  cases n with
  | zero => exact absurd hn (by omega)
  | succ n =>
      have hscan := scanString_rawSafe s (c :: p) hs
      simp only [dump, printString, List.cons_append, List.append_assoc, List.nil_append,
        parseImpl, Res.bind_def, skipWhitespace_other Ch.quote _ (by decide), Res.ok_bind,
        deref_cons]
      simp only [Scan.parseString_quote, hscan]
      rfl

/-- The three words. They are skipped over by their length. -/
theorem reads_literal [DecimalImpl D] (j : Json D) (h : j = .null ∨ ∃ b, j = .boolean b) :
    Reads j := by
  intro n c p _ hn
  cases n with
  | zero => exact absurd hn (by omega)
  | succ n =>
      rcases h with rfl | ⟨b, rfl⟩
      · rfl
      · cases b <;> rfl

/-! ## Loops -/

/-- The parser often skips space where it has been skipped. -/
theorem skipWhitespace_twice {β : Type} (f : Str → Res β) (p : Str) :
    ((skipWhitespace p).bind fun q => (skipWhitespace q).bind f) = (skipWhitespace p).bind f := by
  induction p with
  | nil => rfl
  | cons c p ih =>
      by_cases hc : isWhitespace c = true
      · simpa only [skipWhitespace, if_pos hc] using ih
      · simp only [skipWhitespace, if_neg hc, Res.ok_bind]

/-- So it does in front of a value. -/
theorem skip_parseImpl [DecimalImpl D] (n : Nat) (p : Str) (hn : 0 < n) :
    (skipWhitespace p).bind (parseImpl (D := D) n) = parseImpl n p := by
  cases n with
  | zero => exact absurd hn (by omega)
  | succ n =>
      simp only [parseImpl, Res.bind_def]
      exact skipWhitespace_twice _ p

/-- One element of an array, the value having been read up to `d`. -/
theorem parseElems_step [DecimalImpl D] (n : Nat) (a : List (Json D)) (v : Json D) (d : UInt8)
    (p q : Str) (hn : 0 < n) (hd : Delim d) (hv : parseImpl n p = .ok (v, d :: q)) :
    parseElems (n + 1) a p =
      if d = Ch.rbracket then .ok (.array (a ++ [v]), q)
      else if d = Ch.comma then parseElems n (a ++ [v]) q
      else .throw (.json "arrary parse failure: unknown reason") := by
  simp only [parseElems, Res.bind_def]
  -- The space in front of the element is skipped by the loop and by `parseImpl`.
  rw [← Res.bind_assoc, skip_parseImpl n p hn, hv]
  simp only [Res.ok_bind, skipWhitespace_other d q (delim_facts d hd).1, deref_cons, Res.pure_def,
    List.drop_one, List.tail_cons]

/-- One member of an object, the value having been read up to `d`. -/
theorem parseMembers_step [DecimalImpl D] (n : Nat) (o : List (Str × Json D)) (k : Str)
    (v : Json D) (d : UInt8) (p q : Str) (hn : 0 < n) (hd : Delim d) (hk : rawSafe k = true)
    (hv : parseImpl n p = .ok (v, d :: q)) :
    parseMembers (n + 1) o (printString k ++ Ch.colon :: p)
      = (Json.assignMember k v o).bind fun o =>
          if d = Ch.rbrace then .ok (.object o, q)
          else if d = Ch.comma then parseMembers n o q
          else .throw (.json "object parse failure: unknown reason") := by
  have hscan := scanString_rawSafe k (Ch.colon :: p) hk
  simp only [printString, List.cons_append, List.append_assoc, List.nil_append]
  simp only [parseMembers, parseString, Res.bind_def, Res.ok_bind,
    skipWhitespace_other Ch.quote _ (by decide), deref_cons, ne_eq, not_true_eq_false, if_false,
    List.drop_one, List.tail_cons]
  -- The key is read up to its quote, and a colon comes directly behind.
  rw [hscan]
  simp only [Res.ok_bind, skipWhitespace_other Ch.colon _ (by decide), deref_cons,
    not_true_eq_false, if_false, List.tail_cons]
  rw [← Res.bind_assoc, skip_parseImpl n p hn, hv]
  simp only [Res.ok_bind, skipWhitespace_other d q (delim_facts d hd).1, deref_cons, Res.pure_def,
    List.tail_cons]

/-- The loop of `parseArray` over printed elements. -/
theorem parseElems_dumpElems [DecimalImpl D] (js : List (Json D)) (hjs : ∀ j ∈ js, Reads j)
    (hne : js ≠ []) (p : Str) :
    ∀ n a, 3 * (dumpElems js).length + 2 ≤ n →
      parseElems n a (dumpElems js ++ Ch.rbracket :: p) = .ok (.array (a ++ js), p) := by
  induction js with
  | nil => exact absurd rfl hne
  | cons j js ih =>
      intro n a hn
      have hj := hjs j List.mem_cons_self
      cases n with
      | zero => exact absurd hn (by omega)
      | succ n =>
          -- The last element ends at the bracket, the others at a comma.
          cases js with
          | nil =>
              simp only [dumpElems, List.isEmpty_nil, if_true, List.append_nil] at hn ⊢
              have hread := hj n Ch.rbracket p (Or.inr (Or.inl rfl)) (by omega)
              rw [parseElems_step n a j _ _ _ (by omega) (Or.inr (Or.inl rfl)) hread, if_pos rfl]
          | cons j' js =>
              have hdump : dumpElems (j :: j' :: js) = dump j ++ Ch.comma :: dumpElems (j' :: js) :=
                rfl
              rw [hdump] at hn ⊢
              simp only [List.length_append, List.length_cons] at hn
              rw [List.append_assoc, List.cons_append]
              have hread := hj n Ch.comma (dumpElems (j' :: js) ++ Ch.rbracket :: p) (Or.inl rfl)
                (by omega)
              rw [parseElems_step n a j _ _ _ (by omega) (Or.inl rfl) hread,
                if_neg (by decide), if_pos rfl,
                ih (fun x hx => hjs x (List.mem_cons_of_mem j hx)) (List.cons_ne_nil j' js) n _
                  (by omega),
                List.append_assoc, List.singleton_append]

/-- The loop of `parseObject` over printed members, behind the members `o`. -/
theorem parseMembers_dumpMembers [DecimalImpl D] (ms : List (Str × Json D))
    (hms : ∀ e ∈ ms, rawSafe e.1 = true ∧ Reads e.2) (hne : ms ≠ []) (p : Str) :
    ∀ n o, SortedMap.Sorted (o ++ ms) → 3 * (dumpMembers ms).length + 2 ≤ n →
      parseMembers n o (dumpMembers ms ++ Ch.rbrace :: p) = .ok (.object (o ++ ms), p) := by
  induction ms with
  | nil => exact absurd rfl hne
  | cons e ms ih =>
      intro n o ho hn
      rcases e with ⟨k, j⟩
      have hk : rawSafe k = true := (hms (k, j) List.mem_cons_self).1
      have hj : Reads j := (hms (k, j) List.mem_cons_self).2
      -- The members come in order, so each is new and is inserted at the end.
      have habove := SortedMap.above_of_sorted o k j ms ho
      have hassign : Json.assignMember k j o = .ok (o ++ [(k, j)]) := by
        rw [Json.assignMember_new k j o (SortedMap.lookup_of_above k o habove),
          SortedMap.insert_of_above k j o habove]
      cases n with
      | zero => exact absurd hn (by omega)
      | succ n =>
          -- As for elements: a brace, or a comma.
          cases ms with
          | nil =>
              simp only [dumpMembers, List.isEmpty_nil, if_true, List.append_nil,
                List.length_append, List.length_cons] at hn ⊢
              rw [List.append_assoc, List.cons_append]
              have hread := hj n Ch.rbrace p (Or.inr (Or.inr rfl)) (by omega)
              rw [parseMembers_step n o k j _ _ _ (by omega) (Or.inr (Or.inr rfl)) hk hread,
                hassign, Res.ok_bind, if_pos rfl]
          | cons e' ms =>
              have hdump : dumpMembers ((k, j) :: e' :: ms)
                  = printString k ++ Ch.colon :: (dump j ++ Ch.comma :: dumpMembers (e' :: ms)) :=
                rfl
              rw [hdump] at hn ⊢
              simp only [List.length_append, List.length_cons] at hn
              simp only [List.append_assoc, List.cons_append]
              have hread := hj n Ch.comma (dumpMembers (e' :: ms) ++ Ch.rbrace :: p) (Or.inl rfl)
                (by omega)
              -- The members read so far and those to come are in order together.
              have hsorted : SortedMap.Sorted ((o ++ [(k, j)]) ++ e' :: ms) := by
                rwa [List.append_assoc, List.singleton_append]
              rw [parseMembers_step n o k j _ _ _ (by omega) (Or.inl rfl) hk hread, hassign,
                Res.ok_bind, if_neg (by decide), if_pos rfl,
                ih (fun x hx => hms x (List.mem_cons_of_mem _ hx)) (List.cons_ne_nil e' ms) n _
                  hsorted (by omega),
                List.append_assoc, List.singleton_append]

/-! ## Containers -/

/-- A printed value starts with a byte that the parser takes for its start. -/
theorem dump_cons [DecimalImpl D] (j : Json D) (hj : j.NoDecimal) :
    ∃ c s, dump j = c :: s ∧ isWhitespace c = false ∧ c ≠ Ch.rbracket := by
  cases j with
  | null => exact ⟨_, _, rfl, by decide, by decide⟩
  | object members => exact ⟨_, _, rfl, by decide, by decide⟩
  | array elems => exact ⟨_, _, rfl, by decide, by decide⟩
  | string s => exact ⟨_, _, rfl, by decide, by decide⟩
  | decimal d => exact absurd hj id
  | boolean b => cases b <;> exact ⟨_, _, rfl, by decide, by decide⟩
  | integer i =>
      simp only [dump, printInt]
      by_cases hi : i.toInt < 0
      · rw [if_pos hi]
        exact ⟨_, _, rfl, by decide, by decide⟩
      · rw [if_neg hi]
        rcases printNat_cons i.toInt.natAbs with ⟨d, s, hs, hd⟩
        have hfacts : ∀ d, d < 10 → isWhitespace (digitChar d) = false ∧
            digitChar d ≠ Ch.rbracket := by decide
        exact ⟨_, _, hs, hfacts d hd⟩

/-- A printed array is read back whatever comes behind it. -/
theorem parseImpl_dump_array [DecimalImpl D] (js : List (Json D)) (hjs : ∀ j ∈ js, Reads j)
    (hd : ∀ j ∈ js, j.NoDecimal) (n : Nat) (p : Str)
    (hn : 3 * (dump (.array js)).length + 1 ≤ n) :
    parseImpl n (dump (.array js) ++ p) = .ok (.array js, p) := by
  simp only [dump, List.length_cons, List.length_append] at hn
  obtain ⟨m, rfl⟩ : ∃ m, n = m + 2 := ⟨n - 2, by omega⟩
  have hopen : parseImpl (D := D) (m + 2) (dump (.array js) ++ p)
      = parseArray (m + 1) (dump (.array js) ++ p) := rfl
  rw [hopen, dump, List.cons_append, List.append_assoc, List.singleton_append]
  simp only [parseArray, Res.bind_def, List.drop_one, List.tail_cons]
  -- An empty array ends at once. Another must not look like one.
  cases js with
  | nil => rfl
  | cons j js =>
      rcases dump_cons j (hd j List.mem_cons_self) with ⟨c, s, hs, hw, hb⟩
      have helems := parseElems_dumpElems (j :: js) hjs (List.cons_ne_nil j js) p m [] (by omega)
      rw [dumpElems, hs, List.cons_append, List.cons_append] at helems ⊢
      rw [skipWhitespace_other c _ hw]
      simpa only [Res.ok_bind, deref_cons, if_neg hb, List.nil_append] using helems

/-- A printed object is read back whatever comes behind it. -/
theorem parseImpl_dump_object [DecimalImpl D] (ms : List (Str × Json D))
    (hms : ∀ e ∈ ms, rawSafe e.1 = true ∧ Reads e.2) (hsorted : SortedMap.Sorted ms) (n : Nat)
    (p : Str) (hn : 3 * (dump (.object ms)).length + 1 ≤ n) :
    parseImpl n (dump (.object ms) ++ p) = .ok (.object ms, p) := by
  simp only [dump, List.length_cons, List.length_append] at hn
  obtain ⟨m, rfl⟩ : ∃ m, n = m + 2 := ⟨n - 2, by omega⟩
  have hopen : parseImpl (D := D) (m + 2) (dump (.object ms) ++ p)
      = parseObject (m + 1) (dump (.object ms) ++ p) := rfl
  rw [hopen, dump, List.cons_append, List.append_assoc, List.singleton_append]
  simp only [parseObject, Res.bind_def, List.drop_one, List.tail_cons]
  -- A key begins with a quote, so no closing brace is seen.
  cases ms with
  | nil => rfl
  | cons e ms =>
      rcases e with ⟨k, j⟩
      have hmembers := parseMembers_dumpMembers ((k, j) :: ms) hms (List.cons_ne_nil _ ms) p m []
        hsorted (by omega)
      rw [dumpMembers, printString, List.cons_append, List.cons_append] at hmembers ⊢
      rw [skipWhitespace_other Ch.quote _ (by decide)]
      exact hmembers

namespace Json

/-- A value the parser reads back from its printed form. -/
def Printable (j : Json D) : Prop := j.Readable ∧ j.NoDecimal

theorem noDecimalElems_iff (js : List (Json D)) :
    NoDecimalElems js ↔ ∀ j ∈ js, NoDecimal j := by
  induction js with
  | nil => simp only [NoDecimalElems, List.not_mem_nil, false_implies, implies_true]
  | cons j js ih => simp only [NoDecimalElems, ih, List.forall_mem_cons]

/-- For an object it is a condition on every value. -/
theorem noDecimalMembers_iff (ms : List (Str × Json D)) :
    NoDecimalMembers ms ↔ ∀ e ∈ ms, NoDecimal e.2 := by
  induction ms with
  | nil => simp only [NoDecimalMembers, List.not_mem_nil, false_implies, implies_true]
  | cons e ms ih =>
      rcases e with ⟨k, j⟩
      simp only [NoDecimalMembers, ih, List.forall_mem_cons]

end Json

mutual

/-- A printable value is read back. -/
theorem reads_dump [DecimalImpl D] : ∀ j : Json D, j.Printable → Reads j
  | .null, _ => reads_literal .null (Or.inl rfl)
  | .boolean b, _ => reads_literal (.boolean b) (Or.inr ⟨b, rfl⟩)
  | .integer i, _ => reads_integer i
  | .decimal _, h => absurd h.2 id
  | .string s, h => reads_string s h.1.2
  | .array js, ⟨hr, hd⟩ => fun n c p _ hn =>
      parseImpl_dump_array js (readsElems_dump js ((Json.readable_array js).mp hr)
        ((Json.noDecimalElems_iff js).mp hd)) ((Json.noDecimalElems_iff js).mp hd) n (c :: p) hn
  | .object ms, ⟨hr, hd⟩ => fun n c p _ hn =>
      parseImpl_dump_object ms
        (readsMembers_dump ms ((Json.readable_object ms).mp hr).2
          ((Json.noDecimalMembers_iff ms).mp hd))
        ((Json.readable_object ms).mp hr).1 n (c :: p) hn

/-- The elements of an array, one by one. -/
theorem readsElems_dump [DecimalImpl D] : ∀ js : List (Json D), (∀ j ∈ js, j.Readable) →
    (∀ j ∈ js, j.NoDecimal) → ∀ j ∈ js, Reads j
  | [], _, _ => fun _ hj => absurd hj List.not_mem_nil
  | j :: js, hr, hd => List.forall_mem_cons.mpr
      ⟨reads_dump j ⟨hr j List.mem_cons_self, hd j List.mem_cons_self⟩,
        readsElems_dump js (fun x hx => hr x (List.mem_cons_of_mem j hx))
          (fun x hx => hd x (List.mem_cons_of_mem j hx))⟩

/-- The members of an object. -/
theorem readsMembers_dump [DecimalImpl D] : ∀ ms : List (Str × Json D),
    (∀ e ∈ ms, rawSafe e.1 = true ∧ e.2.Readable) → (∀ e ∈ ms, e.2.NoDecimal) →
      ∀ e ∈ ms, rawSafe e.1 = true ∧ Reads e.2
  | [], _, _ => fun _ he => absurd he List.not_mem_nil
  | (k, j) :: ms, hr, hd => List.forall_mem_cons.mpr
      ⟨⟨(hr (k, j) List.mem_cons_self).1,
          reads_dump j ⟨(hr (k, j) List.mem_cons_self).2, hd (k, j) List.mem_cons_self⟩⟩,
        readsMembers_dump ms (fun x hx => hr x (List.mem_cons_of_mem _ hx))
          (fun x hx => hd x (List.mem_cons_of_mem _ hx))⟩

end

/-- Whether a value is an array or an object. -/
def Json.isContainer : Json D → Bool
  | .object _ => true
  | .array _ => true
  | _ => false

/-- A printable container is parsed back from its text, whatever bytes come
    behind the text. -/
theorem parse_dump_append [DecimalImpl D] (j : Json D) (hj : j.Printable)
    (hc : j.isContainer = true) (p : Str) : parse (dump j ++ p) = .ok j := by
  -- The bound of `parse` grows with the text and covers the printed part.
  have hlen : 3 * (dump j).length + 1 ≤ 3 * (dump j ++ p).length + 3 := by
    rw [List.length_append]
    omega
  simp only [parse, Res.bind_def]
  cases j with
  | object ms =>
      rcases (Json.readable_object ms).mp hj.1 with ⟨hsorted, hr⟩
      rw [parseImpl_dump_object ms
        (readsMembers_dump ms hr ((Json.noDecimalMembers_iff ms).mp hj.2)) hsorted _ p hlen]
      rfl
  | array js =>
      have hd := (Json.noDecimalElems_iff js).mp hj.2
      rw [parseImpl_dump_array js (readsElems_dump js ((Json.readable_array js).mp hj.1) hd) hd _ p
        hlen]
      rfl
  | _ => exact absurd hc Bool.false_ne_true

/-- A container built from values other than decimals is parsed back from its
    printed text exactly when all its strings and keys are safe between
    quotes. -/
theorem parseText_dump_iff [DecimalImpl D] (j : Json D) (hwf : j.Wf) (hd : j.NoDecimal)
    (hc : j.isContainer = true) :
    parseText (dump j) = .ok j ↔ j.Strings (rawSafe · = true) := by
  constructor
  · intro h
    -- Whatever is parsed has safe strings, so an unsafe value cannot come out.
    exact (parse_readable _ j h).2
  · intro h
    exact parse_dump_append j ⟨⟨hwf, h⟩, hd⟩ hc [Ch.nul]

/-- An array of an array of the string `a`, read back. -/
theorem parseText_dump_nested :
    parseText (D := Unit) (dump (.array [.array [.string (text "a")]] : Json Unit))
        = .ok (.array [.array [.string (text "a")]]) ↔
      (.array [.array [.string (text "a")]] : Json Unit).Strings (rawSafe · = true) :=
  parseText_dump_iff (D := Unit) (.array [.array [.string (text "a")]])
    ⟨⟨trivial, trivial⟩, trivial⟩ ⟨⟨trivial, trivial⟩, trivial⟩ rfl

/-- An array holding the one-byte string of a quote is printed as a text that
    is not read back as that array. -/
theorem parseText_dump_quote :
    ¬ ∀ j : Json Unit, j.Wf → j.NoDecimal → j.isContainer = true → parseText (dump j) = .ok j := by
  intro h
  have hq := h (.array [.string [Ch.quote]]) ⟨trivial, trivial⟩ ⟨trivial, trivial⟩ rfl
  exact absurd hq (by decide)

end Vsjson
