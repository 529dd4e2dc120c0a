import Trpc.Theory.Text.RoundTrip

/-!
# Passing Texts On

What a peer does that parses a text and prints the value again. A value that has come
out of the parser is read back as it was, so it can be passed on any number of times.
But not every text that is in order comes out of the parser: a member is assigned to its
place in the map, the assignment destroys what is there twice, and if that owns memory on
the heap the process is at its end.

Whether that happens is a question about the text, so it is put to the outline of the
text, which has the members of an object one behind the other as they come, none
replaced. The outline is read by the functions of the parser with the assignment taken
out, and the parser is compared with them.

## Main definitions

* `outline`: What stands in a text, member by member.
* `Json.merged`: The value, of the members with one name the last.
* `Json.HeapLast`: A member that owns memory on the heap is the last of its name.
* `Told`: How the parser does against the outline.
* `relay`: Parsing and printing a text again and again.

## Theorems

* `heapLastFrom_iff`: The order of assignments does not matter.
* `telling_all`: The parser against the outline, on every level of the recursion.
* `parse_relay`: A container the parser has made can be passed on without change.
* `parse_relay_iff`: Which texts can be passed on.
* `parse_relay_twice`: A text that cannot.
-/

namespace Vsjson

open parser

variable {D : Type}

/-! ## The outline of a text -/

mutual

/-- `parseImpl`, for the outline. -/
def outlineImpl [DecimalImpl D] : Nat → Str → Res (Json D × Str)
  | 0, _ => .fault .fuel
  | n + 1, p => do
    let p ← skipWhitespace p
    let c ← deref p
    if c = Ch.nul then return (.null, p)
    else if c = Ch.lbrace then outlineObject n p
    else if c = Ch.lbracket then outlineArray n p
    else if c = Ch.quote then
      let (s, p) ← parseString p
      return (.string s, p)
    else if c = Ch.lowerN then return (.null, p.drop 4)
    else if c = Ch.lowerT then return (.boolean true, p.drop 4)
    else if c = Ch.lowerF then return (.boolean false, p.drop 5)
    else if c = Ch.minus ∨ isdigit c ∨ c = Ch.dot then parseNumberImpl p
    else return (.null, p)

/-- `parseObject`, for the outline. -/
def outlineObject [DecimalImpl D] : Nat → Str → Res (Json D × Str)
  | 0, _ => .fault .fuel
  | n + 1, p => do
    let p ← skipWhitespace (p.drop 1)
    let c ← deref p
    if c = Ch.rbrace then return (.object [], p.drop 1)
    else
      let (ms, p) ← outlineMembers n p
      return (.object ms, p)

/-- The members that are still to come. -/
def outlineMembers [DecimalImpl D] : Nat → Str → Res (List (Str × Json D) × Str)
  | 0, _ => .fault .fuel
  | n + 1, p => do
    let p ← skipWhitespace p
    let (key, p) ← parseString p
    let p ← skipWhitespace p
    let c ← deref p
    if c ≠ Ch.colon then .throw (.json "object parse failure: expect [:]")
    else
      let p ← skipWhitespace (p.drop 1)
      let (v, p) ← outlineImpl n p
      let p ← skipWhitespace p
      let c ← deref p
      if c = Ch.rbrace then return ([(key, v)], p.drop 1)
      else if c = Ch.comma then
        let (ms, p) ← outlineMembers n (p.drop 1)
        return ((key, v) :: ms, p)
      else .throw (.json "object parse failure: unknown reason")

/-- `parseArray`, for the outline. -/
def outlineArray [DecimalImpl D] : Nat → Str → Res (Json D × Str)
  | 0, _ => .fault .fuel
  | n + 1, p => do
    let p ← skipWhitespace (p.drop 1)
    let c ← deref p
    if c = Ch.rbracket then return (.array [], p.drop 1)
    else
      let (js, p) ← outlineElems n p
      return (.array js, p)

/-- The elements that are still to come. -/
def outlineElems [DecimalImpl D] : Nat → Str → Res (List (Json D) × Str)
  | 0, _ => .fault .fuel
  | n + 1, p => do
    let p ← skipWhitespace p
    let (v, p) ← outlineImpl n p
    let p ← skipWhitespace p
    let c ← deref p
    if c = Ch.rbracket then return ([v], p.drop 1)
    else if c = Ch.comma then
      let (js, p) ← outlineElems n (p.drop 1)
      return (v :: js, p)
    else .throw (.json "arrary parse failure: unknown reason")

end

/-- What stands in the text at `p`. -/
def outline [DecimalImpl D] (p : Str) : Res (Json D) := do
  let (r, _) ← outlineImpl (3 * p.length + 3) p
  return r

/-! ## The value of an outline -/

namespace Json

mutual

/-- The value, of the members with one name the last. -/
def merged : Json D → Json D
  | .object ms => .object (mergedMembers [] ms)
  | .array js => .array (mergedElems js)
  | j => j

def mergedMembers (o : List (Str × Json D)) : List (Str × Json D) → List (Str × Json D)
  | [] => o
  | (k, j) :: ms => mergedMembers (SortedMap.insert k j.merged o) ms

def mergedElems : List (Json D) → List (Json D)
  | [] => []
  | j :: js => j.merged :: mergedElems js

end

mutual

/-- In every object, a member that owns memory on the heap is the last of its name. -/
def HeapLast : Json D → Prop
  | .object ms => HeapLastMembers ms
  | .array js => HeapLastElems js
  | _ => True

def HeapLastMembers : List (Str × Json D) → Prop
  | [] => True
  | (k, j) :: ms =>
    j.HeapLast ∧ (j.ownsHeap = true → k ∉ ms.map Prod.fst) ∧ HeapLastMembers ms

def HeapLastElems : List (Json D) → Prop
  | [] => True
  | j :: js => j.HeapLast ∧ HeapLastElems js

end

/-- Members are never lost altogether. -/
theorem mergedMembers_isEmpty (o ms : List (Str × Json D)) :
    (mergedMembers o ms).isEmpty = (o.isEmpty && ms.isEmpty) := by
  induction ms generalizing o with
  | nil => rw [mergedMembers, List.isEmpty_nil, Bool.and_true]
  | cons e ms ih =>
      rcases e with ⟨k, j⟩
      -- Insertion leaves no map empty.
      rw [mergedMembers, ih, SortedMap.insert_isEmpty, List.isEmpty_cons, Bool.and_false]
      rfl

/-- A value owns memory on the heap if its outline does. -/
theorem merged_ownsHeap (j : Json D) : j.merged.ownsHeap = j.ownsHeap := by
  cases j with
  | object ms =>
      -- An object is empty before and after, or neither.
      simp only [merged, ownsHeap, mergedMembers_isEmpty, List.isEmpty_nil, Bool.true_and]
  | array js => cases js <;> rfl
  | _ => rfl

/-- Whether the assignment of a member under `k` frees something twice. -/
def freesTwice (k : Str) (o : List (Str × Json D)) : Bool :=
  ((SortedMap.lookup k o).getD (.object [])).ownsHeap

theorem freesTwice_insert (k k' : Str) (v : Json D) (o : List (Str × Json D)) :
    freesTwice k' (SortedMap.insert k v o) = if k' = k then v.ownsHeap else freesTwice k' o := by
  by_cases h : k' = k
  · rw [if_pos h, h, freesTwice, SortedMap.lookup_insert_self]
    rfl
  · rw [if_neg h, freesTwice, SortedMap.lookup_insert_ne _ _ _ _ h, freesTwice]

/-- The assignments to the object `o`, one after the other, free nothing twice. -/
def HeapLastFrom (o : List (Str × Json D)) : List (Str × Json D) → Prop
  | [] => True
  | (k, j) :: ms =>
    j.HeapLast ∧ freesTwice k o = false ∧ HeapLastFrom (SortedMap.insert k j.merged o) ms

theorem heapLastFrom_iff (ms o : List (Str × Json D)) :
    HeapLastFrom o ms ↔ HeapLastMembers ms ∧ ∀ k ∈ ms.map Prod.fst, freesTwice k o = false := by
  induction ms generalizing o with
  | nil => simp only [HeapLastFrom, HeapLastMembers, List.map_nil, List.not_mem_nil, true_and,
      false_implies, implies_true]
  | cons e ms ih =>
      rcases e with ⟨k, j⟩
      simp only [HeapLastFrom, HeapLastMembers, ih, freesTwice_insert, merged_ownsHeap,
        List.map_cons, List.forall_mem_cons]
      constructor
      · rintro ⟨hj, hk, hms, hrest⟩
        refine ⟨⟨hj, fun hheap hmem => ?_, hms⟩, hk, fun k' hk' => ?_⟩
        · -- The same name again: it would come to the value at hand.
          have hnot := hrest k hmem
          rw [if_pos rfl, hheap] at hnot
          cases hnot
        · -- Another name is as it was before this member.
          have hnot := hrest k' hk'
          by_cases h : k' = k
          · rw [h]
            exact hk
          · rwa [if_neg h] at hnot
      · rintro ⟨⟨hj, hheap, hms⟩, hk, hrest⟩
        refine ⟨hj, hk, hms, fun k' hk' => ?_⟩
        by_cases h : k' = k
        · rw [if_pos h]
          exact Bool.eq_false_of_not_eq_true fun hown => hheap hown (h ▸ hk')
        · rw [if_neg h]
          exact hrest k' hk'

/-- If a member is in order, its value is, and it frees nothing. -/
theorem not_heapLastFrom (o : List (Str × Json D)) (key : Str) (v : Json D)
    (h : ¬ v.HeapLast ∨ freesTwice key o = true) (ms : List (Str × Json D)) :
    ¬ HeapLastFrom o ((key, v) :: ms) := by
  rintro ⟨hv, hk, _⟩
  rcases h with hnot | hfree
  · exact hnot hv
  · rw [hk] at hfree
    cases hfree

/-- From an empty object on. -/
theorem heapLastFrom_nil (ms : List (Str × Json D)) : HeapLastFrom [] ms ↔ HeapLastMembers ms :=
  (heapLastFrom_iff ms []).trans (and_iff_left fun _ _ => rfl)

end Json

/-! ## The parser against the outline -/

/-- The parser returns the value of the outline if that meets the condition, and frees
    something twice if not. Where there is no outline it fails in the same way, unless it
    has freed something twice before. -/
inductive Told {α β : Type} (P : α → Prop) (g : α → β) :
    Res (α × Str) → Res (β × Str) → Prop where
  | told (a : α) (q : Str) : P a → Told P g (.ok (a, q)) (.ok (g a, q))
  | threw (e : Exn) : Told P g (.throw e) (.throw e)
  | faulted (f : Fault) : Told P g (.fault f) (.fault f)
  | freed (r : Res (α × Str)) : Returns (¬ P ·) r → Told P g r (.fault .doubleFree)

section Told

variable {α α' β β' γ : Type} (P : α → Prop) (g : α → β) (P' : α' → Prop) (g' : α' → β')

theorem told_bind (r : Res (α × Str)) (x : Res (β × Str)) (f : α × Str → Res (α' × Str))
    (f' : β × Str → Res (β' × Str)) (h : Told P g r x)
    (hf : ∀ a q, P a → Told P' g' (f (a, q)) (f' (g a, q)))
    (hn : ∀ a q, ¬ P a → Returns (¬ P' ·) (f (a, q))) :
    Told P' g' (r.bind f) (x.bind f') := by
  -- The first part decides, unless both have returned and go on together.
  cases h with
  | told a q ha => exact hf a q ha
  | threw e => exact .threw e
  | faulted s => exact .faulted s
  | freed r hr => exact .freed _ (returns_bind _ _ r f hr hn)

/-- What the parser returns has an outline. -/
theorem told_returned (r : Res (α × Str)) (x : Res (β × Str)) (h : Told P g r x) (b : β) (q : Str)
    (hx : x = .ok (b, q)) : ∃ a, r = .ok (a, q) ∧ b = g a := by
  cases h with
  | told a q ha =>
      cases hx
      exact ⟨a, rfl, rfl⟩
  | _ => cases hx

/-- What has an outline is returned or not, as the condition says. -/
theorem told_outlined (r : Res (α × Str)) (x : Res (β × Str)) (h : Told P g r x) (a : α) (q : Str)
    (hr : r = .ok (a, q)) : P a ∧ x = .ok (g a, q) ∨ ¬ P a ∧ x = .fault .doubleFree := by
  cases h with
  | told a q ha =>
      cases hr
      exact Or.inl ⟨ha, rfl⟩
  | freed r hnot => exact Or.inr ⟨hnot a q hr, rfl⟩
  | _ => cases hr

/-- What is read goes on as a part of something, which the parser has made already. -/
theorem told_part (r : Res (α × Str)) (x : Res (β × Str)) (f : α → α') (g'' : α' → β)
    (h : Told P g r x) (hf : ∀ a, P' (f a) ↔ P a) (hg : ∀ a, g'' (f a) = g a) :
    Told P' g'' (r.bind fun y => pure (f y.1, y.2)) x := by
  cases h with
  | told a q ha =>
      -- What is made of the value is made on both sides.
      rw [← hg a]
      exact .told (f a) q ((hf a).mpr ha)
  | threw e => exact .threw e
  | faulted s => exact .faulted s
  | freed r hr =>
      exact .freed _ (returns_bind _ _ r _ hr
        fun a q ha => returns_ok _ _ _ fun h => ha ((hf a).mp h))

/-- A step that both take. -/
theorem told_step (r : Res γ) (f : γ → Res (α × Str)) (f' : γ → Res (β × Str))
    (h : ∀ c, Told P g (f c) (f' c)) : Told P g (r.bind f) (r.bind f') := by
  cases r with
  | ok c => exact h c
  | throw e => exact .threw e
  | fault s => exact .faulted s

theorem told_ite (c : Prop) [Decidable c] (r r' : Res (α × Str)) (x x' : Res (β × Str))
    (h : Told P g r x) (h' : Told P g r' x') :
    Told P g (if c then r else r') (if c then x else x') := by
  by_cases hc : c
  · rwa [if_pos hc, if_pos hc]
  · rwa [if_neg hc, if_neg hc]

/-- What is the same for both, where there is nothing to replace. -/
theorem told_same (r : Res (α × Str)) (P : α → Prop) (g : α → α)
    (h : Returns (fun a => P a ∧ g a = a) r) : Told P g r r := by
  cases r with
  | ok x =>
      have hx := h x.1 x.2 rfl
      have htold := Told.told (P := P) (g := g) x.1 x.2 hx.1
      rwa [hx.2] at htold
  | throw e => exact .threw e
  | fault s => exact .faulted s

end Told

section Recursion

variable (D) [DecimalImpl D]

/-- The five recursive functions at one bound. -/
structure Telling (n : Nat) : Prop where
  impl : ∀ p, Told Json.HeapLast Json.merged (outlineImpl (D := D) n p) (parseImpl n p)
  object : ∀ p, Told Json.HeapLast Json.merged (outlineObject (D := D) n p) (parseObject n p)
  members : ∀ o p, Told (Json.HeapLastFrom o) (fun ms => Json.object (Json.mergedMembers o ms))
    (outlineMembers (D := D) n p) (parseMembers n o p)
  array : ∀ p, Told Json.HeapLast Json.merged (outlineArray (D := D) n p) (parseArray n p)
  elems : ∀ a p, Told Json.HeapLastElems (fun js => Json.array (a ++ Json.mergedElems js))
    (outlineElems (D := D) n p) (parseElems n a p)

variable {D}

theorem telling_impl (n : Nat) (h : Telling D n) (p : Str) :
    Told Json.HeapLast Json.merged (outlineImpl (D := D) (n + 1) p) (parseImpl (n + 1) p) := by
  simp only [outlineImpl, parseImpl, Res.bind_def]
  refine told_step _ _ _ _ _ fun p => told_step _ _ _ _ _ fun c => ?_
  refine told_ite _ _ _ _ _ _ _ (.told Json.null p trivial) ?_
  refine told_ite _ _ _ _ _ _ _ (h.object p) (told_ite _ _ _ _ _ _ _ (h.array p) ?_)
  refine told_ite _ _ _ _ _ _ _
    (told_step _ _ _ _ _ fun x => .told (Json.string x.1) x.2 trivial) ?_
  refine told_ite _ _ _ _ _ _ _ (.told Json.null _ trivial) ?_
  refine told_ite _ _ _ _ _ _ _ (.told (Json.boolean true) _ trivial) ?_
  refine told_ite _ _ _ _ _ _ _ (.told (Json.boolean false) _ trivial) ?_
  -- A number is read by the same function on both sides.
  have hnumber : Returns (fun j : Json D => j.HeapLast ∧ j.merged = j) (parseNumberImpl p) :=
    returns_parseNumberImpl _ ⟨trivial, rfl⟩ (fun _ => ⟨trivial, rfl⟩) (fun _ => ⟨trivial, rfl⟩) p
  exact told_ite _ _ _ _ _ _ _ (told_same _ _ _ hnumber) (.told Json.null p trivial)

theorem telling_members (n : Nat) (h : Telling D n) (o : List (Str × Json D)) (p : Str) :
    Told (Json.HeapLastFrom o) (fun ms => Json.object (Json.mergedMembers o ms))
      (outlineMembers (D := D) (n + 1) p) (parseMembers (n + 1) o p) := by
  simp only [outlineMembers, parseMembers, Res.bind_def]
  refine told_step _ _ _ _ _ fun p => told_step _ _ _ _ _ fun x => ?_
  rcases x with ⟨key, p⟩
  refine told_step _ _ _ _ _ fun p => told_step _ _ _ _ _ fun c => ?_
  refine told_ite _ _ _ _ _ _ _ (.threw _) (told_step _ _ _ _ _ fun p => ?_)
  -- The members begin with this one, whatever comes behind it.
  have hfirst : ∀ (v : Json D) (q : Str), (¬ v.HeapLast ∨ Json.freesTwice key o = true) →
      Returns (¬ Json.HeapLastFrom o ·) ((skipWhitespace q).bind fun p => (deref p).bind fun c =>
        if c = Ch.rbrace then (pure ([(key, v)], p.drop 1) : Res (List (Str × Json D) × Str))
        else if c = Ch.comma then
          (outlineMembers n (p.drop 1)).bind fun x => pure ((key, v) :: x.1, x.2)
        else .throw (.json "object parse failure: unknown reason")) := by
    intro v q hv
    refine returns_step _ _ _ fun p => returns_step _ _ _ fun c => ?_
    split
    · exact returns_ok _ _ _ (Json.not_heapLastFrom o key v hv [])
    split
    · exact returns_step _ _ _ fun x => returns_ok _ _ _ (Json.not_heapLastFrom o key v hv x.1)
    · exact returns_throw _ _
  refine told_bind _ _ _ _ _ _ _ _ (h.impl p) (fun v q hv => ?_)
    (fun v q hv => hfirst v q (Or.inl hv))
  -- The assignment is where the two may part.
  by_cases hfree : Json.freesTwice key o = true
  · rw [show Json.assignMember key v.merged o = .fault .doubleFree from if_pos hfree]
    exact .freed _ (hfirst v q (Or.inr hfree))
  rw [show Json.assignMember key v.merged o = .ok (SortedMap.insert key v.merged o) from
    if_neg hfree]
  -- What is left of the condition is about the object with this member in it.
  have hmember : ∀ ms, Json.HeapLastFrom o ((key, v) :: ms) ↔
      Json.HeapLastFrom (SortedMap.insert key v.merged o) ms := fun ms =>
    ⟨fun hms => hms.2.2, fun hms => ⟨hv, Bool.eq_false_of_not_eq_true hfree, hms⟩⟩
  refine told_step _ _ _ _ _ fun p => told_step _ _ _ _ _ fun c => ?_
  refine told_ite _ _ _ _ _ _ _ (.told [(key, v)] _ ((hmember []).mpr trivial)) ?_
  exact told_ite _ _ _ _ _ _ _
    (told_part _ _ _ _ _ ((key, v) :: ·) _ (h.members _ _) hmember fun _ => rfl) (.threw _)

theorem telling_elems (n : Nat) (h : Telling D n) (a : List (Json D)) (p : Str) :
    Told Json.HeapLastElems (fun js => Json.array (a ++ Json.mergedElems js))
      (outlineElems (D := D) (n + 1) p) (parseElems (n + 1) a p) := by
  simp only [outlineElems, parseElems, Res.bind_def]
  refine told_step _ _ _ _ _ fun p => ?_
  refine told_bind _ _ _ _ _ _ _ _ (h.impl p) (fun v q hv => ?_) (fun v q hv => ?_)
  · refine told_step _ _ _ _ _ fun p => told_step _ _ _ _ _ fun c => ?_
    refine told_ite _ _ _ _ _ _ _ (.told [v] _ ⟨hv, trivial⟩) ?_
    refine told_ite _ _ _ _ _ _ _ ?_ (.threw _)
    refine told_part _ _ _ _ _ (v :: ·) _ (h.elems _ _) (fun js => and_iff_right hv) fun js => ?_
    rw [Json.mergedElems, List.append_cons]
  · refine returns_step _ _ _ fun p => returns_step _ _ _ fun c => ?_
    split
    · exact returns_ok _ _ _ fun hall => hv hall.1
    split
    · exact returns_step _ _ _ fun x => returns_ok _ _ _ fun hall => hv hall.1
    · exact returns_throw _ _

/-- The parser against the outline, at every bound. -/
theorem telling_all (n : Nat) : Telling D n := by
  induction n with
  | zero => constructor <;> intros <;> exact .faulted .fuel
  | succ n ih =>
      refine ⟨telling_impl n ih, fun p => ?_, telling_members n ih, fun p => ?_,
        telling_elems n ih⟩
      · simp only [outlineObject, parseObject, Res.bind_def]
        refine told_step _ _ _ _ _ fun p => told_step _ _ _ _ _ fun c => ?_
        exact told_ite _ _ _ _ _ _ _ (.told (Json.object []) _ trivial)
          (told_part _ _ _ _ _ Json.object _ (ih.members [] p)
            (fun ms => (Json.heapLastFrom_nil ms).symm) fun _ => rfl)
      · simp only [outlineArray, parseArray, Res.bind_def]
        refine told_step _ _ _ _ _ fun p => told_step _ _ _ _ _ fun c => ?_
        exact told_ite _ _ _ _ _ _ _ (.told (Json.array []) _ trivial)
          (told_part _ _ _ _ _ Json.array _ (ih.elems [] p) (fun _ => Iff.rfl) fun _ => rfl)

end Recursion

/-! ## Texts that can be passed on -/

/-- The text that is left of `t` when `n` peers in a row parse what they are given and
    print what they have parsed. -/
def relay (D : Type) [DecimalImpl D] : Nat → Str → Res Str
  | 0, t => .ok t
  | n + 1, t => do
    let j : Json D ← parseText t
    relay D n (dump j)

/-- A container that came out of the parser, whatever the text was, is parsed back from
    its printed text, and peers that pass the text on leave it as it is. -/
theorem parse_relay [DecimalImpl D] (p : Str) (j : Json D) (h : parse p = .ok j)
    (hc : j.isContainer = true) (hd : j.NoDecimal) :
    parseText (dump j) = .ok j ∧ ∀ n, relay D n (dump j) = .ok (dump j) := by
  have hback : parseText (dump j) = .ok j :=
    parse_dump_append j ⟨parse_readable p j h, hd⟩ hc [Ch.nul]
  refine ⟨hback, fun n => ?_⟩
  induction n with
  | zero => rfl
  | succ n ih =>
      rw [relay, hback]
      exact ih

/-- What `parse` returns is the value of the outline. -/
theorem parse_outlined [DecimalImpl D] (p : Str) (j : Json D) (h : parse p = .ok j) :
    ∃ r : Json D, outline p = .ok r ∧ j = r.merged := by
  rcases Res.bind_eq_ok _ _ _ h with ⟨⟨j', q⟩, himpl, hj⟩
  cases hj
  rcases told_returned _ _ _ _ ((telling_all (3 * p.length + 3)).impl p) j q himpl with
    ⟨r, hr, hmerged⟩
  refine ⟨r, ?_, hmerged⟩
  rw [outline, hr]
  rfl

/-- What has an outline is parsed or not, as the outline says. -/
theorem outline_parsed [DecimalImpl D] (p : Str) (r : Json D) (h : outline p = .ok r) :
    r.HeapLast ∧ parse p = .ok r.merged ∨
      ¬ r.HeapLast ∧ parse (D := D) p = .fault .doubleFree := by
  rcases Res.bind_eq_ok _ _ _ h with ⟨⟨r', q⟩, himpl, hr⟩
  cases hr
  rw [parse]
  rcases told_outlined _ _ _ _ ((telling_all (3 * p.length + 3)).impl p) r q himpl with
    ⟨hlast, hparse⟩ | ⟨hlast, hparse⟩
  · refine Or.inl ⟨hlast, ?_⟩
    rw [hparse]
    rfl
  · refine Or.inr ⟨hlast, ?_⟩
    rw [hparse]
    rfl

/-- Every text that `parse` takes has an outline. And where the outline is a container
    without decimals, `parse` returns its value, reads that back from what it prints, and
    goes on like this, if and only if in every object a member that owns memory on the
    heap is the last of its name. -/
theorem parse_relay_iff [DecimalImpl D] (p : Str) :
    (∀ j : Json D, parse p = .ok j → ∃ r : Json D, outline p = .ok r ∧ j = r.merged) ∧
    ∀ r : Json D, outline p = .ok r → r.merged.isContainer = true → r.merged.NoDecimal →
      (parse p = .ok r.merged ∧ parseText (dump r.merged) = .ok r.merged ∧
          (∀ n, relay D n (dump r.merged) = .ok (dump r.merged)) ↔ r.HeapLast) := by
  refine ⟨parse_outlined p, fun r hr hc hd => ?_⟩
  rcases outline_parsed p r hr with ⟨hlast, hparse⟩ | ⟨hlast, hparse⟩
  · exact iff_of_true ⟨hparse, parse_relay p r.merged hparse hc hd⟩ hlast
  · refine iff_of_false (fun h => ?_) hlast
    rw [hparse] at h
    cases h.1

/-- A name that comes again, behind an integer, and an escaped quote. -/
theorem parse_relay_quote :
    parse (text "\x7b\"a\":4294967297,\"b\":[\"\\\"\"],\"a\":2\x7d")
        = .ok (.object [(text "a", .integer 2),
            (text "b", .array [.string [Ch.backslash, Ch.quote]])] : Json Unit) ∧
      parseText (text "\x7b\"a\":2,\"b\":[\"\\\"\"]\x7d")
        = .ok (.object [(text "a", .integer 2),
            (text "b", .array [.string [Ch.backslash, Ch.quote]])] : Json Unit) ∧
      ∀ n, relay Unit n (text "\x7b\"a\":2,\"b\":[\"\\\"\"]\x7d")
        = .ok (text "\x7b\"a\":2,\"b\":[\"\\\"\"]\x7d") := by
  have h := ((parse_relay_iff (D := Unit)
      (text "\x7b\"a\":4294967297,\"b\":[\"\\\"\"],\"a\":2\x7d")).2
    (.object [(text "a", .integer 1), (text "b", .array [.string [Ch.backslash, Ch.quote]]),
      (text "a", .integer 2)]) (by decide +kernel) rfl ⟨trivial, ⟨trivial, trivial⟩, trivial⟩).mpr
    ⟨trivial, by decide, ⟨trivial, trivial⟩, by decide, trivial, by decide, trivial⟩
  have hmerged : (Json.object [(text "a", .integer 1),
      (text "b", .array [.string [Ch.backslash, Ch.quote]]), (text "a", .integer 2)]
      : Json Unit).merged = .object [(text "a", .integer 2),
        (text "b", .array [.string [Ch.backslash, Ch.quote]])] := by decide +kernel
  have hdump : dump (.object [(text "a", .integer 2),
      (text "b", .array [.string [Ch.backslash, Ch.quote]])] : Json Unit)
        = text "\x7b\"a\":2,\"b\":[\"\\\"\"]\x7d" := by decide +kernel
  rw [hmerged, hdump] at h
  exact h

/-- A name that comes again, behind an array. -/
theorem parse_relay_twice :
    ¬ ∀ (p : Str) (r : Json Unit), outline p = .ok r → r.merged.isContainer = true →
      r.merged.NoDecimal → parse p = .ok r.merged := by
  intro h
  have hparse := h (text "\x7b\"a\":[1],\"a\":2\x7d")
    (.object [(text "a", .array [.integer 1]), (text "a", .integer 2)]) (by decide +kernel) rfl
    ⟨trivial, trivial⟩
  exact absurd hparse (by decide +kernel)

end Vsjson
