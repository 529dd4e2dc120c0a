import Mathlib.Algebra.Order.BigOperators.Group.Finset
import Trpc.Core.Payload
import Trpc.Lib.Transition

/-!
# Payload Lifetimes

A payload that `init` has put in place is to be destroyed once. `Once` says so of the
objects a program has: each payload stands in one place and is alive, or it stands
nowhere any more and its destructor has run once.

`Json::operator=` breaks this where it is given an alternative, a `JsonValue` or
another `Json`. These overloads call `~Json()` and then `Variant::operator=`, which
calls `~Variant()`, and `_what` still names what the first call destroyed. The
overloads for strings, `bool` and `nullptr` leave the destructor to the variant. So do
the assignments of a `Variant`, which destroy once and put in place once.

To follow the numbers through copies and moves it is enough to count them. `Balanced`
is `Once` as such a count, and `init_count` is where it comes from: what `init` puts in
place is new, or was in the source before.

## Main definitions

* `Objects.Once`: What is to hold.
* `Objects.Balanced`: The same as a count.
* `Objects.Op.Spares`: The operations that destroy nothing twice.
* `Objects.Assigned`: The target of an assignment has the value of its source.

## Theorems

* `Variant.init_count`, `Variant.assign_count`: Where the numbers go.
* `Node.modify_count`: A change in one place.
* `step_balanced`: What one operation keeps.
* `step_twice`: What the others break.
* `payloads_once`: Whole programs.
-/

namespace Vsjson

open Transition

variable {D : Type}

namespace Payload

mutual

/-- A copy has the numbers from the first free one on. -/
theorem build_ids : ∀ (n : Nat) (j : Json D),
    ∃ k, (build n j).1.ids = List.range' n k ∧ (build n j).2 = n + k
  | n, .null => ⟨0, rfl, rfl⟩
  | n, .object members => by simp only [build, ids]; exact buildMembers_ids n members
  | n, .array elems => by simp only [build, ids]; exact buildElems_ids n elems
  | n, .string s => ⟨0, rfl, rfl⟩
  | n, .integer i => ⟨0, rfl, rfl⟩
  | n, .decimal d => ⟨0, rfl, rfl⟩
  | n, .boolean b => ⟨0, rfl, rfl⟩

theorem buildMembers_ids : ∀ (n : Nat) (ms : List (Str × Json D)),
    ∃ k, idsMembers (buildMembers n ms).1 = List.range' n k ∧ (buildMembers n ms).2 = n + k
  | n, [] => ⟨0, rfl, rfl⟩
  | n, (key, j) :: ms => by
      rcases build_ids (n + 1) j with ⟨k, hk, hn⟩
      rcases buildMembers_ids (build (n + 1) j).2 ms with ⟨l, hl, hn'⟩
      refine ⟨k + l + 1, ?_, by rw [buildMembers, hn', hn]; omega⟩
      rw [buildMembers, idsMembers, hk, hl, hn, List.range'_append_1, List.range'_succ]

theorem buildElems_ids : ∀ (n : Nat) (js : List (Json D)),
    ∃ k, idsElems (buildElems n js).1 = List.range' n k ∧ (buildElems n js).2 = n + k
  | n, [] => ⟨0, rfl, rfl⟩
  | n, j :: js => by
      rcases build_ids (n + 1) j with ⟨k, hk, hn⟩
      rcases buildElems_ids (build (n + 1) j).2 js with ⟨l, hl, hn'⟩
      refine ⟨k + l + 1, ?_, by rw [buildElems, hn', hn]; omega⟩
      rw [buildElems, idsElems, hk, hl, hn, List.range'_append_1, List.range'_succ]

end

mutual

/-- A copy has the value of what it was made from. -/
theorem value_build : ∀ (n : Nat) (j : Json D), (build n j).1.value = j
  | n, .null => rfl
  | n, .object members => by rw [build, value, value_buildMembers n members]
  | n, .array elems => by rw [build, value, value_buildElems n elems]
  | n, .string s => rfl
  | n, .integer i => rfl
  | n, .decimal d => rfl
  | n, .boolean b => rfl

theorem value_buildMembers : ∀ (n : Nat) (ms : List (Str × Json D)),
    valueMembers (buildMembers n ms).1 = ms
  | n, [] => rfl
  | n, (key, j) :: ms => by
      rw [buildMembers, valueMembers, value_build (n + 1) j, value_buildMembers _ ms]

theorem value_buildElems : ∀ (n : Nat) (js : List (Json D)),
    valueElems (buildElems n js).1 = js
  | n, [] => rfl
  | n, j :: js => by
      rw [buildElems, valueElems, value_build (n + 1) j, value_buildElems _ js]

end

theorem taken_ids (a : Payload D) : a.taken.ids = [] := by
  cases a <;> rfl

end Payload

/-- Copied or moved, the value is the same. -/
theorem Forward.construct_value (fwd : Forward) (n : Nat) (obj : Payload D) :
    (fwd.construct n obj).1.value = obj.value := by
  cases fwd with
  | copy => exact Payload.value_build n obj.value
  | move => rfl

/-- The numbers given out. -/
def Memory.born (m : Memory) : List Nat := List.range m.next

/-- Giving out more numbers goes on where it has stopped. -/
theorem range_split (n l : Nat) : List.range (n + l) = List.range n ++ List.range' n l := by
  have happend := @List.range'_append_1 0 n l
  rw [Nat.zero_add] at happend
  rw [List.range_eq_range', List.range_eq_range']
  exact happend.symm

theorem Node.ids_count (n : Node D) (k : Nat) :
    n.ids.count k = [n.1].count k + n.2.ids.count k := by
  rw [← List.count_append]
  rfl

namespace Variant

/-- `init` gives out numbers, and what it puts in place has them, and those which the
    source no longer has. -/
theorem init_count (m : Memory) (fwd : Forward) (obj : Payload D) (k : Nat) :
    (init m fwd obj).2.ids.count k + (fwd.leave obj).ids.count k + m.born.count k
      = obj.ids.count k + (init m fwd obj).1.born.count k := by
  cases fwd with
  | copy =>
      -- The copy and everything in it are new, and the source stays as it is.
      rcases Payload.build_ids (m.next + 1) obj.value with ⟨l, hids, hnext⟩
      have hnew : (init m .copy obj).2.ids = List.range' m.next (l + 1) :=
        (congrArg (m.next :: ·) hids).trans List.range'_succ.symm
      have hborn : (init m .copy obj).1.born = m.born ++ List.range' m.next (l + 1) := by
        rw [Memory.born, Memory.born, ← range_split, ← Nat.add_assoc, Nat.add_right_comm, ← hnext]
        rfl
      rw [hnew, hborn, List.count_append, Forward.leave]
      omega
  | move =>
      -- One payload is new, and what the source had inside is inside that one now.
      have hborn : (init m .move obj).1.born = m.born ++ [m.next] := List.range_succ
      have hnew : (init m .move obj).2.ids.count k = [m.next].count k + obj.ids.count k :=
        Node.ids_count (m.next, obj) k
      rw [hborn, hnew, List.count_append, Forward.leave, Payload.taken_ids, List.count_nil]
      omega

@[simp] theorem init_destroyed (m : Memory) (fwd : Forward) (obj : Payload D) :
    (init m fwd obj).1.destroyed = m.destroyed := rfl

/-- What `operator=` destroys, and what it puts in place. -/
theorem assign_count (m : Memory) (v : Variant D) (fwd : Forward) (rhs : Payload D) (k : Nat) :
    (assign m v fwd rhs).2.ids.count k + (fwd.leave rhs).ids.count k
        + (assign m v fwd rhs).1.destroyed k + m.born.count k
      = (Slot.variant v).ids.count k + rhs.ids.count k + m.destroyed k
        + (assign m v fwd rhs).1.born.count k := by
  have hinit := init_count (destroy m v) fwd rhs k
  have hborn : (destroy m v).born = m.born := by cases v <;> rfl
  have hdestroyed : (assign m v fwd rhs).1.destroyed k
      = m.destroyed k + (Slot.variant v).ids.count k := by cases v <;> rfl
  rw [hborn] at hinit
  rw [hdestroyed, assign]
  omega

theorem init_value (m : Memory) (fwd : Forward) (obj : Payload D) :
    (init m fwd obj).2.2.value = obj.value := fwd.construct_value _ obj

end Variant

/-! ## Places -/

namespace Payload

theorem idsMembers_cons (key : Str) (n : Node D) (ms : List (Str × Node D)) (k : Nat) :
    (idsMembers ((key, n) :: ms)).count k = n.ids.count k + (idsMembers ms).count k := by
  rw [← List.count_append]
  rfl

theorem idsElems_cons (n : Node D) (es : List (Node D)) (k : Nat) :
    (idsElems (n :: es)).count k = n.ids.count k + (idsElems es).count k := by
  rw [← List.count_append]
  rfl

/-- A change of one member concerns its numbers only. -/
theorem modifyMember_count (key : Str) (f : Node D → Node D) (n : Node D) (k : Nat)
    (ms : List (Str × Node D)) (h : SortedMap.lookup key ms = some n) :
    (idsMembers (modifyMember key f ms)).count k + n.ids.count k
      = (idsMembers ms).count k + (f n).ids.count k := by
  induction ms with
  | nil => cases h
  | cons e ms ih =>
      rcases e with ⟨key', n'⟩
      by_cases hkey : key = key'
      · subst hkey
        rw [SortedMap.lookup_cons_self] at h
        cases h
        -- The first member of this name is changed, and there is no other.
        rw [modifyMember, if_pos rfl, idsMembers_cons, idsMembers_cons]
        omega
      · rw [SortedMap.lookup_cons_ne _ _ _ _ hkey] at h
        rw [modifyMember, if_neg hkey, idsMembers_cons, idsMembers_cons]
        have hrest := ih h
        omega

/-- So does a change of one element. -/
theorem modify_elems_count (f : Node D → Node D) (n : Node D) (k : Nat) (es : List (Node D))
    (index : Nat) (h : es[index]? = some n) :
    (idsElems (es.modify index f)).count k + n.ids.count k
      = (idsElems es).count k + (f n).ids.count k := by
  induction es generalizing index with
  | nil => cases h
  | cons n' es ih =>
      cases index with
      | zero =>
          rw [List.getElem?_cons_zero] at h
          cases h
          rw [List.modify_zero_cons, idsElems_cons, idsElems_cons]
          omega
      | succ index =>
          rw [List.getElem?_cons_succ] at h
          rw [List.modify_succ_cons, idsElems_cons, idsElems_cons]
          have hrest := ih index h
          omega

/-- Changing an element changes its payloads, and no others. -/
theorem modifyChild_count (f : Node D → Node D) (key : Key) (a : Payload D) (n : Node D) (k : Nat)
    (h : a.child key = some n) :
    (a.modifyChild f key).ids.count k + n.ids.count k = a.ids.count k + (f n).ids.count k := by
  cases key with
  | member key =>
      cases a with
      | object ms => exact modifyMember_count key f n k ms h
      | _ => cases h
  | element index =>
      cases a with
      | array es => exact modify_elems_count f n k es index h
      | _ => cases h

/-- The member is found changed. -/
theorem lookup_modifyMember (key : Str) (f : Node D → Node D) (ms : List (Str × Node D)) :
    SortedMap.lookup key (modifyMember key f ms) = (SortedMap.lookup key ms).map f := by
  induction ms with
  | nil => rfl
  | cons e ms ih =>
      rcases e with ⟨key', n'⟩
      by_cases hkey : key = key'
      · subst hkey
        rw [modifyMember, if_pos rfl, SortedMap.lookup_cons_self, SortedMap.lookup_cons_self]
        rfl
      · rw [modifyMember, if_neg hkey, SortedMap.lookup_cons_ne _ _ _ _ hkey,
          SortedMap.lookup_cons_ne _ _ _ _ hkey, ih]

/-- So is any child that was there. -/
theorem child_modifyChild (f : Node D → Node D) (key : Key) (a : Payload D) :
    (a.modifyChild f key).child key = (a.child key).map f := by
  cases key with
  | member key =>
      cases a with
      | object ms => exact lookup_modifyMember key f ms
      | _ => rfl
  | element index =>
      cases a with
      | array es => exact List.getElem?_modify_eq f index es
      | _ => rfl

/-- A new member brings its payloads. -/
theorem insert_count (key : Str) (n : Node D) (k : Nat) (ms : List (Str × Node D))
    (h : SortedMap.lookup key ms = none) :
    (idsMembers (SortedMap.insert key n ms)).count k = n.ids.count k + (idsMembers ms).count k := by
  induction ms with
  | nil => exact idsMembers_cons key n [] k
  | cons e ms ih =>
      rcases e with ⟨key', n'⟩
      by_cases hkey : key = key'
      · subst hkey
        -- There was no such member.
        rw [SortedMap.lookup_cons_self] at h
        cases h
      · rw [SortedMap.lookup_cons_ne _ _ _ _ hkey] at h
        by_cases hlt : key < key'
        · rw [SortedMap.insert, if_pos hlt, idsMembers_cons]
        · rw [SortedMap.insert, if_neg hlt, if_neg hkey, idsMembers_cons, idsMembers_cons, ih h]
          omega

end Payload

namespace Node

/-- A change in one place, however deep, concerns the numbers there only. -/
theorem modify_count (f : Node D → Node D) (path : List Key) (n q : Node D) (k : Nat)
    (h : n.get path = some q) :
    (n.modify f path).ids.count k + q.ids.count k = n.ids.count k + (f q).ids.count k := by
  induction path generalizing n with
  | nil =>
      cases h
      rw [modify, Nat.add_comm]
  | cons key path ih =>
      rcases Option.bind_eq_some_iff.mp h with ⟨c, hchild, hget⟩
      have hc := ih c hget
      have hn := Payload.modifyChild_count (modify f path) key n.2 c k hchild
      -- The payload on the way down keeps its number, and so do its other children.
      have htop : (n.modify f (key :: path)).ids.count k
          = [n.1].count k + (n.2.modifyChild (modify f path) key).ids.count k := ids_count _ k
      rw [htop, ids_count n]
      omega

/-- What is found at the place is what it was changed to. -/
theorem get_modify (f : Node D → Node D) (path : List Key) (n q : Node D)
    (h : n.get path = some q) : (n.modify f path).get path = some (f q) := by
  induction path generalizing n with
  | nil =>
      cases h
      rfl
  | cons key path ih =>
      rcases Option.bind_eq_some_iff.mp h with ⟨c, hchild, hget⟩
      rw [modify, get, Payload.child_modifyChild, hchild]
      exact ih c hget

/-- Going down is all that changes below the top. -/
theorem modify_fst (f : Node D → Node D) (path : List Key) (n q : Node D)
    (h : n.get path = some q) (hf : path = [] → (f q).1 = q.1) : (n.modify f path).1 = n.1 := by
  cases path with
  | nil =>
      cases h
      exact hf rfl
  | cons key path => rfl

end Node

namespace Slot

/-- The change at a place gives a `Json` a new payload, or leaves the number alone. -/
def Keeps (f : Node D → Node D) (path : List Key) (s : Slot D) (q : Node D) : Prop :=
  s.IsJson path ∨ (f q).1 = q.1

/-- The same for an object of the program. -/
theorem modify_count (f : Node D → Node D) (path : List Key) (s : Slot D) (q : Node D) (k : Nat)
    (h : s.get path = some q) (hf : Keeps f path s q) :
    (s.modify f path).ids.count k + q.ids.count k = s.ids.count k + (f q).ids.count k := by
  cases s with
  | gone => cases h
  | alternative a =>
      have hnode := Node.modify_count f path (0, a) q k h
      have hfst := Node.modify_fst f path (0, a) q h (by
        -- An alternative itself is no `Json`, so it has no number to change.
        rintro rfl
        exact hf.resolve_left id)
      have htop : (Node.ids (0, a)).count k = [0].count k + a.ids.count k := Node.ids_count _ k
      have htop' : (Node.modify f path (0, a)).ids.count k
          = [0].count k + (Node.modify f path (0, a)).2.ids.count k := by
        rw [Node.ids_count, hfst]
      simp only [modify, ids]
      omega
  | variant v =>
      cases v with
      | none => cases h
      | some n => exact Node.modify_count f path n q k h
  | json n => exact Node.modify_count f path n q k h

/-- And this too. -/
theorem get_modify (f : Node D → Node D) (path : List Key) (s : Slot D) (q : Node D)
    (h : s.get path = some q) (hjson : s.IsJson path) :
    (s.modify f path).get path = some (f q) := by
  cases s with
  | gone => cases h
  | alternative a =>
      cases path with
      | nil => exact absurd hjson id
      | cons key path => exact Node.get_modify f (key :: path) (0, a) q h
  | variant v =>
      cases v with
      | none => cases h
      | some n => exact Node.get_modify f path n q h
  | json n => exact Node.get_modify f path n q h

/-- The end of an object destroys all that is in it. -/
theorem destroy_destroyed (m : Memory) (s : Slot D) (k : Nat) :
    (s.destroy m).destroyed k = m.destroyed k + s.ids.count k := by
  cases s with
  | variant v => cases v <;> rfl
  | _ => rfl

theorem destroy_born (m : Memory) (s : Slot D) : (s.destroy m).born = m.born := by
  cases s with
  | variant v => cases v <;> rfl
  | _ => rfl

end Slot

namespace Objects

variable {ι : Type} [DecidableEq ι]

/-! ## Counting -/

/-- Every payload that was put in place stands in one place and has not been destroyed,
    or stands nowhere and has been destroyed once. -/
structure Once (w : Objects ι D) : Prop where
  nodup : ∀ i, (w.slot i).ids.Nodup
  apart : ∀ i j k, k ∈ (w.slot i).ids → k ∈ (w.slot j).ids → i = j
  alive : ∀ i k, k ∈ (w.slot i).ids → k < w.memory.next ∧ w.memory.destroyed k = 0
  gone : ∀ k, k < w.memory.next → (∀ i, k ∉ (w.slot i).ids) → w.memory.destroyed k = 1
  fresh : ∀ k, w.memory.next ≤ k → w.memory.destroyed k = 0

/-- The same, as a count over as many objects as there are: a number has been given out
    as often as it is found in an object or was destroyed. -/
def Balanced (w : Objects ι D) : Prop :=
  ∀ k, ∃ S : Finset ι, ∀ T, S ⊆ T →
    ∑ i ∈ T, (w.slot i).ids.count k + w.memory.destroyed k = w.memory.born.count k

omit [DecidableEq ι] in
/-- No destructor has run twice. -/
theorem once_destroyed (w : Objects ι D) (h : Once w) (k : Nat) : w.memory.destroyed k ≤ 1 := by
  by_cases hk : k < w.memory.next
  · by_cases hheld : ∃ i, k ∈ (w.slot i).ids
    · rcases hheld with ⟨i, hi⟩
      rw [(h.alive i k hi).2]
      exact Nat.zero_le 1
    · exact (h.gone k hk (fun i hi => hheld ⟨i, hi⟩)).le
  · rw [h.fresh k (Nat.not_lt.mp hk)]
    exact Nat.zero_le 1

theorem born_count_le (m : Memory) (k : Nat) : m.born.count k ≤ 1 :=
  List.nodup_iff_count_le_one.mp List.nodup_range k

theorem born_count_pos (m : Memory) (k : Nat) : 0 < m.born.count k ↔ k < m.next :=
  List.count_pos_iff.trans List.mem_range

/-- Numbers that add up stand in one place each, or nowhere. -/
theorem balanced_once (w : Objects ι D) (h : Balanced w) : Once w := by
  -- The count over any objects at all stays below the numbers given out.
  have hle : ∀ k (T : Finset ι), ∑ i ∈ T, (w.slot i).ids.count k + w.memory.destroyed k
      ≤ w.memory.born.count k := by
    intro k T
    rcases h k with ⟨S, hS⟩
    rw [← hS (S ∪ T) Finset.subset_union_left]
    exact Nat.add_le_add_right (Finset.sum_le_sum_of_subset Finset.subset_union_right) _
  have hone : ∀ k i, (w.slot i).ids.count k + w.memory.destroyed k ≤ w.memory.born.count k := by
    intro k i
    have hi := hle k {i}
    rwa [Finset.sum_singleton] at hi
  refine ⟨fun i => ?_, fun i j k hi hj => ?_, fun i k hi => ?_, fun k hk hnone => ?_,
    fun k hk => ?_⟩
  · -- Twice in one object, or in two of them, would be more than were given out.
    refine List.nodup_iff_count_le_one.mpr (fun k => ?_)
    have hi := hone k i
    have hborn := born_count_le w.memory k
    omega
  · by_contra hij
    have hboth := hle k {i, j}
    rw [Finset.sum_pair hij] at hboth
    have hi := List.count_pos_iff.mpr hi
    have hj := List.count_pos_iff.mpr hj
    have hborn := born_count_le w.memory k
    omega
  · have hcount := hone k i
    have hi := List.count_pos_iff.mpr hi
    have hborn := born_count_le w.memory k
    exact ⟨(born_count_pos w.memory k).mp (by omega), by omega⟩
  · -- A number that is nowhere must have been destroyed, for the sum to come out.
    rcases h k with ⟨S, hS⟩
    have hcount := hS S (Finset.Subset.refl S)
    rw [Finset.sum_eq_zero (fun i _ => List.count_eq_zero_of_not_mem (hnone i)), Nat.zero_add]
      at hcount
    have hborn := born_count_le w.memory k
    have hpos := (born_count_pos w.memory k).mpr hk
    omega
  · have hcount := hle k ∅
    have hborn : ¬ 0 < w.memory.born.count k := fun hpos =>
      absurd ((born_count_pos w.memory k).mp hpos) (Nat.not_lt.mpr hk)
    omega

/-- What changes at a few objects keeps the balance if it is balanced there. -/
theorem balanced_change (w w' : Objects ι D) (R : Finset ι) (hw : Balanced w)
    (hsame : ∀ i, i ∉ R → w'.slot i = w.slot i)
    (hsum : ∀ k, ∑ i ∈ R, (w'.slot i).ids.count k + w'.memory.destroyed k + w.memory.born.count k
      = ∑ i ∈ R, (w.slot i).ids.count k + w.memory.destroyed k + w'.memory.born.count k) :
    Balanced w' := by
  intro k
  rcases hw k with ⟨S, hS⟩
  refine ⟨S ∪ R, fun T hT => ?_⟩
  have hR : R ⊆ T := Finset.Subset.trans Finset.subset_union_right hT
  have hbefore := hS T (Finset.Subset.trans Finset.subset_union_left hT)
  have hrest : ∑ i ∈ T \ R, (w'.slot i).ids.count k = ∑ i ∈ T \ R, (w.slot i).ids.count k :=
    Finset.sum_congr rfl (fun i hi => by rw [hsame i (Finset.mem_sdiff.mp hi).2])
  -- Apart from `R` the sums are the same before and after.
  rw [← Finset.sum_sdiff hR] at hbefore ⊢
  rw [hrest]
  have hchange := hsum k
  omega

@[simp] theorem put_self (w : Objects ι D) (i : ι) (s : Slot D) : (w.put i s).slot i = s :=
  Function.update_self ..

theorem put_other (w : Objects ι D) (i j : ι) (s : Slot D) (h : j ≠ i) :
    (w.put i s).slot j = w.slot j := Function.update_of_ne h ..

/-- One object changes. -/
theorem balanced_put (w : Objects ι D) (i : ι) (s : Slot D) (m : Memory) (hw : Balanced w)
    (h : ∀ k, s.ids.count k + m.destroyed k + w.memory.born.count k
      = (w.slot i).ids.count k + w.memory.destroyed k + m.born.count k) :
    Balanced ((w.put i s).withMemory m) := by
  refine balanced_change w _ {i} hw (fun j hj => ?_) (fun k => ?_)
  · exact put_other w i j s (fun hji => hj (Finset.mem_singleton.mpr hji))
  · rw [Finset.sum_singleton, Finset.sum_singleton]
    have hself : ((w.put i s).withMemory m).slot i = s := put_self w i s
    rw [hself]
    exact h k

/-- One object changes, and a payload in another is copied or moved. -/
theorem balanced_leave (w : Objects ι D) (i : ι) (s : Slot D) (fwd : Forward) (q : Place ι)
    (n : Node D) (m : Memory) (hw : Balanced w) (hqi : q.1 ≠ i) (hq : w.get q = some n)
    (h : ∀ k, s.ids.count k + (fwd.leave n.2).ids.count k + m.destroyed k
        + w.memory.born.count k
      = (w.slot i).ids.count k + n.2.ids.count k + w.memory.destroyed k + m.born.count k) :
    Balanced (((w.put i s).leave fwd q).withMemory m) := by
  have hi : (((w.put i s).leave fwd q).withMemory m).slot i = s :=
    (put_other _ _ _ _ hqi.symm).trans (put_self w i s)
  have hslot : (w.put i s).slot q.1 = w.slot q.1 := put_other w i q.1 s hqi
  refine balanced_change w _ {i, q.1} hw (fun j hj => ?_) (fun k => ?_)
  · rw [Finset.mem_insert, Finset.mem_singleton, not_or] at hj
    exact (put_other _ _ _ _ hj.2).trans (put_other w i j s hj.1)
  · rw [Finset.sum_pair hqi.symm, Finset.sum_pair hqi.symm, hi]
    -- Only what is inside the source is taken, its own number stays.
    have hleft : (((w.put i s).leave fwd q).withMemory m).slot q.1
        = (w.slot q.1).modify (fun n => (n.1, fwd.leave n.2)) q.2 := by
      rw [← hslot]
      exact put_self _ _ _
    have hcount := Slot.modify_count (fun n => (n.1, fwd.leave n.2)) q.2 (w.slot q.1) n k hq
      (Or.inr rfl)
    have hn := Node.ids_count n k
    have hn' : (Node.ids (n.1, fwd.leave n.2)).count k
        = [n.1].count k + (fwd.leave n.2).ids.count k := Node.ids_count _ k
    have hchange := h k
    rw [hleft]
    simp only [withMemory]
    omega

/-! ## Operations -/

/-- The operation does not run a destructor twice: it is not one of the assignments of
    a `Json` from an alternative, a `JsonValue` or another `Json`. -/
def Op.Spares : Op ι D → Prop
  | .assign .. => False
  | .assignValue .. => False
  | .assignJson p _ q => p = q
  | _ => True

/-- An assignment leaves the value of its source in its target. -/
def Assigned (w : Objects ι D) : Op ι D → Objects ι D → Prop
  | .assign p _ q, w' => w'.value p = w.value q
  | .assignValue p _ i, w' => w'.value p = w.value (i, [])
  | .assignJson p _ q, w' => w'.value p = w.value q
  | .assignLiteral p l, w' => w'.value p = some (l.payload : Payload D).value
  | .assignAlternative i _ q, w' => w'.value (i, []) = w.value q
  | .assignVariant i _ j, w' => w'.value (i, []) = w.value (j, [])
  | _, _ => True

omit [DecidableEq ι] in
/-- What is found in an object is not in one that is gone. -/
theorem get_ne (w : Objects ι D) (q : Place ι) (i : ι) (n : Node D) (hi : w.slot i = .gone)
    (hq : w.get q = some n) : q.1 ≠ i := by
  rintro rfl
  rw [get, hi] at hq
  cases hq

/-- A new object without payloads inside. -/
theorem init_plain (m : Memory) (obj : Payload D) (h : obj.ids = []) (k : Nat) :
    (Variant.init m .move obj).2.ids.count k + m.born.count k
      = (Variant.init m .move obj).1.born.count k := by
  have hinit := Variant.init_count m .move obj k
  rw [Forward.leave, Payload.taken_ids, h, List.count_nil] at hinit
  omega

omit [DecidableEq ι] in
theorem literal_ids (l : Literal) : (l.payload : Payload D).ids = [] := by
  cases l <;> rfl

/-- The operations that spare payloads keep the balance. -/
theorem step_balanced (w : Objects ι D) (op : Op ι D) (w' : Objects ι D) (hw : Balanced w)
    (hstep : Step w op w') (hop : op.Spares) : Balanced w' := by
  cases hstep with
  | alternative i j hi =>
      refine balanced_put w i _ _ hw (fun k => ?_)
      rcases Payload.build_ids w.memory.next j with ⟨l, hids, hnext⟩
      -- What `build` has made are the identities from the old counter to the new one.
      have hborn : ({ w.memory with next := (Payload.build w.memory.next j).2 } : Memory).born
          = w.memory.born ++ List.range' w.memory.next l := by
        rw [Memory.born, Memory.born, ← range_split, ← hnext]
      rw [hi, hborn, List.count_append]
      simp only [Slot.ids, hids, List.count_nil]
      omega
  | default i hi =>
      refine balanced_put w i _ _ hw (fun k => ?_)
      have hinit := init_plain w.memory (.object [] : Payload D) rfl k
      rw [hi]
      simp only [Slot.ids, Variant.init_destroyed, List.count_nil]
      omega
  | literal i l hi =>
      refine balanced_put w i _ _ hw (fun k => ?_)
      have hinit := init_plain w.memory (l.payload : Payload D) (literal_ids l) k
      rw [hi]
      simp only [Slot.ids, Variant.init_destroyed, List.count_nil]
      omega
  | json i fwd q n hi hq =>
      refine balanced_leave w i _ fwd q n _ hw (get_ne w q i n hi hq) hq (fun k => ?_)
      have hinit := Variant.init_count w.memory fwd n.2 k
      rw [hi]
      simp only [Slot.ids, Variant.init_destroyed, List.count_nil]
      omega
  | empty i hi =>
      refine balanced_put w i _ w.memory hw (fun k => ?_)
      rw [hi]
      rfl
  | variant i fwd q n hi hq =>
      refine balanced_leave w i _ fwd q n _ hw (get_ne w q i n hi hq) hq (fun k => ?_)
      have hinit := Variant.init_count w.memory fwd n.2 k
      rw [hi]
      simp only [Slot.ids, Variant.init_destroyed, List.count_nil]
      omega
  | assign p q fwd self obj _ _ _ _ => exact absurd hop id
  | assignValue p fwd i self obj _ _ _ => exact absurd hop id
  | assignJson p q fwd self rhs _ _ _ _ hpart =>
      -- An operation that spares assigns no part of an object to that object.
      exact absurd ⟨congrArg Prod.fst hop.symm, hop ▸ List.prefix_rfl⟩ hpart
  | assignSelf p fwd self _ _ => exact hw
  | assignLiteral p l self hjson hp =>
      refine balanced_put w p.1 _ _ hw (fun k => ?_)
      have hassign := Variant.assign_count w.memory (some self) .move (l.payload : Payload D) k
      have hcount := Slot.modify_count (fun _ => (self.assignLiteral w.memory l).2) p.2
        (w.slot p.1) self k hp (Or.inl hjson)
      rw [Forward.leave, Payload.taken_ids, literal_ids, List.count_nil] at hassign
      simp only [Slot.ids, Node.assignLiteral] at hassign hcount ⊢
      omega
  | assignAlternative i v fwd q rhs hi hq hpart =>
      have hqi : q.1 ≠ i := fun h => hpart ⟨h, List.nil_prefix⟩
      refine balanced_leave w i _ fwd q rhs _ hw hqi hq (fun k => ?_)
      rw [hi]
      -- `assign` of the variant alone destroys what was there before, so its count is exact.
      exact Variant.assign_count w.memory v fwd rhs.2 k
  | assignVariant i v fwd j rhs hij hi hj =>
      have hq : w.get (j, []) = some rhs := by
        rw [get, hj]
        rfl
      refine balanced_leave w i _ fwd (j, []) rhs _ hw hij.symm hq (fun k => ?_)
      rw [hi]
      exact Variant.assign_count w.memory v fwd rhs.2 k
  | assignVariantSelf i v fwd hi => exact hw
  | subscript p index id members hp hnone =>
      refine balanced_put w p.1 _ _ hw (fun k => ?_)
      have hinit := init_plain w.memory (.object [] : Payload D) rfl k
      have hcount := Slot.modify_count (fun _ => (id, .object (SortedMap.insert index
        (Variant.init w.memory .move (.object [])).2 members))) p.2 (w.slot p.1) _ k hp (Or.inr rfl)
      -- The new member joins those that are there, as no member had its name.
      have hinsert := Payload.insert_count index
        (Variant.init w.memory .move (.object [] : Payload D)).2 k members hnone
      rw [Node.ids_count, Node.ids_count] at hcount
      simp only [Payload.ids, Variant.init_destroyed] at hcount ⊢
      omega
  | subscriptFound p index id members n hp hn => exact hw
  | destroy i hi =>
      refine balanced_put w i _ _ hw (fun k => ?_)
      -- Everything in the slot moves from the living to the destroyed, once.
      rw [Slot.destroy_destroyed, Slot.destroy_born]
      simp only [Slot.ids, List.count_nil]
      omega

/-- Such an operation leaves the value of its source in its target. -/
theorem step_assigned (w : Objects ι D) (op : Op ι D) (w' : Objects ι D)
    (hstep : Step w op w') (hop : op.Spares) : Assigned w op w' := by
  -- A variant that was assigned holds what `init` has put there.
  have hvariant : ∀ (i : ι) (v : Variant D) (fwd : Forward) (q : Place ι) (rhs : Node D)
      (m : Memory), q.1 ≠ i → w.get q = some rhs →
      (((w.put i (.variant (some (Variant.assign w.memory v fwd rhs.2).2))).leave fwd q).withMemory
        m).value (i, []) = w.value q := by
    intro i v fwd q rhs m hqi hq
    have hslot : (((w.put i (.variant (some (Variant.assign w.memory v fwd rhs.2).2))).leave fwd
        q).withMemory m).slot i = .variant (some (Variant.assign w.memory v fwd rhs.2).2) :=
      (put_other _ _ _ _ hqi.symm).trans (put_self w i _)
    rw [value, value, get, hslot, hq]
    exact congrArg some (Variant.init_value (Variant.destroy w.memory v) fwd rhs.2)
  cases hstep with
  | assign p q fwd self obj _ _ _ _ => exact absurd hop id
  | assignValue p fwd i self obj _ _ _ => exact absurd hop id
  | assignJson p q fwd self rhs _ _ _ _ hpart =>
      exact absurd ⟨congrArg Prod.fst hop.symm, hop ▸ List.prefix_rfl⟩ hpart
  | assignSelf p fwd self _ _ => rfl
  | assignLiteral p l self hjson hp =>
      have hslot : ((w.modify p fun _ => (self.assignLiteral w.memory l).2).withMemory
          (self.assignLiteral w.memory l).1).slot p.1
          = (w.slot p.1).modify (fun _ => (self.assignLiteral w.memory l).2) p.2 := put_self w p.1 _
      rw [Assigned, value, get, hslot, Slot.get_modify _ _ _ _ hp hjson]
      exact congrArg some (Variant.init_value _ .move l.payload)
  | assignAlternative i v fwd q rhs hi hq hpart =>
      exact hvariant i v fwd q rhs _ (fun h => hpart ⟨h, List.nil_prefix⟩) hq
  | assignVariant i v fwd j rhs hij hi hj =>
      have hq : w.get (j, []) = some rhs := by
        rw [get, hj]
        rfl
      exact hvariant i v fwd (j, []) rhs _ hij.symm hq
  | assignVariantSelf i v fwd hi => rfl
  | _ => trivial

omit [DecidableEq ι] in
/-- The destructor of a payload has run twice. -/
theorem not_once (w : Objects ι D) (self : Node D) (m : Memory)
    (hm : ∀ k, m.destroyed k = w.memory.destroyed k + self.ids.count k + self.ids.count k)
    (w' : Objects ι D) (hw' : w'.memory = m) : ¬ Once w' := by
  intro h
  have hle := once_destroyed w' h self.1
  have htwice := hm self.1
  -- The number of the payload itself has been counted twice.
  have hpos : 0 < self.ids.count self.1 := List.count_pos_iff.mpr List.mem_cons_self
  rw [hw'] at hle
  omega

/-- The other assignments destroy the payload of their target twice. -/
theorem step_twice (w : Objects ι D) (op : Op ι D) (w' : Objects ι D) (hstep : Step w op w')
    (hop : ¬ op.Spares) : ¬ Once w' := by
  cases hstep with
  | assign p q fwd self obj _ _ _ _ => exact not_once w self _ (fun _ => rfl) _ rfl
  | assignValue p fwd i self obj _ _ _ => exact not_once w self _ (fun _ => rfl) _ rfl
  | assignJson p q fwd self rhs _ _ _ _ _ => exact not_once w self _ (fun _ => rfl) _ rfl
  | assignSelf p fwd self _ _ => exact absurd rfl hop
  | _ => exact absurd trivial hop

omit [DecidableEq ι] in
theorem balanced_initial : Balanced (initial : Objects ι D) := by
  intro k
  refine ⟨∅, fun T _ => ?_⟩
  exact congrArg (· + 0) (Finset.sum_eq_zero (fun _ _ => rfl))

/-- In a run without those assignments every payload is destroyed at most once, and
    where it is not there any more, exactly once; and such a step, and no other, goes on
    like this and leaves in the target of an assignment the value of its source. -/
theorem payloads_once (w : Objects ι D) (ops : List (Op ι D))
    (h : Steps (Guarded Step fun _ op => op.Spares) initial ops w) :
    Once w ∧ ∀ op w', Step w op w' → (Once w' ∧ Assigned w op w' ↔ op.Spares) := by
  have hw : Balanced w := steps_invariant Balanced
    (fun s op s' hs hstep => step_balanced s op s' hs hstep.1 hstep.2) _ w ops h balanced_initial
  refine ⟨balanced_once w hw, fun op w' hstep => ⟨fun hgood => ?_, fun hop => ?_⟩⟩
  · by_contra hop
    exact step_twice w op w' hstep hop hgood.1
  · exact ⟨balanced_once w' (step_balanced w op w' hw hstep hop), step_assigned w op w' hstep hop⟩

/-- A `Json` is made, and assigned a literal. -/
theorem payloads_once_literal : ∃ w : Objects Unit Unit,
    Steps Step initial [.default (), .assignLiteral ((), []) (.boolean true)] w ∧ Once w := by
  have hrun : Steps (Guarded Step fun _ op => op.Spares) (initial : Objects Unit Unit)
      [.default (), .assignLiteral ((), []) (.boolean true)] _ :=
    Steps.cons _ _ _ _ _ ⟨Step.default _ () rfl, trivial⟩ (Steps.cons _ _ _ _ _
      ⟨Step.assignLiteral _ ((), []) (.boolean true) _ trivial rfl, trivial⟩ (Steps.refl _))
  exact ⟨_, steps_of_guarded _ _ _ _ hrun, (payloads_once _ _ hrun).1⟩

/-- `object[key] = parseImpl(p)`: the default `Json` that `operator[]` inserts is
    destroyed by `~Json()`, and again by `Variant::operator=`. -/
theorem payloads_twice : ¬ ∀ (ops : List (Op Bool Unit)) (w : Objects Bool Unit),
    Steps Step initial ops w → Once w := by
  intro h
  have hrun : Steps Step (initial : Objects Bool Unit)
      [.default false, .literal true .null, .subscript (false, []) (text "a"),
        .assignJson (false, [.member (text "a")]) .move (true, [])] _ :=
    Steps.cons _ _ _ _ _ (Step.default _ false rfl) (Steps.cons _ _ _ _ _
      (Step.literal _ true .null rfl) (Steps.cons _ _ _ _ _
        (Step.subscript _ (false, []) (text "a") 0 [] rfl rfl) (Steps.cons _ _ _ _ _
          (Step.assignJson _ (false, [.member (text "a")]) (true, []) .move _ _ trivial rfl trivial
            rfl (fun hpart => (by cases hpart.1))) (Steps.refl _))))
  exact absurd (once_destroyed _ (h _ _ hrun) 2) (by decide)

end Objects

end Vsjson
