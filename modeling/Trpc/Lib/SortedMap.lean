import Mathlib.Data.List.Pairwise
import Mathlib.Order.Lattice

/-!
# Sorted Association Lists

Finite maps as lists of key and value, kept in strictly increasing order of
their keys. The list is the map's own iteration order, so a program that walks
an ordered map walks this list.

The list form is used rather than an abstract finite map because a recursive
data type can nest a list of itself but not a quotient of one. `Sorted` is the
invariant; `insert` and `erase` keep it, and lookups need no invariant at all,
since `insert` goes past a key it replaces in one pass.

`insert_of_above` is the fact a reader of an ordered listing relies on: entries
that arrive in increasing order are each appended at the end, so reading a
listing back rebuilds it.

## Main definitions

* `lookup`: The value stored under a key.
* `insert`: Add a key or replace its value.
* `erase`: Remove a key.
* `Sorted`: Keys strictly increase.
* `Above`: A key lies above every key of a map.

## Theorems

* `lookup_insert_self`: A key just inserted holds its value.
* `insert_sorted`: Insertion keeps the order.
* `insert_of_above`: A key above all others is appended.
* `mem_insert`: An entry of the result was inserted or was there before.
-/

namespace SortedMap

variable {κ α : Type} [LinearOrder κ]

/-- The value stored under `k`, if any. -/
def lookup (k : κ) : List (κ × α) → Option α
  | [] => none
  | (k', v) :: m => if k = k' then some v else lookup k m

/-- Store `v` under `k`, replacing what was there. -/
def insert (k : κ) (v : α) : List (κ × α) → List (κ × α)
  | [] => [(k, v)]
  | (k', v') :: m =>
    if k < k' then (k, v) :: (k', v') :: m
    else if k = k' then (k, v) :: m
    else (k', v') :: insert k v m

/-- Remove `k` and its value. -/
def erase (k : κ) : List (κ × α) → List (κ × α)
  | [] => []
  | (k', v) :: m => if k = k' then m else (k', v) :: erase k m

/-- Keys strictly increase along the list. -/
def Sorted (m : List (κ × α)) : Prop := m.Pairwise fun a b => a.1 < b.1

/-- `k` lies above every key of `m`. -/
def Above (k : κ) (m : List (κ × α)) : Prop := ∀ e ∈ m, e.1 < k

@[simp] theorem lookup_nil (k : κ) : lookup k ([] : List (κ × α)) = none := rfl

theorem lookup_cons_self (k : κ) (v : α) (m : List (κ × α)) :
    lookup k ((k, v) :: m) = some v := by
  simp only [lookup, if_true]

theorem lookup_cons_ne (k k' : κ) (v : α) (m : List (κ × α)) (h : k ≠ k') :
    lookup k ((k', v) :: m) = lookup k m := by
  simp only [lookup, if_neg h]

@[simp] theorem lookup_insert_self (k : κ) (v : α) (m : List (κ × α)) :
    lookup k (insert k v m) = some v := by
  induction m with
  | nil => simp only [insert, lookup, if_true]
  | cons e m ih =>
      rcases e with ⟨k', v'⟩
      simp only [insert]
      by_cases hlt : k < k'
      · simp only [if_pos hlt, lookup, if_true]
      · by_cases heq : k = k'
        · simp only [if_neg hlt, if_pos heq, lookup, if_true]
        · simp only [if_neg hlt, if_neg heq, lookup]
          exact ih

theorem lookup_insert_ne (k k' : κ) (v : α) (m : List (κ × α)) (h : k ≠ k') :
    lookup k (insert k' v m) = lookup k m := by
  induction m with
  | nil => exact lookup_cons_ne k k' v [] h
  | cons e m ih =>
      rcases e with ⟨k'', v'⟩
      unfold insert
      split
      · exact lookup_cons_ne k k' v _ h
      split
      case isTrue heq =>
        -- What was replaced had the other key.
        rw [← heq, lookup_cons_ne k k' v m h, lookup_cons_ne k k' v' m h]
      case isFalse =>
        by_cases hk : k = k''
        · rw [hk, lookup_cons_self, lookup_cons_self]
        · rw [lookup_cons_ne k k'' v' _ hk, lookup_cons_ne k k'' v' _ hk, ih]

theorem insert_isEmpty (k : κ) (v : α) (m : List (κ × α)) : (insert k v m).isEmpty = false := by
  cases m with
  | nil => rfl
  | cons e m =>
      rw [insert]
      by_cases hlt : k < e.1
      · rw [if_pos hlt]
        rfl
      · rw [if_neg hlt]
        by_cases hk : k = e.1
        · rw [if_pos hk]
          rfl
        · rw [if_neg hk]
          rfl

theorem mem_insert (k : κ) (v : α) (m : List (κ × α)) (e : κ × α) (h : e ∈ insert k v m) :
    e = (k, v) ∨ e ∈ m := by
  induction m with
  | nil => exact Or.inl (List.mem_singleton.mp h)
  | cons d m ih =>
      rcases d with ⟨j, w⟩
      simp only [insert] at h
      by_cases hlt : k < j
      · rw [if_pos hlt] at h
        exact List.mem_cons.mp h
      · by_cases heq : k = j
        · rw [if_neg hlt, if_pos heq] at h
          rcases List.mem_cons.mp h with h | h
          · exact Or.inl h
          · exact Or.inr (List.mem_cons_of_mem _ h)
        · rw [if_neg hlt, if_neg heq] at h
          -- The key goes further down, past this entry.
          rcases List.mem_cons.mp h with h | h
          · exact Or.inr (by rw [h]; exact List.mem_cons_self)
          · rcases ih h with h | h
            · exact Or.inl h
            · exact Or.inr (List.mem_cons_of_mem _ h)

theorem sorted_nil : Sorted ([] : List (κ × α)) := List.Pairwise.nil

theorem insert_sorted (k : κ) (v : α) (m : List (κ × α)) (h : Sorted m) :
    Sorted (insert k v m) := by
  induction m with
  | nil => exact List.pairwise_singleton _ _
  | cons e m ih =>
      rcases e with ⟨j, w⟩
      rcases List.pairwise_cons.mp h with ⟨hj, hm⟩
      simp only [insert]
      by_cases hlt : k < j
      · rw [if_pos hlt]
        refine List.pairwise_cons.mpr ⟨fun e he => ?_, h⟩
        -- In front of all the others, which are larger still.
        rcases List.mem_cons.mp he with rfl | he
        · exact hlt
        · exact lt_trans hlt (hj e he)
      · by_cases heq : k = j
        · rw [if_neg hlt, if_pos heq]
          exact List.pairwise_cons.mpr ⟨fun e he => by rw [heq]; exact hj e he, hm⟩
        · rw [if_neg hlt, if_neg heq]
          -- It goes past the first entry, which stays the smallest.
          have hjk : j < k := lt_of_le_of_ne (not_lt.mp hlt) (fun hc => heq hc.symm)
          refine List.pairwise_cons.mpr ⟨fun e he => ?_, ih hm⟩
          rcases mem_insert k v m e he with rfl | he
          · exact hjk
          · exact hj e he

/-- A key above all others goes at the end. -/
theorem insert_of_above (k : κ) (v : α) (m : List (κ × α)) (h : Above k m) :
    insert k v m = m ++ [(k, v)] := by
  induction m with
  | nil => rfl
  | cons e m ih =>
      rcases e with ⟨j, w⟩
      have hjk : j < k := h (j, w) List.mem_cons_self
      simp only [insert]
      -- Neither in front of this entry nor in its place.
      rw [if_neg (not_lt.mpr (le_of_lt hjk)),
        if_neg (fun hc => absurd hjk (by rw [hc]; exact lt_irrefl j)),
        ih (fun e he => h e (List.mem_cons_of_mem _ he))]
      rfl

/-- Such a key is not in the map. -/
theorem lookup_of_above (k : κ) (m : List (κ × α)) (h : Above k m) : lookup k m = none := by
  induction m with
  | nil => rfl
  | cons e m ih =>
      have hne : k ≠ e.1 := fun hk => lt_irrefl k (hk ▸ h e List.mem_cons_self)
      rw [show e = (e.1, e.2) from rfl, lookup_cons_ne k e.1 e.2 m hne]
      exact ih fun e' he' => h e' (List.mem_cons_of_mem _ he')

/-- In a sorted listing cut in two, the first key of the second part lies above
    the whole first part. -/
theorem above_of_sorted (m : List (κ × α)) (k : κ) (v : α) (m' : List (κ × α))
    (h : Sorted (m ++ (k, v) :: m')) : Above k m := by
  intro e he
  exact (List.pairwise_append.mp h).2.2 e he (k, v) List.mem_cons_self

end SortedMap
