import Mathlib.Data.List.Count
import Mathlib.Data.List.Nodup
import Mathlib.Logic.Function.Basic

/-!
# Exclusive Holders

Places that hold things, each at most one, such that no thing is held in two places:
unique pointers, file descriptors, slots of a pool. What a place holds is an `Option`.

The operations that keep this are moving a thing to another place, adding a thing that
nobody holds, and dropping one. The lemmas take the map before and the map behind,
however they are given, and ask what they have in common.

Where things are opened and closed again, possibly under a name that was in use
before, two counters for each name tell what is open. A `Ledger` lists the names that
somebody holds, each once, and says that these are the open ones.

Where a place may hold any number of things, `Divided` says that the things that are
there are divided among the places. A thing may be taken by a place, dropped by the one
that has it, or passed on.

## Main definitions

* `Exclusive`: No thing is held in two places.
* `Ledger`: What is held is what is open.
* `Divided`: What is there is held in one place each.

## Theorems

* `exclusive_move`: A thing may be moved.
* `exclusive_add`: A thing nobody holds may be added.
* `ledger_open`, `ledger_close`: A holder opens and closes.
* `divided_take`, `divided_drop`, `divided_pass`: A place takes, drops and passes on.
-/

namespace Holding

variable {α β : Type}

/-- No thing is held in two places. -/
def Exclusive (f : α → Option β) : Prop :=
  ∀ a b k, f a = some k → f b = some k → a = b

theorem exclusive_move (f g : α → Option β) (src dst : α) (hf : Exclusive f)
    (hsrc : g src = none) (hdst : g dst = f src)
    (hother : ∀ a, a ≠ src → a ≠ dst → g a = f a) : Exclusive g := by
  -- What is held behind at `dst` was held before at `src`, everything else where it is.
  have hback : ∀ a k, g a = some k →
      a ≠ src ∧ (a = dst ∧ f src = some k ∨ a ≠ dst ∧ f a = some k) := by
    intro a k ha
    have hne : a ≠ src := by
      intro heq
      rw [heq, hsrc] at ha
      exact absurd ha (by simp)
    refine ⟨hne, ?_⟩
    by_cases had : a = dst
    · exact Or.inl ⟨had, by rw [← hdst, ← had, ha]⟩
    · exact Or.inr ⟨had, by rw [← hother a hne had, ha]⟩
  intro a b k ha hb
  obtain ⟨hasrc, ⟨had, hfa⟩ | ⟨had, hfa⟩⟩ := hback a k ha
  · obtain ⟨hbsrc, ⟨hbd, hfb⟩ | ⟨hbd, hfb⟩⟩ := hback b k hb
    · rw [had, hbd]
    · exact absurd (hf src b k hfa hfb).symm hbsrc
  · obtain ⟨hbsrc, ⟨hbd, hfb⟩ | ⟨hbd, hfb⟩⟩ := hback b k hb
    · exact absurd (hf a src k hfa hfb) hasrc
    · exact hf a b k hfa hfb

theorem exclusive_add (f g : α → Option β) (dst : α) (k : β) (hf : Exclusive f)
    (hnew : ∀ a, f a ≠ some k) (hdst : g dst = some k) (hother : ∀ a, a ≠ dst → g a = f a) :
    Exclusive g := by
  intro a b j ha hb
  by_cases had : a = dst
  · by_cases hbd : b = dst
    · rw [had, hbd]
    · rw [had, hdst] at ha
      rw [hother b hbd, ← ha] at hb
      exact absurd hb (hnew b)
  · by_cases hbd : b = dst
    · rw [hbd, hdst] at hb
      rw [hother a had, ← hb] at ha
      exact absurd ha (hnew a)
    · rw [hother a had] at ha
      rw [hother b hbd] at hb
      exact hf a b j ha hb

/-- No name is held twice, and what is held is what was opened more often than closed. -/
structure Ledger [DecidableEq α] (opens closes : α → Nat) (held : List α) : Prop where
  unique : held.Nodup
  balance : ∀ a, opens a = closes a + held.count a

section Ledger

variable [DecidableEq α] {opens closes : α → Nat} {held held' : List α}

theorem ledger_perm (h : Ledger opens closes held) (hperm : held.Perm held') :
    Ledger opens closes held' :=
  ⟨hperm.nodup_iff.mp h.unique, fun a => by rw [← hperm.count_eq]; exact h.balance a⟩

/-- What is as often closed as opened is held by nobody. -/
theorem ledger_free (h : Ledger opens closes held) (a : α) (ha : opens a = closes a) :
    a ∉ held := by
  have hbalance := h.balance a
  rw [← List.count_eq_zero]
  omega

theorem ledger_open (h : Ledger opens closes held) (a : α) (ha : opens a = closes a) :
    Ledger (Function.update opens a (opens a + 1)) closes (a :: held) := by
  refine ⟨List.nodup_cons.mpr ⟨ledger_free h a ha, h.unique⟩, fun b => ?_⟩
  have hbalance := h.balance b
  by_cases hb : b = a
  · subst hb
    rw [Function.update_self, List.count_cons_self]
    omega
  · rw [Function.update_of_ne hb, List.count_cons_of_ne (Ne.symm hb)]
    exact hbalance

theorem ledger_close (a : α) (h : Ledger opens closes (a :: held)) :
    Ledger opens (Function.update closes a (closes a + 1)) held := by
  refine ⟨(List.nodup_cons.mp h.unique).2, fun b => ?_⟩
  have hbalance := h.balance b
  by_cases hb : b = a
  · subst hb
    rw [List.count_cons_self] at hbalance
    rw [Function.update_self]
    omega
  · rw [List.count_cons_of_ne (Ne.symm hb)] at hbalance
    rw [Function.update_of_ne hb]
    exact hbalance

end Ledger

/-- The things that are there are divided among the places. -/
structure Divided (there : α → Prop) (holds : β → List α) : Prop where
  held : ∀ a, there a ↔ ∃ i, a ∈ holds i
  apart : ∀ i j a, a ∈ holds i → a ∈ holds j → i = j
  nodup : ∀ i, (holds i).Nodup

section Divided

variable {there there' : α → Prop} {holds holds' : β → List α}

/-- A place takes a thing that was not there. -/
theorem divided_take (h : Divided there holds) (i : β) (a : α) (ha : ¬ there a)
    (hthere : ∀ b, there' b ↔ b = a ∨ there b) (hi : holds' i = a :: holds i)
    (hother : ∀ j, j ≠ i → holds' j = holds j) : Divided there' holds' := by
  have hnot : ∀ j, a ∉ holds j := fun j hj => ha ((h.held a).mpr ⟨j, hj⟩)
  have hmem : ∀ j b, b ∈ holds' j ↔ (j = i ∧ b = a) ∨ b ∈ holds j := by
    intro j b
    by_cases hj : j = i
    · rw [hj, hi, List.mem_cons]
      simp only [true_and]
    · rw [hother j hj]
      simp only [hj, false_and, false_or]
  refine ⟨fun b => ?_, fun j k b hjb hkb => ?_, fun j => ?_⟩
  · rw [hthere, h.held]
    constructor
    · rintro (hb | ⟨j, hj⟩)
      · exact ⟨i, (hmem i b).mpr (Or.inl ⟨rfl, hb⟩)⟩
      · exact ⟨j, (hmem j b).mpr (Or.inr hj)⟩
    · rintro ⟨j, hj⟩
      rcases (hmem j b).mp hj with ⟨_, hb⟩ | hb
      · exact Or.inl hb
      · exact Or.inr ⟨j, hb⟩
  · rcases (hmem j b).mp hjb with ⟨hj, hb⟩ | hb <;> rcases (hmem k b).mp hkb with ⟨hk, hb'⟩ | hb'
    · rw [hj, hk]
    · exact absurd (hb ▸ hb') (hnot k)
    · exact absurd (hb' ▸ hb) (hnot j)
    · exact h.apart j k b hb hb'
  · by_cases hj : j = i
    · rw [hj, hi]
      exact List.nodup_cons.mpr ⟨hnot i, h.nodup i⟩
    · rw [hother j hj]
      exact h.nodup j

/-- A place drops a thing that it has. -/
theorem divided_drop [DecidableEq α] (h : Divided there holds) (i : β) (a : α) (ha : a ∈ holds i)
    (hthere : ∀ b, there' b ↔ b ≠ a ∧ there b) (hi : holds' i = (holds i).erase a)
    (hother : ∀ j, j ≠ i → holds' j = holds j) : Divided there' holds' := by
  have hmem : ∀ j b, b ∈ holds' j ↔ b ≠ a ∧ b ∈ holds j := by
    intro j b
    by_cases hj : j = i
    · rw [hj, hi, (h.nodup i).mem_erase_iff]
    · rw [hother j hj]
      exact ⟨fun hb => ⟨fun heq => hj (h.apart j i a (heq ▸ hb) ha), hb⟩, And.right⟩
  refine ⟨fun b => ?_, fun j k b hjb hkb => ?_, fun j => ?_⟩
  · rw [hthere, h.held]
    constructor
    · rintro ⟨hb, j, hj⟩
      exact ⟨j, (hmem j b).mpr ⟨hb, hj⟩⟩
    · rintro ⟨j, hj⟩
      rcases (hmem j b).mp hj with ⟨hb, hj⟩
      exact ⟨hb, j, hj⟩
  · exact h.apart j k b ((hmem j b).mp hjb).2 ((hmem k b).mp hkb).2
  · by_cases hj : j = i
    · rw [hj, hi]
      exact (h.nodup i).erase a
    · rw [hother j hj]
      exact h.nodup j

/-- A place passes on all that it has. -/
theorem divided_pass (h : Divided there holds) (i j : β) (hij : i ≠ j) (hi : holds' i = [])
    (hj : holds' j = holds i ++ holds j) (hother : ∀ k, k ≠ i → k ≠ j → holds' k = holds k) :
    Divided there holds' := by
  -- Who has a thing now, and who had it.
  have hmem : ∀ k b, b ∈ holds' k ↔ (k = j ∧ b ∈ holds i) ∨ (k ≠ i ∧ b ∈ holds k) := by
    intro k b
    by_cases hk : k = i
    · rw [hk, hi]
      simp only [List.not_mem_nil, hij, false_and, ne_eq, not_true_eq_false, or_self]
    · by_cases hk' : k = j
      · rw [hk', hj, List.mem_append]
        simp only [true_and, ne_eq, Ne.symm hij, not_false_eq_true]
      · rw [hother k hk hk']
        simp only [hk', false_and, ne_eq, hk, not_false_eq_true, true_and, false_or]
  refine ⟨fun b => ?_, fun k l b hkb hlb => ?_, fun k => ?_⟩
  · rw [h.held]
    constructor
    · rintro ⟨k, hk⟩
      by_cases hki : k = i
      · exact ⟨j, (hmem j b).mpr (Or.inl ⟨rfl, hki ▸ hk⟩)⟩
      · exact ⟨k, (hmem k b).mpr (Or.inr ⟨hki, hk⟩)⟩
    · rintro ⟨k, hk⟩
      rcases (hmem k b).mp hk with ⟨_, hb⟩ | ⟨_, hb⟩
      · exact ⟨i, hb⟩
      · exact ⟨k, hb⟩
  · rcases (hmem k b).mp hkb with ⟨hk, hb⟩ | ⟨hk, hb⟩ <;>
      rcases (hmem l b).mp hlb with ⟨hl, hb'⟩ | ⟨hl, hb'⟩
    · rw [hk, hl]
    · exact absurd (h.apart l i b hb' hb) hl
    · exact absurd (h.apart k i b hb hb') hk
    · exact h.apart k l b hb hb'
  · by_cases hk : k = i
    · rw [hk, hi]
      exact List.nodup_nil
    · by_cases hk' : k = j
      · rw [hk', hj]
        refine List.nodup_append.mpr ⟨h.nodup i, h.nodup j, fun a ha b hb heq => ?_⟩
        exact hij (h.apart i j a ha (heq ▸ hb))
      · rw [hother k hk hk']
        exact h.nodup k

end Divided

end Holding
