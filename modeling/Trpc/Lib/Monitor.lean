import Trpc.Lib.Prog
import Mathlib.Algebra.Order.Monoid.Canonical.Defs

/-!
# Monitored Programs

A monitor looks on while a program talks to its environment. It has a state that follows
the calls and their replies, and it says, in each state, what may be called.

A program is `Sound` from a state when, whatever is replied, it calls nothing that may not
be called, and a postcondition holds of its result and of the monitor's state in the end.
That is a predicate transformer along the tree of the program, so it comes with a rule for
each way in which programs are put together, and what it says of the whole tree is handed
down to every run, finished or not: `sound_reaches`.

A meter is a monitor that forbids nothing and adds up what the calls cost. A program is
`Within` a bound when it never costs more.

## Main definitions

* `Monitor`: What may be called, and the state that follows the calls.
* `Monitor.follow`: The state behind a run.
* `Prog.Sound`: The predicate transformer.
* `Monitor.meter`, `Prog.Within`: Costs, and their bounds.

## Theorems

* `sound_bind`: The rule for sequences.
* `sound_skip`: Calls that the monitor does not mind.
* `sound_reaches`, `sound_runs`: What a sound program does in its runs.
* `within_bind`, `within_loop`, `within_runs`, `within_reaches`: The same for costs.
-/

namespace Interaction

variable {C : Type} {R : C → Type} {α β σ : Type}

structure Monitor (C : Type) (R : C → Type) (σ : Type) where
  Allowed : σ → C → Prop
  next : σ → (c : C) → R c → σ

/-- The state behind a run. -/
def Monitor.follow (m : Monitor C R σ) (s : σ) (t : List (Event C R)) : σ :=
  t.foldl (fun s e => m.next s e.1 e.2) s

/-- Whatever is replied, only what is allowed is called, and in the end `Q` holds of the
    result and of the state. -/
def Prog.Sound (m : Monitor C R σ) (Q : α → σ → Prop) : Prog C R α → σ → Prop
  | .ret a, s => Q a s
  | .call c k, s => m.Allowed s c ∧ ∀ r, (k r).Sound m Q (m.next s c r)

section Rules

variable {m : Monitor C R σ}

theorem sound_mono {Q Q' : α → σ → Prop} (p : Prog C R α) (s : σ) (h : p.Sound m Q s)
    (hQ : ∀ a s', Q a s' → Q' a s') : p.Sound m Q' s := by
  induction p generalizing s with
  | ret a => exact hQ a s h
  | call c k ih => exact ⟨h.1, fun r => ih r _ (h.2 r)⟩

/-- In a sequence the first part has to establish what the second one needs. -/
theorem sound_bind {Q : β → σ → Prop} (p : Prog C R α) (f : α → Prog C R β) (s : σ)
    (h : p.Sound m (fun a s' => (f a).Sound m Q s') s) : (p.bind f).Sound m Q s := by
  induction p generalizing s with
  -- The second part begins where the first has ended.
  | ret a => exact h
  | call c k ih => exact ⟨h.1, fun r => ih r _ (h.2 r)⟩

theorem sound_perform_bind {Q : β → σ → Prop} (c : C) (f : R c → Prog C R β) (s : σ)
    (hc : m.Allowed s c) (h : ∀ r, (f r).Sound m Q (m.next s c r)) :
    ((Prog.perform c).bind f).Sound m Q s := ⟨hc, h⟩

/-- A program that makes only calls which are allowed and move nothing. -/
theorem sound_skip {P : C → Prop} (p : Prog C R α) (s : σ) (hp : p.Only P)
    (h : ∀ c, P c → m.Allowed s c ∧ ∀ r, m.next s c r = s) : p.Sound m (fun _ s' => s' = s) s := by
  induction p with
  | ret a => exact rfl
  | call c k ih =>
      refine ⟨(h c hp.1).1, fun r => ?_⟩
      -- The call has moved nothing, so the rest begins in the same state.
      rw [(h c hp.1).2 r]
      exact ih r (hp.2 r)

/-- What is left of a sound program is sound from where its run has led. -/
theorem sound_reaches {Q : α → σ → Prop} (p q : Prog C R α) (s : σ) (t : List (Event C R))
    (h : p.Sound m Q s) (hr : Reaches p t q) : q.Sound m Q (m.follow s t) := by
  induction hr generalizing s with
  | refl p => exact h
  | call c k r t q _ ih => exact ih _ (h.2 r)

/-- What a program returns, it returns in some run. -/
theorem sound_and_runs {Q : α → σ → Prop} (p : Prog C R α) (s : σ) (h : p.Sound m Q s) :
    p.Sound m (fun a s' => Q a s' ∧ ∃ t, Runs p t a) s := by
  induction p generalizing s with
  | ret a => exact ⟨h, [], Runs.ret a⟩
  | call c k ih =>
      refine ⟨h.1, fun r => sound_mono (k r) _ (ih r _ (h.2 r)) ?_⟩
      rintro a s' ⟨hQ, t, ha⟩
      exact ⟨hQ, _, Runs.call c k r t a ha⟩

theorem sound_runs {Q : α → σ → Prop} (p : Prog C R α) (s : σ) (t : List (Event C R)) (a : α)
    (h : p.Sound m Q s) (hr : Runs p t a) : Q a (m.follow s t) :=
  sound_reaches p (.ret a) s t h ((reaches_ret_iff p t a).mpr hr)

end Rules

section Costs

variable {M : Type} [AddCommMonoid M]

/-- The sum of what the calls cost. -/
def Monitor.meter (cost : (c : C) → R c → M) : Monitor C R M where
  Allowed := fun _ _ => True
  next := fun s c r => s + cost c r

theorem follow_meter (cost : (c : C) → R c → M) (s : M) (t : List (Event C R)) :
    (Monitor.meter cost).follow s t = s + (t.map fun e => cost e.1 e.2).sum := by
  induction t generalizing s with
  | nil => exact (add_zero s).symm
  | cons e t ih =>
      rw [List.map_cons, List.sum_cons, ← add_assoc]
      exact ih _

variable [PartialOrder M] {cost : (c : C) → R c → M}

/-- The program never costs more. -/
def Prog.Within (cost : (c : C) → R c → M) (b : M) (p : Prog C R α) : Prop :=
  ∀ s, p.Sound (Monitor.meter cost) (fun _ s' => s' ≤ s + b) s

theorem within_ret [CanonicallyOrderedAdd M] {b : M} (a : α) :
    (Prog.ret a : Prog C R α).Within cost b :=
  fun _ => le_self_add

/-- What a run of the program costs. -/
theorem within_runs {b : M} (p : Prog C R α) (t : List (Event C R)) (a : α) (h : p.Within cost b)
    (hr : Runs p t a) : (t.map fun e => cost e.1 e.2).sum ≤ b := by
  have hsum := sound_runs p 0 t a (h 0) hr
  rwa [follow_meter, zero_add, zero_add] at hsum

/-- What it has cost so far, when every further call would be replied to. -/
theorem within_reaches [CanonicallyOrderedAdd M] (g : (c : C) → R c) {b : M} (p q : Prog C R α)
    (t : List (Event C R)) (h : p.Within cost b) (hr : Reaches p t q) :
    (t.map fun e => cost e.1 e.2).sum ≤ b := by
  rcases runs_of_reaches g p q t hr with ⟨t', a, hrun, _⟩
  -- The rest of the run adds to the sum, and the whole is bounded.
  have hsum := within_runs p (t ++ t') a h hrun
  rw [List.map_append, List.sum_append] at hsum
  exact le_self_add.trans hsum

variable [IsOrderedAddMonoid M]

theorem within_mono {b b' : M} (p : Prog C R α) (h : p.Within cost b) (hb : b ≤ b') :
    p.Within cost b' := fun s =>
  sound_mono p s (h s) fun _ _ hs => hs.trans (by gcongr)

theorem within_perform (c : C) {b : M} (h : ∀ r, cost c r ≤ b) :
    (Prog.perform c : Prog C R (R c)).Within cost b := fun s =>
  ⟨trivial, fun r => show s + cost c r ≤ s + b by gcongr; exact h r⟩

/-- The second part need only be cheap behind what the first part can come to. -/
theorem within_bind_runs {b b' : M} (p : Prog C R α) (f : α → Prog C R β) (hp : p.Within cost b)
    (hf : ∀ t a, Runs p t a → (f a).Within cost b') : (p.bind f).Within cost (b + b') := by
  intro s
  refine sound_bind p f s (sound_mono p s (sound_and_runs p s (hp s)) ?_)
  rintro a s' ⟨hs, t, ha⟩
  -- The two bounds add up.
  refine sound_mono (f a) s' (hf t a ha s') fun _ s'' hs' => hs'.trans ?_
  rw [← add_assoc]
  gcongr

theorem within_bind {b b' : M} (p : Prog C R α) (f : α → Prog C R β) (hp : p.Within cost b)
    (hf : ∀ a, (f a).Within cost b') : (p.bind f).Within cost (b + b') :=
  within_bind_runs p f hp fun _ a _ => hf a

/-- A sequence whose first part is free. -/
theorem within_free_bind {b : M} (p : Prog C R α) (f : α → Prog C R β) (hp : p.Within cost 0)
    (hf : ∀ a, (f a).Within cost b) : (p.bind f).Within cost b := by
  rw [← zero_add b]
  exact within_bind p f hp hf

/-- One whose second part is. -/
theorem within_bind_free {b : M} (p : Prog C R α) (f : α → Prog C R β) (hp : p.Within cost b)
    (hf : ∀ a, (f a).Within cost 0) : (p.bind f).Within cost b := by
  rw [← add_zero b]
  exact within_bind p f hp hf

/-- A loop costs no more than its rounds. -/
theorem within_loop [CanonicallyOrderedAdd M] {S B : Type} {b : M} {body : S → Prog C R (S ⊕ B)}
    (hbody : ∀ s, (body s).Within cost b) (n : Nat) (s : S) :
    (loop body n s).Within cost (n • b) := by
  induction n generalizing s with
  | zero => exact within_ret _
  | succ n ih =>
      -- The first round, and then those that are left.
      rw [succ_nsmul']
      refine within_bind _ _ (hbody s) fun r => ?_
      -- A round goes on or ends the loop, which then costs nothing more.
      rcases r with s' | x
      · exact ih s'
      · exact within_ret _

end Costs

end Interaction
