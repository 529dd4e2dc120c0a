import Mathlib.Logic.Basic

/-!
# Transition Systems

A system that goes from state to state, one label at a time, and its runs. A state
is reached when a run from the start ends there, so what holds at the start and is
kept by every step holds in every state reached: `steps_invariant`.

A run whose steps all meet some condition is a run of the `Guarded` system. It is a
run of the whole system too, so invariants of the whole system may be used where a
step of the guarded one is looked at: `guarded_invariant`. What speaks of the run as
well as of the state is shown along the run: `steps_history`.

## Main definitions

* `Steps`: Runs, with their labels.
* `Guarded`: The steps that meet a condition.

## Theorems

* `steps_append`: A run of two parts.
* `steps_invariant`: The invariant rule.
* `steps_history`: The rule for what speaks of the steps so far.
* `guarded_invariant`: The rule for runs whose steps all meet a condition.
-/

namespace Transition

variable {S L : Type}

/-- A run from one state to another, with the labels of its steps. -/
inductive Steps (step : S → L → S → Prop) : S → List L → S → Prop where
  | refl (s : S) : Steps step s [] s
  | cons (s1 s2 s3 : S) (l : L) (ls : List L) : step s1 l s2 → Steps step s2 ls s3 →
      Steps step s1 (l :: ls) s3

/-- The steps from states in which they meet a condition. -/
def Guarded (step : S → L → S → Prop) (ok : S → L → Prop) (s : S) (l : L) (s' : S) : Prop :=
  step s l s' ∧ ok s l

variable {step : S → L → S → Prop}

theorem steps_append (s1 s2 s3 : S) (ls ms : List L) (h1 : Steps step s1 ls s2)
    (h2 : Steps step s2 ms s3) : Steps step s1 (ls ++ ms) s3 := by
  induction h1 with
  | refl s => exact h2
  | cons s1 s2 _ l ls hstep _ ih => exact Steps.cons _ _ _ l _ hstep (ih h2)

theorem steps_snoc (s1 s2 s3 : S) (ls : List L) (l : L) (h : Steps step s1 ls s2)
    (hstep : step s2 l s3) : Steps step s1 (ls ++ [l]) s3 :=
  steps_append s1 s2 s3 ls [l] h (Steps.cons s2 s3 s3 l [] hstep (Steps.refl s3))

theorem steps_of_guarded (ok : S → L → Prop) (s s' : S) (ls : List L)
    (h : Steps (Guarded step ok) s ls s') : Steps step s ls s' := by
  induction h with
  | refl s => exact Steps.refl s
  | cons s1 s2 s3 l ls hstep _ ih => exact Steps.cons s1 s2 s3 l ls hstep.1 ih

/-- What every step keeps, every run keeps. -/
theorem steps_invariant (I : S → Prop) (hstep : ∀ s l s', I s → step s l s' → I s') (s s' : S)
    (ls : List L) (h : Steps step s ls s') (hs : I s) : I s' := by
  induction h with
  | refl s => exact hs
  | cons s1 s2 s3 l ls hfirst _ ih => exact ih (hstep s1 l s2 hs hfirst)

/-- What may speak of the steps so far holds of every run if it holds of none and every
    further step keeps it. -/
theorem steps_history (P : List L → S → Prop) (s : S) (hnil : P [] s)
    (hstep : ∀ ls m l s', Steps step s ls m → P ls m → step m l s' → P (ls ++ [l]) s')
    (ls : List L) (s' : S) (h : Steps step s ls s') : P ls s' := by
  -- The run is cut into what lies behind and what is to come; the induction is on the latter.
  suffices hcut : ∀ m rest last, Steps step m rest last → ∀ past, Steps step s past m →
      P past m → P (past ++ rest) last from hcut s ls s' h [] (Steps.refl s) hnil
  intro m rest last hrest
  induction hrest with
  | refl m =>
      intro past _ hpast
      rw [List.append_nil]
      exact hpast
  | cons m1 m2 _ l rest hfirst _ ih =>
      intro past hrun hpast
      have hnext := ih (past ++ [l]) (steps_append _ _ _ _ _ hrun
        (Steps.cons m1 m2 m2 l [] hfirst (Steps.refl m2))) (hstep past m1 l m2 hrun hpast hfirst)
      rwa [List.append_assoc] at hnext

/-- What every step that meets the condition keeps, given what all steps keep, a run of
    such steps keeps. -/
theorem guarded_invariant (ok : S → L → Prop) (I J : S → Prop)
    (hI : ∀ s l s', I s → step s l s' → I s')
    (hJ : ∀ s l s', I s → J s → step s l s' → ok s l → J s') (s s' : S) (ls : List L)
    (h : Steps (Guarded step ok) s ls s') (hs : I s) (hs' : J s) : I s' ∧ J s' := by
  refine steps_invariant (fun s => I s ∧ J s) ?_ s s' ls h ⟨hs, hs'⟩
  intro s l s' hboth hstep
  exact ⟨hI s l s' hboth.1 hstep.1, hJ s l s' hboth.1 hboth.2 hstep.1 hstep.2⟩

end Transition
