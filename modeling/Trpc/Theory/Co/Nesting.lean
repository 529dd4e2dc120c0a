import Trpc.Theory.Co.Switching

/-!
# Nesting

Runs of a thread, in which coroutines resume others to any depth. Going back is a matter
of the whole run: whoever stands on the stack got there by a `resume`, the last one of
it in the run, and just those below it stood there at the time. A `yield` takes it off,
and so restores what was there, the coroutine in control included.

## Main definitions

* `Thread.Run`: A run from the beginning.
* `Thread.LastResume`: The last `resume` of a coroutine in a run.
* `Thread.Kept`: What is true behind every run.

## Theorems

* `run_lastResume`: How those on the stack got there.
* `run_kept`: Behind every run all is as it should be.
-/

namespace Co

open Transition

namespace Thread

/-! ## Runs -/

/-- A run of a thread from its beginning. -/
abbrev Run (os : List Operation) (t : Thread) : Prop := Steps Step initial os t

theorem run_sound (os : List Operation) (t : Thread) (h : Run os t) : Sound t :=
  steps_invariant Sound (fun s o s' hs hstep => (step_move s hs o s' hstep).2) initial t os h
    initial_sound

/-- The last `resume` of `c` in a run, by which `c` has come to stand on the stack, and the
    state `m` in front of it. -/
def LastResume (os : List Operation) (c : Coroutine) (m t : Thread) : Prop :=
  ∃ before m' after, os = before ++ .resume c :: after ∧ Run before m ∧
    m.Step (.resume c) m' ∧ m'.control = c ∧ Steps Step m' after t ∧ .resume c ∉ after

/-- A later step that does not resume it leaves it the last. -/
theorem LastResume.later (os : List Operation) (c : Coroutine) (m t t' : Thread)
    (o : Operation) (h : LastResume os c m t) (hstep : t.Step o t') (ho : o ≠ .resume c) :
    LastResume (os ++ [o]) c m t' := by
  obtain ⟨before, m', after, hos, hbefore, hresume, hcontrol, hafter, hlast⟩ := h
  refine ⟨before, m', after ++ [o], ?_, hbefore, hresume, hcontrol, ?_, ?_⟩
  · rw [hos, List.append_assoc, List.cons_append]
  · exact steps_append _ _ _ _ _ hafter (Steps.cons t t' t' o [] hstep (Steps.refl t'))
  · intro hmem
    obtain hmem | hmem := List.mem_append.mp hmem
    · exact hlast hmem
    · exact ho (List.mem_singleton.mp hmem).symm

/-- Whoever stands on the stack above the main coroutine has been resumed when just those
    below it stood there. -/
theorem run_lastResume (os : List Operation) (t : Thread) (h : Run os t) :
    ∀ p c s, t.env.cStack = p ++ c :: s → p ≠ [] →
      ∃ m, LastResume os c m t ∧ m.env.cStack = p := by
  refine steps_history (fun os t => ∀ p c s, t.env.cStack = p ++ c :: s → p ≠ [] →
    ∃ m, LastResume os c m t ∧ m.env.cStack = p) initial ?_ ?_ os t h
  · intro p c s hstack hp
    cases p with
    | nil => exact absurd rfl hp
    | cons a p =>
        have hlen := congrArg List.length hstack
        simp [initial] at hlen
  · intro os t o t' hrun ih hstep p c s hstack hp
    have hmove := (step_move t (run_sound os t hrun) o t' hstep).1
    -- What stood there before stands there still, and was not resumed in between.
    have hkeep : ∀ s', t.env.cStack = p ++ c :: s' →
        ∃ m, LastResume (os ++ [o]) c m t' ∧ m.env.cStack = p := by
      intro s' hs'
      obtain ⟨m, hm, hmp⟩ := ih p c s' hs' hp
      refine ⟨m, hm.later os c m t t' o hstep ?_, hmp⟩
      rintro rfl
      refine hstep.1.2 ?_
      rw [hs']
      exact List.mem_append_right p List.mem_cons_self
    cases hmove with
    | creates d _ hcStack hcontrol => exact hkeep s (hcStack ▸ hstack)
    | stays d => exact hkeep s hstack
    | leaves _ q x _ ho hbefore hcStack hcontrol =>
        refine hkeep (s ++ [t.control]) ?_
        rw [hbefore, ← hcStack, hstack, List.append_assoc, List.cons_append]
    | enters d _ hcStack hcontrol =>
        -- The one on top is the one resumed; whoever is below it was there before.
        obtain rfl | ⟨s', z, rfl⟩ := s.eq_nil_or_concat
        · -- It has just been resumed.
          rw [hcStack] at hstack
          obtain ⟨rfl, hd⟩ := List.append_inj' hstack rfl
          obtain rfl := (List.cons.inj hd).1
          exact ⟨t, ⟨os, t', [], rfl, hrun, hstep, hcontrol, Steps.refl t',
            List.not_mem_nil⟩, rfl⟩
        · rw [hcStack, List.concat_eq_append, ← List.cons_append, ← List.append_assoc] at hstack
          exact hkeep s' (List.append_inj' hstack rfl).1

/-- A context of its own is that of a coroutine that runs or has yielded. -/
theorem Sound.owns (t : Thread) (h : Sound t) (c : Coroutine)
    (hc : c = main ∨ c ∈ t.entered ∧ c ∉ t.finished) : ∃ k, t.contextOf c = some k := by
  cases h.stages c with
  | absent hf he hx hs =>
      rcases hc with rfl | hc
      · exact absurd (h.main_mem) hs
      · exact absurd hc.1 he
  | fresh hf he hx hs =>
      rcases hc with rfl | hc
      · exact absurd (h.main_mem) hs
      · exact absurd hc.1 he
  | ready k hf hp he hx hs => exact ⟨k, contextOf_of_fields t c _ hf⟩
  | parked k hf hp he hx hs => exact ⟨k, contextOf_of_fields t c _ hf⟩
  | nested k hm hf he hx hs => exact ⟨k, contextOf_of_fields t c _ hf⟩
  | done context hf he hx hs =>
      rcases hc with rfl | hc
      · exact absurd (h.main_mem) hs
      · exact absurd hx hc.2
  | base k hm hf he hx hs => exact ⟨k, contextOf_of_fields t c _ hf⟩

theorem Sound.runtime_of_entered (t : Thread) (h : Sound t) (c : Coroutine)
    (hc : c ∈ t.entered) : t.runtimeOf c =
      some (if c ∈ t.finished then State.EXIT else State.RUNNING) := by
  cases h.stages c with
  | absent hf he hx hs => exact absurd hc he
  | fresh hf he hx hs => exact absurd hc he
  | ready k hf hp he hx hs => exact absurd hc he
  | parked k hf hp he hx hs =>
      rw [if_neg hx]
      exact runtimeOf_of_fields t c _ hf
  | nested k hm hf he hx hs =>
      rw [if_neg hx]
      exact runtimeOf_of_fields t c _ hf
  | done context hf he hx hs =>
      rw [if_pos hx]
      exact runtimeOf_of_fields t c _ hf
  | base k hm hf he hx hs => exact absurd hc he

/-- What is true behind every run. -/
structure Kept (os : List Operation) (t : Thread) : Prop where
  bottom : ∃ above, t.env.cStack = main :: above
  once : t.env.cStack.Nodup
  control : ∃ below, t.env.cStack = below ++ [t.control]
  /-- No operation that respects the rules leaves defined behaviour. -/
  defined : ∀ o, t.Allowed o → ∃ r, t.step o = .ok r
  /-- A `yield`, or the end of an entry, goes back to who resumed the coroutine last, and
      the stack is then as it was in front of that. -/
  returns : ∀ o t' value, o = .yield ∨ o = .completes → t.Allowed o →
    t.step o = .ok (t', value) → ∃ m, LastResume os t.control m t ∧ t'.control = m.control ∧
      t'.env.cStack = m.env.cStack
  enteredOnce : t.entered.Nodup
  runtime : ∀ c ∈ t.entered,
    t.runtimeOf c = some (if c ∈ t.finished then State.EXIT else State.RUNNING)
  exits : ∀ c f, t.coroutines c = some f → f.exit = true →
    t.step (.resume c) = .ok (t, some f.runtime)
  /-- The context of a coroutine that is running or has yielded is its own. -/
  owns : ∀ c, c = main ∨ c ∈ t.entered ∧ c ∉ t.finished → ∃ k, t.contextOf c = some k ∧
    (∀ d, d ≠ c → t.contextOf d ≠ some k) ∧ ∀ i, t.env.recycleStack i ≠ some k
  top : t.env.recycleTop ≤ recycleSize
  filled : ∀ i : Fin recycleSize, (t.env.recycleStack i).isSome ↔ i.val < t.env.recycleTop

/-- Behind every run the stack, the flags and the contexts are as they should be. -/
theorem run_kept (os : List Operation) (t : Thread) (h : Run os t) : Kept os t := by
  have hsound := run_sound os t h
  constructor
  · exact hsound.bottom
  · exact hsound.once
  · exact hsound.control
  · intro o hallowed
    obtain ⟨t', value, hstep, _⟩ := step_spec t hsound o hallowed
    exact ⟨_, hstep⟩
  · intro o t' value ho hallowed hstep
    have hmove := (step_move t hsound o t' ⟨hallowed, value, hstep⟩).1
    cases hmove with
    | creates c _ _ _ => exact absurd ho (by simp)
    | stays c => exact absurd ho (by simp)
    | enters c _ _ _ => exact absurd ho (by simp)
    | leaves _ p x _ _ hstack hcStack hcontrol =>
        -- Below the one that leaves there is somebody, so it was resumed.
        have hp : p ++ [x] ≠ [] := by simp
        obtain ⟨m, hm, hmstack⟩ := run_lastResume os t h (p ++ [x]) t.control [] hstack hp
        have hbefore : Sound m := by
          obtain ⟨before, _, _, _, hrun, _⟩ := hm
          exact run_sound before m hrun
        -- The one in control in front of the `resume` stood on top, where `x` is.
        obtain ⟨below, hbelow⟩ := hbefore.control
        rw [hmstack] at hbelow
        have hx := (List.cons.inj (List.append_inj' hbelow rfl).2).1
        exact ⟨m, hm, hcontrol.trans hx, hcStack.trans hmstack.symm⟩
  · exact hsound.enteredOnce
  · exact hsound.runtime_of_entered t
  · exact resume_exit t
  · intro c hc
    obtain ⟨k, hk⟩ := hsound.owns t c hc
    refine ⟨k, hk, ?_, ?_⟩
    · intro d hd hdk
      exact hd (hsound.owned.single t d c k hdk hk)
    · intro i hi
      have heq : Holder.slot i = .coroutine c := hsound.owned.exclusive _ _ k hi hk
      exact absurd heq (by simp)
  · exact hsound.owned.top
  · exact hsound.owned.filled

/-- One coroutine, resumed. -/
theorem run_kept_resumed : ∃ t, Run [.createCoroutine 1, .resume 1] t ∧ t.control = 1 ∧
    Kept [.createCoroutine 1, .resume 1] t := by
  have hfree : initial.coroutines 1 = none := coroutines_initial 1 (by decide)
  have hcreated : Sound (initial.createCoroutine 1) :=
    createCoroutine_sound initial initial_sound 1 hfree
  have hfields : (initial.createCoroutine 1).coroutines 1 = some ⟨0, none⟩ :=
    createCoroutine_fields initial 1
  have hstack : 1 ∉ (initial.createCoroutine 1).env.cStack := by
    unfold createCoroutine setFields initial
    decide
  obtain ⟨t, hresume, _, hcontrol, _, _⟩ :=
    resume_spec (initial.createCoroutine 1) hcreated 1 _ hfields (by decide) hstack
  have hrun : Run [.createCoroutine 1, .resume 1] t :=
    .cons _ _ _ _ _ ⟨hfree, none, rfl⟩
      (.cons _ _ _ _ _ ⟨⟨Option.isSome_iff_exists.mpr ⟨_, hfields⟩, hstack⟩, none, hresume⟩
        (.refl t))
  exact ⟨t, hrun, hcontrol, run_kept _ t hrun⟩

end Thread

end Co
