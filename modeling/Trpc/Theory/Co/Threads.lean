import Trpc.Core.Loop
import Trpc.Theory.Co.Nesting

/-!
# The Loop on its Thread

The state of the loop knows coroutines by what they are doing, and of `_cStack` what
stands above the main coroutine. Here it is shown to be what a thread with flags and
contexts looks like: whatever happens next in the loop's terms, the thread can do in
its own, by the operations of the coroutines, and the two keep showing the same. The
loop counts its coroutines from 0, which is the main one for the thread, so they are
moved up by one.

## Main definitions

* `Fits`: The flags of a coroutine that does something.
* `Shows`: The thread behind a state of the loop.

## Theorems

* `step_simulated`: One step.
* `run_simulated`: A run.
-/

namespace Co

open Trpc Interaction Transition

/-- The flags of a coroutine that does this. -/
def Fits (f : Option Coroutine.Fields) : Status → Prop
  | .fresh => f = none ∨ f = some ⟨0, none⟩
  | .exited => ∃ context, f = some ⟨State.EXIT, context⟩
  | .active => ∃ k, f = some ⟨State.RUNNING, some k⟩
  | .calling _ => ∃ k, f = some ⟨State.RUNNING, some k⟩
  | .parked _ _ _ => ∃ k, f = some ⟨State.RUNNING, some k⟩

/-- The thread is what the loop takes it for. -/
structure Shows (t : Thread) (w : World) : Prop where
  sound : t.Sound
  stack : t.env.cStack = main :: (w.stack.reverse.map (· + 1))
  fits : ∀ c, Fits (t.coroutines (c + 1)) (w.status c)

theorem World.status_setStatus_self (w : World) (c : Coroutine) (x : Status) :
    (w.setStatus c x).status c = x := by
  unfold World.setStatus
  exact Function.update_self _ _ _

theorem World.status_setStatus_of_ne (w : World) (c d : Coroutine) (x : Status) (hd : d ≠ c) :
    (w.setStatus c x).status d = w.status d := by
  unfold World.setStatus
  exact Function.update_of_ne hd _ _

theorem initial_shows : Shows Thread.initial World.initial where
  sound := Thread.initial_sound
  stack := rfl
  fits := fun c => Or.inl (Thread.coroutines_initial (c + 1) (Nat.succ_ne_zero c))

/-- What the loop changes besides does not show. -/
theorem Shows.same (t : Thread) (w w' : World) (h : Shows t w) (hstack : w'.stack = w.stack)
    (hstatus : ∀ c, Fits (t.coroutines (c + 1)) (w.status c) →
      Fits (t.coroutines (c + 1)) (w'.status c)) : Shows t w' where
  sound := h.sound
  stack := hstack ▸ h.stack
  fits := fun c => hstatus c (h.fits c)

/-- The one on top of the loop's stack is in control. -/
theorem Shows.control (t : Thread) (w : World) (h : Shows t w) (c : Coroutine)
    (cs : List Coroutine) (hstack : w.stack = c :: cs) : t.control = c + 1 := by
  obtain ⟨below, hbelow⟩ := h.sound.control
  have hshows := h.stack
  rw [hstack, List.reverse_cons, List.map_append, hbelow, ← List.cons_append] at hshows
  exact (List.cons.inj (List.append_inj' hshows rfl).2).1

theorem Shows.mem (t : Thread) (w : World) (h : Shows t w) (c : Coroutine)
    (hc : c ∈ w.stack) : c + 1 ∈ t.env.cStack := by
  rw [h.stack]
  exact List.mem_cons_of_mem _ (List.mem_map.mpr ⟨c, List.mem_reverse.mpr hc, rfl⟩)

theorem Shows.not_mem (t : Thread) (w : World) (h : Shows t w) (c : Coroutine)
    (hc : c ∉ w.stack) : c + 1 ∉ t.env.cStack := by
  rw [h.stack]
  intro hmem
  obtain hmain | hmem := List.mem_cons.mp hmem
  · exact Nat.succ_ne_zero c hmain
  · obtain ⟨d, hd, heq⟩ := List.mem_map.mp hmem
    rw [← Nat.succ.inj heq] at hc
    exact hc (List.mem_reverse.mp hd)

/-- A coroutine that has not ended is resumed. -/
theorem resume_live (t : Thread) (w w' : World) (h : Shows t w) (c : Coroutine)
    (f : Coroutine.Fields) (hf : t.coroutines (c + 1) = some f) (hexit : f.exit = false)
    (hc : c ∉ w.stack) (hstack : w'.stack = c :: w.stack)
    (hother : ∀ d, d ≠ c → w'.status d = w.status d)
    (hlive : ∀ k, Fits (some ⟨State.RUNNING, some k⟩) (w'.status c)) :
    ∃ t', t.Step (.resume (c + 1)) t' ∧ Shows t' w' := by
  have hnot := h.not_mem t w c hc
  obtain ⟨t', hresume, hcStack, hcontrol, hsound, hfields⟩ :=
    Thread.resume_spec t h.sound (c + 1) f hf hexit hnot
  refine ⟨t', ⟨⟨Option.isSome_iff_exists.mpr ⟨f, hf⟩, hnot⟩, none, hresume⟩, hsound, ?_, ?_⟩
  · rw [hcStack, h.stack, hstack, List.reverse_cons, List.map_append]
    rfl
  · intro d
    by_cases hd : d = c
    · rw [hd]
      have hmem : c + 1 ∈ t'.env.cStack := by
        rw [hcStack]
        exact List.mem_append_right _ List.mem_cons_self
      obtain ⟨k, hk, _⟩ :=
        (hsound.stages (c + 1)).nested_of_mem t' _ (Nat.succ_ne_zero c) hmem
      rw [hk]
      exact hlive k
    · rw [hother d hd, hfields (d + 1) (fun heq => hd (Nat.succ.inj heq))]
      exact h.fits d

/-- A coroutine of the loop's that the thread has not made yet is made. -/
theorem create_shows (t : Thread) (w : World) (h : Shows t w) (c : Coroutine)
    (hc : t.coroutines (c + 1) = none) (hstatus : w.status c = .fresh) :
    Shows (t.createCoroutine (c + 1)) w where
  sound := Thread.createCoroutine_sound t h.sound (c + 1) hc
  stack := h.stack
  fits := by
    intro d
    by_cases hd : d = c
    · rw [hd, hstatus, Thread.createCoroutine_fields]
      exact Or.inr rfl
    · have hne : d + 1 ≠ c + 1 := fun heq => hd (Nat.succ.inj heq)
      have hsame : (t.createCoroutine (c + 1)).coroutines (d + 1) = t.coroutines (d + 1) :=
        Function.update_of_ne hne _ _
      rw [hsame]
      exact h.fits d

/-- A `resume` in the loop's terms is one of the thread. -/
theorem resume_simulated (t : Thread) (w : World) (h : Shows t w) (c : Coroutine)
    (hc : c ∉ w.stack) : ∃ os t', Steps Thread.Step t os t' ∧ Shows t' (w.resume c) := by
  have hfits := h.fits c
  -- Those that have a context go on where they are.
  have hgoes : ∀ (u : Thread) (w' : World) (f : Coroutine.Fields) (x : Status), Shows u w →
      u.coroutines (c + 1) = some f → f.exit = false → w'.stack = c :: w.stack →
      (∀ d, d ≠ c → w'.status d = w.status d) → w'.status c = x →
      (∀ k, Fits (some ⟨State.RUNNING, some k⟩) x) →
      ∃ t', Steps Thread.Step u [.resume (c + 1)] t' ∧ Shows t' w' := by
    intro u w' f x hu hf hexit hstack hsame hx hlive
    obtain ⟨t', hstep, hshows⟩ :=
      resume_live u w w' hu c f hf hexit hc hstack hsame (hx.symm ▸ hlive)
    exact ⟨t', .cons _ _ _ _ _ hstep (.refl t'), hshows⟩
  have hset : ∀ u f x, Shows u w → u.coroutines (c + 1) = some f → f.exit = false →
      (∀ k, Fits (some ⟨State.RUNNING, some k⟩) x) →
      ∃ t', Steps Thread.Step u [.resume (c + 1)] t' ∧ Shows t' ((w.setStatus c x).push c) := by
    intro u f x hu hf hexit hlive
    exact hgoes u _ f x hu hf hexit rfl (fun d hd => w.status_setStatus_of_ne c d x hd)
      (w.status_setStatus_self c x) hlive
  unfold World.resume
  cases hstatus : w.status c with
  | exited => exact ⟨[], t, .refl t, h⟩
  | fresh =>
      rw [hstatus] at hfits
      -- The loop does not tell a coroutine that is yet to be made from a fresh one.
      obtain hnone | hfresh := hfits
      · obtain ⟨t', hsteps, hshows⟩ := hset _ _ .active (create_shows t w h c hnone hstatus)
          (Thread.createCoroutine_fields t (c + 1)) (by decide) (fun k => ⟨k, rfl⟩)
        exact ⟨.createCoroutine (c + 1) :: [.resume (c + 1)], t',
          .cons _ _ _ _ _ ⟨hnone, none, rfl⟩ hsteps, hshows⟩
      · obtain ⟨t', hsteps, hshows⟩ := hset t _ .active h hfresh (by decide)
          (fun k => ⟨k, rfl⟩)
        exact ⟨_, t', hsteps, hshows⟩
  | parked fd type p =>
      rw [hstatus] at hfits
      obtain ⟨k, hk⟩ := hfits
      obtain ⟨t', hsteps, hshows⟩ := hset t _ (.calling p) h hk (Thread.exit_running _)
        (fun k => ⟨k, rfl⟩)
      exact ⟨_, t', hsteps, hshows⟩
  | active =>
      rw [hstatus] at hfits
      obtain ⟨k, hk⟩ := hfits
      obtain ⟨t', hsteps, hshows⟩ := hgoes t (w.push c) _ .active h hk (Thread.exit_running _)
        rfl (fun _ _ => rfl) hstatus (fun k => ⟨k, rfl⟩)
      exact ⟨_, t', hsteps, hshows⟩
  | calling p =>
      rw [hstatus] at hfits
      obtain ⟨k, hk⟩ := hfits
      obtain ⟨t', hsteps, hshows⟩ := hgoes t (w.push c) _ (.calling p) h hk
        (Thread.exit_running _) rfl (fun _ _ => rfl) hstatus (fun k => ⟨k, rfl⟩)
      exact ⟨_, t', hsteps, hshows⟩

/-- What stands on the loop's stack below the one in control. -/
theorem Shows.below (t : Thread) (w : World) (h : Shows t w) (c : Coroutine)
    (cs : List Coroutine) (hstack : w.stack = c :: cs) (p : List Coroutine)
    (hp : t.env.cStack = p ++ [t.control]) : p = main :: (cs.reverse.map (· + 1)) := by
  have hshows := h.stack
  rw [hstack, List.reverse_cons, List.map_append, hp, ← List.cons_append] at hshows
  exact (List.append_inj' hshows rfl).1

/-- What happens next in the loop's terms is done by the coroutines of the thread. -/
theorem step_simulated (t : Thread) (w w' : World) (a : Act) (h : Shows t w)
    (hstep : Step w a w') : ∃ os t', Steps Thread.Step t os t' ∧ Shows t' w' := by
  have hidle : ∀ w', w'.stack = w.stack → (∀ c, Fits (t.coroutines (c + 1)) (w.status c) →
      Fits (t.coroutines (c + 1)) (w'.status c)) → ∃ os t', Steps Thread.Step t os t' ∧
      Shows t' w' :=
    fun w' hstack hstatus => ⟨[], t, .refl t, h.same t w w' hstack hstatus⟩
  -- A change of what the one in control is doing does not change its flags.
  have hleft : ∀ d c x, (∀ f, Fits f (w.status c) → Fits f x) →
      Fits (t.coroutines (d + 1)) (w.status d) →
      Fits (t.coroutines (d + 1)) ((w.setStatus c x).status d) := by
    intro d c x hx hd
    by_cases hdc : d = c
    · subst hdc
      exact (w.status_setStatus_self d x).symm ▸ hx _ hd
    · exact (w.status_setStatus_of_ne c d x hdc).symm ▸ hd
  have hbusy : ∀ c x r, (∀ f, Fits f (w.status c) → Fits f x) → ∃ os t',
      Steps Thread.Step t os t' ∧ Shows t' { w.setStatus c x with registry := r } := by
    intro c x r hx
    exact hidle _ rfl (fun d hd => hleft d c x hx hd)
  cases hstep with
  | opens fd hfree hopened => exact hidle _ rfl (fun _ hd => hd)
  | closes fd hfree => exact hidle _ rfl (fun _ hd => hd)
  | spawns c hfree hfresh =>
      -- A fresh coroutine has no context, so it is not on the stack.
      refine resume_simulated t w h c ?_
      intro hmem
      obtain ⟨k, hk, _⟩ := (h.sound.stages (c + 1)).nested_of_mem t _ (Nat.succ_ne_zero c)
        (h.mem t w c hmem)
      have hfits := h.fits c
      rw [hfresh, hk] at hfits
      obtain hnone | hnew := hfits
      · exact absurd hnone (by simp)
      · exact absurd hnew (by simp)
  | invokes c cs call hstack hactive =>
      exact hbusy c _ w.registry (fun f hf => by rw [hactive] at hf; exact hf)
  | asks c cs call k reply hstack hcalling _ _ =>
      exact hbusy c _ _ (fun f hf => by rw [hcalling] at hf; exact hf)
  | adds c cs caller fd type accepts k hstack hcalling =>
      exact hbusy c _ _ (fun f hf => by rw [hcalling] at hf; exact hf)
  | returns c cs ret hstack hcalling =>
      exact hbusy c _ w.registry (fun f hf => by rw [hcalling] at hf; exact hf)
  | yields c cs fd type k hstack hcalling =>
      have hcontrol := h.control t w c cs hstack
      have hmain : t.control ≠ main := by
        rw [hcontrol]
        exact Nat.succ_ne_zero c
      obtain ⟨p, x, t', hbefore, hyield, hcStack, _, hsound, hsame⟩ :=
        Thread.yield_spec t h.sound hmain
      refine ⟨[.yield], t', .cons _ _ _ _ _ ⟨hmain, _, hyield⟩ (.refl t'), hsound, ?_, ?_⟩
      · rw [hcStack, h.below t w c cs hstack (p ++ [x]) hbefore]
        simp [World.pop, World.setStatus, hstack]
      · intro d
        rw [hsame]
        exact hleft d c _ (fun f hf => by rw [hcalling] at hf; exact hf) (h.fits d)
  | exits c cs hstack hactive =>
      have hcontrol := h.control t w c cs hstack
      have hmain : t.control ≠ main := by
        rw [hcontrol]
        exact Nat.succ_ne_zero c
      obtain ⟨p, x, t', hbefore, hwrapped, hcStack, _, hsound, ⟨context, hexit⟩, hsame⟩ :=
        Thread.wrapped_spec t h.sound hmain
      refine ⟨[.completes], t', .cons _ _ _ _ _ ⟨hmain, _, hwrapped⟩ (.refl t'), hsound, ?_, ?_⟩
      · rw [hcStack, h.below t w c cs hstack (p ++ [x]) hbefore]
        simp [World.pop, World.setStatus, hstack]
      · intro d
        by_cases hd : d = c
        · -- Its flags tell that it has ended.
          have hexited : (w.setStatus c .exited).pop.status d = .exited :=
            hd ▸ w.status_setStatus_self c .exited
          rw [hexited, hd, ← hcontrol, hexit]
          exact ⟨context, rfl⟩
        · have hother : (w.setStatus c .exited).pop.status d = w.status d :=
            w.status_setStatus_of_ne c d .exited hd
          rw [hother, hsame (d + 1) (fun heq => hd (Nat.succ.inj (heq.trans hcontrol)))]
          exact h.fits d
  | dispatches fd hstack hroutines hinterest => exact hidle _ rfl (fun _ hd => hd)
  | resumes c cs hstack hroutines =>
      have hsame : Shows t { w with routines := cs } := h.same t w _ rfl (fun _ hd => hd)
      exact resume_simulated t _ hsame c (by simp [hstack])

/-- Every run of the loop is a run of its thread. -/
theorem run_simulated (w : World) (acts : List Act) (h : Run World.initial acts w) :
    ∃ os t, Thread.Run os t ∧ Shows t w := by
  refine steps_invariant (fun w => ∃ os t, Thread.Run os t ∧ Shows t w) ?_ World.initial w acts h
    ⟨[], Thread.initial, .refl _, initial_shows⟩
  intro w a w' hw hstep
  obtain ⟨os, t, hrun, hshows⟩ := hw
  obtain ⟨os', t', hsteps, hshows'⟩ := step_simulated t w w' a hshows hstep
  exact ⟨os ++ os', t', steps_append _ _ _ _ _ hrun hsteps, hshows'⟩

/-- A coroutine that is started, and ends. -/
theorem run_simulated_exits :
    ∃ os t, Thread.Run os t ∧ Shows t ((World.initial.resume 0).setStatus 0 .exited).pop :=
  run_simulated _ [.spawns 0, .exits 0] <|
    Steps.cons _ _ _ _ _ (Step.spawns _ 0 rfl rfl) <|
    Steps.cons _ _ _ _ _ (Step.exits _ 0 [] rfl rfl) (.refl _)

end Co
