import Trpc.Theory.Co.Contexts
import Mathlib.Data.List.Chain
import Mathlib.Data.List.Nodup

/-!
# Switching

What the stack, the flags, the contexts and the registers have to do with each other.
A coroutine goes through stages, and its flags, its context and the registers there say
in which it is; those on the stack are each in the middle of a `resume` of the next, and
the last of them is in control. Both are kept by every operation, so a switch always
finds registers, and finds the ones it is meant to.

Within `resume` and within the end of an entry the two are not in step for a while. In
the first the coroutine has its context and stands not on the stack yet, which is a
stage of its own; the second is looked at as a whole.

## Main definitions

* `Thread.Stage`: How far a coroutine has got.
* `Thread.Awaits`: One coroutine is in the middle of a `resume` of another.
* `Thread.Sound`: What holds between operations.
* `Thread.Move`: What an operation can do to the stack.

## Theorems

* `resume_spec`, `yield_spec`, `wrapped_spec`: The operations that switch.
* `step_spec`: All operations have a result, and a sound one.
-/

namespace Co

open Transition

/-- In a chain the last element is no left one. -/
theorem isChain_front {α : Type} (R S : α → α → Prop) (l : List α) (x : α)
    (h : (l ++ [x]).IsChain R) (himp : ∀ a ∈ l, ∀ b, R a b → S a b) :
    (l ++ [x]).IsChain S := by
  rw [List.isChain_append] at h ⊢
  refine ⟨h.1.imp_of_mem_imp (fun a b ha _ => himp a ha b), List.isChain_singleton x, ?_⟩
  intro a ha b hb
  exact himp a (List.mem_of_getLast? ha) b (h.2.2 a ha b hb)

namespace Thread

/-! ## The stages of a coroutine -/

/-- How far a coroutine has got. -/
inductive Stage (t : Thread) (c : Coroutine) : Prop where
  | absent (hfields : t.coroutines c = none) (hentered : c ∉ t.entered)
      (hfinished : c ∉ t.finished) (hstack : c ∉ t.env.cStack)
  | fresh (hfields : t.coroutines c = some ⟨0, none⟩) (hentered : c ∉ t.entered)
      (hfinished : c ∉ t.finished) (hstack : c ∉ t.env.cStack)
  /-- It has its context, and is about to be entered. -/
  | ready (k : ContextId) (hfields : t.coroutines c = some ⟨State.RUNNING, some k⟩)
      (hpoint : t.contexts k = some (.start c)) (hentered : c ∉ t.entered)
      (hfinished : c ∉ t.finished) (hstack : c ∉ t.env.cStack)
  | parked (k : ContextId) (hfields : t.coroutines c = some ⟨State.RUNNING, some k⟩)
      (hpoint : t.contexts k = some (.yielded c)) (hentered : c ∈ t.entered)
      (hfinished : c ∉ t.finished) (hstack : c ∉ t.env.cStack)
  /-- It is in control, or waits for one that it has resumed. -/
  | nested (k : ContextId) (hmain : c ≠ main)
      (hfields : t.coroutines c = some ⟨State.RUNNING, some k⟩) (hentered : c ∈ t.entered)
      (hfinished : c ∉ t.finished) (hstack : c ∈ t.env.cStack)
  | done (context : Option ContextId) (hfields : t.coroutines c = some ⟨State.EXIT, context⟩)
      (hentered : c ∈ t.entered) (hfinished : c ∈ t.finished) (hstack : c ∉ t.env.cStack)
  | base (k : ContextId) (hmain : c = main) (hfields : t.coroutines c = some ⟨0, some k⟩)
      (hentered : c ∉ t.entered) (hfinished : c ∉ t.finished) (hstack : c ∈ t.env.cStack)

/-- A coroutine stays where it is when a step is about others. -/
theorem Stage.frame (t t' : Thread) (c : Coroutine) (h : Stage t c)
    (hfields : t'.coroutines c = t.coroutines c)
    (hregisters : ∀ k, t.contextOf c = some k → t'.contexts k = t.contexts k)
    (hentered : c ∈ t'.entered ↔ c ∈ t.entered) (hfinished : c ∈ t'.finished ↔ c ∈ t.finished)
    (hstack : c ∈ t'.env.cStack ↔ c ∈ t.env.cStack) : Stage t' c := by
  have hkeep : ∀ f, t.coroutines c = some f → t'.coroutines c = some f :=
    fun f hf => hfields.trans hf
  have hpoint : ∀ r k p, t.coroutines c = some ⟨r, some k⟩ → t.contexts k = some p →
      t'.contexts k = some p :=
    fun r k p hf hp => (hregisters k (contextOf_of_fields t c _ hf)).trans hp
  cases h with
  | absent hf he hx hs =>
      exact .absent (hfields.trans hf) (he ∘ hentered.mp) (hx ∘ hfinished.mp) (hs ∘ hstack.mp)
  | fresh hf he hx hs =>
      exact .fresh (hkeep _ hf) (he ∘ hentered.mp) (hx ∘ hfinished.mp) (hs ∘ hstack.mp)
  | ready k hf hp he hx hs =>
      exact .ready k (hkeep _ hf) (hpoint _ k _ hf hp) (he ∘ hentered.mp) (hx ∘ hfinished.mp)
        (hs ∘ hstack.mp)
  | parked k hf hp he hx hs =>
      exact .parked k (hkeep _ hf) (hpoint _ k _ hf hp) (hentered.mpr he) (hx ∘ hfinished.mp)
        (hs ∘ hstack.mp)
  | nested k hm hf he hx hs =>
      exact .nested k hm (hkeep _ hf) (hentered.mpr he) (hx ∘ hfinished.mp) (hstack.mpr hs)
  | done context hf he hx hs =>
      exact .done context (hkeep _ hf) (hentered.mpr he) (hfinished.mpr hx) (hs ∘ hstack.mp)
  | base k hm hf he hx hs =>
      exact .base k hm (hkeep _ hf) (he ∘ hentered.mp) (hx ∘ hfinished.mp) (hstack.mpr hs)

/-- On the stack there is a context. -/
theorem Stage.context_of_mem (t : Thread) (c : Coroutine) (h : Stage t c)
    (hc : c ∈ t.env.cStack) : ∃ k, t.contextOf c = some k := by
  cases h with
  | nested k hm hf he hx hs => exact ⟨k, contextOf_of_fields t c _ hf⟩
  | base k hm hf he hx hs => exact ⟨k, contextOf_of_fields t c _ hf⟩
  | absent hf he hx hs => exact absurd hc hs
  | fresh hf he hx hs => exact absurd hc hs
  | ready k hf hp he hx hs => exact absurd hc hs
  | parked k hf hp he hx hs => exact absurd hc hs
  | done context hf he hx hs => exact absurd hc hs

/-- On the stack above the main coroutine there are those that have been entered. -/
theorem Stage.nested_of_mem (t : Thread) (c : Coroutine) (h : Stage t c) (hmain : c ≠ main)
    (hc : c ∈ t.env.cStack) : ∃ k, t.coroutines c = some ⟨State.RUNNING, some k⟩ ∧
      c ∈ t.entered ∧ c ∉ t.finished := by
  cases h with
  | nested k hm hf he hx hs => exact ⟨k, hf, he, hx⟩
  | base k hm hf he hx hs => exact absurd hm hmain
  | absent hf he hx hs => exact absurd hc hs
  | fresh hf he hx hs => exact absurd hc hs
  | ready k hf hp he hx hs => exact absurd hc hs
  | parked k hf hp he hx hs => exact absurd hc hs
  | done context hf he hx hs => exact absurd hc hs

/-! ## The state of a thread -/

/-- `caller` is in the middle of a `resume` of `callee`. -/
def Awaits (t : Thread) (caller callee : Coroutine) : Prop :=
  ∃ k, t.contextOf caller = some k ∧ t.contexts k = some (.resumed caller callee)

/-- What holds between operations. -/
structure Sound (t : Thread) : Prop where
  owned : Owned t
  stages : ∀ c, Stage t c
  bottom : ∃ above, t.env.cStack = main :: above
  once : t.env.cStack.Nodup
  chain : t.env.cStack.IsChain t.Awaits
  control : ∃ below, t.env.cStack = below ++ [t.control]
  enteredOnce : t.entered.Nodup

theorem Sound.main_mem (t : Thread) (h : Sound t) : main ∈ t.env.cStack := by
  obtain ⟨above, habove⟩ := h.bottom
  rw [habove]
  exact List.mem_cons_self

theorem Sound.control_mem (t : Thread) (h : Sound t) : t.control ∈ t.env.cStack := by
  obtain ⟨below, hbelow⟩ := h.control
  rw [hbelow]
  exact List.mem_append_right _ List.mem_cons_self

theorem coroutines_initial (c : Coroutine) (hc : c ≠ main) : initial.coroutines c = none := by
  have hupdate : Function.update (fun _ : Coroutine => (none : Option Coroutine.Fields)) main
      (some ⟨0, some 0⟩) c = none := Function.update_of_ne hc _ _
  exact hupdate

/-- A thread begins in a sound state. -/
theorem initial_sound : Sound initial where
  owned := by
    -- There is one context, that of the main coroutine.
    have hholds : ∀ o k, initial.holds o = some k → o = .coroutine main ∧ k = 0 := by
      intro o k h
      cases o with
      | slot i => exact absurd h (by simp [holds, initial])
      | coroutine c =>
          by_cases hc : c = main
          · subst hc
            exact ⟨rfl, (Option.some.inj h).symm⟩
          · simp only [holds, contextOf, coroutines_initial c hc, Option.bind_none] at h
            exact absurd h (by simp)
    constructor
    · exact Nat.zero_le _
    · intro i
      simp [initial]
    · intro a b k ha hb
      exact (hholds a k ha).1.trans (hholds b k hb).1.symm
    · intro o k h
      rw [(hholds o k h).2]
      exact Nat.one_pos
  stages := by
    intro c
    by_cases hc : c = main
    · subst hc
      exact .base 0 rfl rfl List.not_mem_nil List.not_mem_nil List.mem_cons_self
    · refine .absent (coroutines_initial c hc) List.not_mem_nil List.not_mem_nil ?_
      intro hmem
      exact hc (List.mem_singleton.mp hmem)
  bottom := ⟨[], rfl⟩
  once := List.nodup_singleton main
  chain := List.isChain_singleton main
  control := ⟨[], rfl⟩
  enteredOnce := List.nodup_nil

/-! ## Starting -/

/-- A resumption of the coroutine goes on with its code, from the head or behind its
    `yield`. -/
def Enterable (t : Thread) (c : Coroutine) : Prop :=
  ∃ k, t.coroutines c = some ⟨State.RUNNING, some k⟩ ∧ c ∉ t.finished ∧
    (t.contexts k = some (.start c) ∧ c ∉ t.entered ∨
      t.contexts k = some (.yielded c) ∧ c ∈ t.entered)

/-- Registers that `caller` does not wait on may be written. -/
theorem Awaits.frame (t t' : Thread) (caller callee : Coroutine) (h : t.Awaits caller callee)
    (hcontext : t'.contextOf caller = t.contextOf caller)
    (hregisters : ∀ k, t.contextOf caller = some k → t'.contexts k = t.contexts k) :
    t'.Awaits caller callee := by
  obtain ⟨k, hk, hpoint⟩ := h
  exact ⟨k, hcontext.trans hk, (hregisters k hk).trans hpoint⟩

/-- A coroutine that was not started is given its context. -/
theorem equip_fresh (t : Thread) (h : Sound t) (c : Coroutine)
    (hfields : t.coroutines c = some ⟨0, none⟩) (hentered : c ∉ t.entered)
    (hfinished : c ∉ t.finished) (hstack : c ∉ t.env.cStack) :
    ∃ t', t.equip c ⟨0, none⟩ = .ok t' ∧ Sound t' ∧ t'.Enterable c ∧
      t'.env.cStack = t.env.cStack ∧ ∀ d, d ≠ c → t'.coroutines d = t.coroutines d := by
  obtain ⟨k, slots, top, n, hacquire, hfree, howned⟩ := acquire_spec t h.owned
  have hrunning : (⟨0, none⟩ : Coroutine.Fields).running = false := by decide
  have hflag : (0 : Bitmask) ||| State.RUNNING = State.RUNNING := by decide
  let t' := setFields c ⟨State.RUNNING, some k⟩ (setRegisters k (.start c)
    { t with env := ⟨t.env.cStack, slots, top⟩, allocated := n })
  have hself : t'.coroutines c = some ⟨State.RUNNING, some k⟩ := Function.update_self c _ _
  have hother : ∀ d, d ≠ c → t'.coroutines d = t.coroutines d :=
    fun d hd => Function.update_of_ne hd _ _
  have hpoint : t'.contexts k = some (.start c) := Function.update_self k _ _
  -- Nobody else has the registers that `prepare` writes.
  have hregisters : ∀ d j, t.contextOf d = some j → t'.contexts j = t.contexts j := by
    intro d j hj
    refine Function.update_of_ne ?_ _ _
    intro heq
    exact hfree d (heq ▸ hj)
  refine ⟨t', ?_, ?_, ⟨k, hself, hfinished, Or.inl ⟨hpoint, hentered⟩⟩, rfl, hother⟩
  · unfold equip
    rw [hrunning, hacquire, hflag]
    rfl
  · constructor
    · exact (howned c State.RUNNING).frame _ t' rfl rfl (fun d => rfl) rfl
    · intro d
      by_cases hd : d = c
      · subst hd
        exact .ready k hself hpoint hentered hfinished hstack
      · exact (h.stages d).frame t t' d (hother d hd) (hregisters d) Iff.rfl Iff.rfl Iff.rfl
    · exact h.bottom
    · exact h.once
    · refine List.IsChain.imp_of_mem_imp ?_ h.chain
      intro a b ha _ hab
      -- The new coroutine is not on the stack, so nobody there waits by its registers.
      have hac : a ≠ c := fun heq => hstack (heq ▸ ha)
      exact hab.frame t t' a b
        (congrArg (fun f => Option.bind f Coroutine.Fields.context) (hother a hac)) (hregisters a)
    · exact h.control
    · exact h.enteredOnce

/-- `resume` gives a coroutine what it needs to be entered, if it has not got it. -/
theorem equip_spec (t : Thread) (h : Sound t) (c : Coroutine) (f : Coroutine.Fields)
    (hf : t.coroutines c = some f) (hexit : f.exit = false) (hstack : c ∉ t.env.cStack) :
    ∃ t', t.equip c f = .ok t' ∧ Sound t' ∧ t'.Enterable c ∧
      t'.env.cStack = t.env.cStack ∧ ∀ d, d ≠ c → t'.coroutines d = t.coroutines d := by
  -- A coroutine that has been started keeps its context.
  have hstarted : ∀ k, t.coroutines c = some ⟨State.RUNNING, some k⟩ → t.equip c f = .ok t := by
    intro k hfields
    have hrunning : f.running = true := by
      rw [hf] at hfields
      rw [Option.some.inj hfields]
      exact running_running _
    unfold equip
    rw [hrunning]
    rfl
  -- Its stage decides. On the stack or at its end it is not resumed.
  cases h.stages c with
  | absent hfields he hx hs =>
      rw [hf] at hfields
      exact absurd hfields (by simp)
  | fresh hfields he hx hs =>
      rw [hf] at hfields
      rw [Option.some.inj hfields]
      exact equip_fresh t h c (hf.trans hfields) he hx hs
  | ready k hfields hp he hx hs =>
      exact ⟨t, hstarted k hfields, h, ⟨k, hfields, hx, Or.inl ⟨hp, he⟩⟩, rfl,
        fun _ _ => rfl⟩
  | parked k hfields hp he hx hs =>
      exact ⟨t, hstarted k hfields, h, ⟨k, hfields, hx, Or.inr ⟨hp, he⟩⟩, rfl,
        fun _ _ => rfl⟩
  | nested k hm hfields he hx hs => exact absurd hs hstack
  | done context hfields he hx hs =>
      rw [hf] at hfields
      rw [Option.some.inj hfields, exit_exit] at hexit
      exact absurd hexit (by decide)
  | base k hm hfields he hx hs => exact absurd hs hstack

/-! ## Entering -/

theorem switchOnly_start (t : Thread) (k : ContextId) (c : Coroutine)
    (h : t.contexts k = some (.start c)) : t.switchOnly (some k) =
      .ok ({ t with control := c, entered := t.entered ++ [c] }, none) := by
  simp only [switchOnly, h]

theorem switchOnly_yielded (t : Thread) (k : ContextId) (c : Coroutine)
    (h : t.contexts k = some (.yielded c)) : t.switchOnly (some k) =
      .ok ({ t with control := c }, none) := by
  simp only [switchOnly, h]

theorem switchOnly_resumed (t : Thread) (k : ContextId) (caller callee : Coroutine)
    (h : t.contexts k = some (.resumed caller callee)) : t.switchOnly (some k) =
      .ok ({ t with control := caller }, t.runtimeOf callee) := by
  simp only [switchOnly, h]

/-- The thread behind a switch into `c`. -/
def inside (c : Coroutine) (k : ContextId) (es : List Coroutine) (t : Thread) : Thread :=
  { t with
    env := t.env.push c
    contexts := Function.update t.contexts k (some (.resumed t.control c))
    control := c
    entered := es }

/-- Entering a coroutine that can be entered: it is in control, above the one that was. -/
theorem enter_eq (t : Thread) (h : Sound t) (c : Coroutine) (hstack : c ∉ t.env.cStack)
    (henter : t.Enterable c) : ∃ k es, t.contextOf t.control = some k ∧
      t.enter c = .ok (t.inside c k es, none) ∧ es.Nodup ∧
      ∀ d, d ∈ es ↔ d ∈ t.entered ∨ d = c := by
  obtain ⟨below, hbelow⟩ := h.control
  have hcontrol : t.control ∈ t.env.cStack := h.control_mem
  obtain ⟨j, hfields, hx, hpoint⟩ := henter
  obtain ⟨k, hk⟩ := (h.stages t.control).context_of_mem t _ hcontrol
  have hj : t.contextOf c = some j := contextOf_of_fields t c _ hfields
  -- The registers of the coroutine in control are saved in another context than `c` has.
  have hne : j ≠ k := by
    intro heq
    have hsame : c = t.control := h.owned.single t c _ j hj (heq ▸ hk)
    exact hstack (hsame ▸ hcontrol)
  have hcurrent : t.env.current = .ok t.control := by
    unfold Environment.current
    rw [hbelow]
    simp
  have hload : ∀ p, t.contexts j = some p →
      ((t.setEnv (t.env.push c)).setRegisters k (.resumed t.control c)).contexts j = some p := by
    intro p hp
    exact (Function.update_of_ne hne _ _).trans hp
  -- From the head it is new among those entered. Behind a `yield` it is one of them.
  obtain ⟨hp, he⟩ | ⟨hp, he⟩ := hpoint
  · refine ⟨k, t.entered ++ [c], hk, ?_, ?_, ?_⟩
    · unfold enter
      simp only [hcurrent, bind, Except.bind, contextOf_setEnv, hj, hk]
      exact switchOnly_start _ j c (hload _ hp)
    · rw [List.nodup_append]
      refine ⟨h.enteredOnce, List.nodup_singleton c, ?_⟩
      intro a ha b hb heq
      rw [heq, List.mem_singleton.mp hb] at ha
      exact he ha
    · intro d
      simp
  · refine ⟨k, t.entered, hk, ?_, h.enteredOnce, ?_⟩
    · unfold enter
      simp only [hcurrent, bind, Except.bind, contextOf_setEnv, hj, hk]
      exact switchOnly_yielded _ j c (hload _ hp)
    · intro d
      constructor
      · exact Or.inl
      · rintro (hd | rfl)
        · exact hd
        · exact he

/-- Entering keeps a thread sound. -/
theorem inside_sound (t : Thread) (h : Sound t) (c : Coroutine) (hstack : c ∉ t.env.cStack)
    (henter : t.Enterable c) (k : ContextId) (es : List Coroutine)
    (hk : t.contextOf t.control = some k) (hnodup : es.Nodup)
    (hes : ∀ d, d ∈ es ↔ d ∈ t.entered ∨ d = c) : Sound (t.inside c k es) := by
  obtain ⟨below, hbelow⟩ := h.control
  obtain ⟨j, hfields, hx, hpoint⟩ := henter
  -- The switch writes the registers of the one in control only.
  have hregisters : ∀ d, d ≠ t.control → ∀ i, t.contextOf d = some i →
      (t.inside c k es).contexts i = t.contexts i := by
    intro d hd i hi
    refine Function.update_of_ne ?_ _ _
    intro heq
    exact hd (h.owned.single t d t.control k (heq ▸ hi) hk)
  have hmem : ∀ d, d ∈ (t.inside c k es).env.cStack ↔ d ∈ t.env.cStack ∨ d = c := by
    intro d
    simp [inside, Environment.push]
  have hcontrol : t.control ∈ t.env.cStack := h.control_mem
  constructor
  · exact h.owned.frame t _ rfl rfl (fun d => rfl) rfl
  · intro d
    -- Two coroutines change stage: the one entered and the one left.
    by_cases hd : d = c
    · subst hd
      refine .nested j ?_ hfields ((hes d).mpr (Or.inr rfl)) hx ((hmem d).mpr (Or.inr rfl))
      rintro rfl
      exact hstack h.main_mem
    · have hin : d ∈ es ↔ d ∈ t.entered := by
        rw [hes d]
        exact or_iff_left hd
      have hon : d ∈ (t.inside c k es).env.cStack ↔ d ∈ t.env.cStack := by
        rw [hmem d]
        exact or_iff_left hd
      by_cases hself : d = t.control
      · -- The one that was in control stays on the stack; its registers do not matter there.
        subst hself
        cases h.stages t.control with
        | nested i hm hf he hfin hs => exact .nested i hm hf (hin.mpr he) hfin (hon.mpr hs)
        | base i hm hf he hfin hs => exact .base i hm hf (he ∘ hin.mp) hfin (hon.mpr hs)
        | absent hf he hfin hs => exact absurd hcontrol hs
        | fresh hf he hfin hs => exact absurd hcontrol hs
        | ready i hf hp he hfin hs => exact absurd hcontrol hs
        | parked i hf hp he hfin hs => exact absurd hcontrol hs
        | done context hf he hfin hs => exact absurd hcontrol hs
      · exact (h.stages d).frame t _ d rfl (hregisters d hself) hin Iff.rfl hon
  · obtain ⟨above, habove⟩ := h.bottom
    refine ⟨above ++ [c], ?_⟩
    simp only [inside, Environment.push]
    rw [habove, List.cons_append]
  · simp only [inside, Environment.push]
    rw [List.nodup_append]
    refine ⟨h.once, List.nodup_singleton c, ?_⟩
    intro a ha b hb heq
    rw [heq, List.mem_singleton.mp hb] at ha
    exact hstack ha
  · -- The one in control waits for `c` from now on; those below it wait as before.
    have honce := h.once
    rw [hbelow] at honce
    simp only [inside, Environment.push]
    rw [hbelow, List.append_assoc, List.singleton_append, List.isChain_append_cons_cons]
    refine ⟨?_, ⟨k, hk, Function.update_self k _ _⟩, List.isChain_singleton c⟩
    refine isChain_front _ _ below t.control (hbelow ▸ h.chain) ?_
    intro a ha b hab
    have hne : a ≠ t.control := by
      intro heq
      exact List.nodup_append.mp honce |>.2.2 a ha t.control List.mem_cons_self heq
    exact hab.frame t _ a b rfl (hregisters a hne)
  · exact ⟨t.env.cStack, rfl⟩
  · exact hnodup

/-! ## Going back -/

/-- Above the main coroutine every coroutine in control was resumed by the next below it. -/
theorem Sound.caller (t : Thread) (h : Sound t) (hmain : t.control ≠ main) :
    ∃ p x, t.env.cStack = (p ++ [x]) ++ [t.control] ∧ t.Awaits x t.control ∧
      t.control ∉ p ++ [x] := by
  obtain ⟨below, hbelow⟩ := h.control
  obtain ⟨above, habove⟩ := h.bottom
  -- Below it there is somebody, or it would be the main coroutine at the bottom.
  obtain rfl | ⟨p, x, rfl⟩ := below.eq_nil_or_concat
  · rw [hbelow] at habove
    exact absurd (List.cons.inj habove).1 hmain
  · have hstack : t.env.cStack = (p ++ [x]) ++ [t.control] := by
      rw [hbelow, List.concat_eq_append]
    have hchain := h.chain
    have honce := h.once
    rw [hstack, List.append_assoc, List.singleton_append,
      List.isChain_append_cons_cons] at hchain
    rw [hstack, List.nodup_append] at honce
    refine ⟨p, x, hstack, hchain.2.1, ?_⟩
    intro hmem
    exact honce.2.2 t.control hmem t.control List.mem_cons_self rfl

/-- The registers behind a switch away from `context`. -/
def saving (context : Option ContextId) (here : Point) (contexts : ContextId → Option Point) :
    ContextId → Option Point :=
  match context with
  | none => contexts
  | some k => Function.update contexts k (some here)

/-- Other registers stay. -/
theorem saving_of_ne (context : Option ContextId) (here : Point)
    (contexts : ContextId → Option Point) (k : ContextId) (hk : context ≠ some k) :
    saving context here contexts k = contexts k := by
  -- Nothing is saved for a coroutine without a context.
  cases context with
  | none => rfl
  | some j => exact Function.update_of_ne (fun h => hk (by rw [h])) _ _

/-- The thread behind a `yield` of `c` to `x`. -/
def outside (p : List Coroutine) (x c : Coroutine) (here : Point) (t : Thread) : Thread :=
  { t with
    env := { t.env with cStack := p ++ [x] }
    contexts := saving (t.contextOf c) here t.contexts
    control := x }

/-- Going back to the coroutine that waits: it gets the flags of the one that leaves. -/
theorem leave_eq (t : Thread) (here : Point) (p : List Coroutine) (x c : Coroutine)
    (hstack : t.env.cStack = (p ++ [x]) ++ [c]) (hawaits : t.Awaits x c)
    (hne : ∀ k, t.contextOf x = some k → t.contextOf c ≠ some k) :
    t.leave here = .ok (t.outside p x c here, t.runtimeOf c) := by
  obtain ⟨k, hk, hpoint⟩ := hawaits
  have hcurrent : t.env.current = .ok c := by
    unfold Environment.current
    rw [hstack]
    simp
  have hpop : t.env.pop = .ok { t.env with cStack := p ++ [x] } := by
    have hdrop : t.env.cStack.dropLast = p ++ [x] := by
      rw [hstack, List.dropLast_concat]
    unfold Environment.pop
    -- An ended coroutine may have given its context away; then nothing is saved.
    cases hcase : t.env.cStack with
    | nil =>
        rw [hcase] at hstack
        exact absurd hstack (by simp)
    | cons a l =>
        rw [hcase] at hdrop
        rw [hdrop]
  have hback : Environment.current { t.env with cStack := p ++ [x] } = .ok x := by
    unfold Environment.current
    simp
  -- Saving the registers of `c` does not touch those that `x` waits by.
  have hsaved := (saving_of_ne (t.contextOf c) here t.contexts k (hne k hk)).trans hpoint
  unfold leave
  simp only [hcurrent, hpop, hback, bind, Except.bind, contextOf_setEnv, env_setEnv, hk]
  cases hc : t.contextOf c with
  | none =>
      rw [hc] at hsaved
      have hswitch := switchOnly_resumed
        (t.setEnv { t.env with cStack := p ++ [x] }) k x c hsaved
      unfold outside
      rw [hc]
      exact hswitch
  | some j =>
      rw [hc] at hsaved
      have hswitch := switchOnly_resumed
        ((t.setEnv { t.env with cStack := p ++ [x] }).setRegisters j here) k x c hsaved
      unfold outside
      rw [hc]
      exact hswitch

/-- What is left is sound if all is as before but for the coroutine that has gone. -/
theorem Sound.back (t t' : Thread) (h : Sound t) (p : List Coroutine) (x : Coroutine)
    (hstack : t.env.cStack = (p ++ [x]) ++ [t.control]) (hgone : t.control ∉ p ++ [x])
    (hstack' : t'.env.cStack = p ++ [x]) (hcontrol : t'.control = x) (howned : Owned t')
    (hstage : Stage t' t.control)
    (hfields : ∀ d, d ≠ t.control → t'.coroutines d = t.coroutines d)
    (hregisters : ∀ d, d ≠ t.control → ∀ k, t.contextOf d = some k →
      t'.contexts k = t.contexts k)
    (hentered : t'.entered = t.entered)
    (hfinished : ∀ d, d ≠ t.control → (d ∈ t'.finished ↔ d ∈ t.finished)) : Sound t' := by
  have hbelow : ∀ d, d ∈ p ++ [x] → d ≠ t.control := by
    intro d hd heq
    exact hgone (heq ▸ hd)
  constructor
  · exact howned
  · intro d
    by_cases hd : d = t.control
    · rw [hd]
      exact hstage
    · -- Another coroutine is at the stage it was at, on the stack or not.
      refine (h.stages d).frame t t' d (hfields d hd) (hregisters d hd) ?_ (hfinished d hd) ?_
      · rw [hentered]
      · rw [hstack', hstack]
        exact (List.mem_append.trans (or_iff_left (fun h => hd (List.mem_singleton.mp h)))).symm
  · -- At the bottom there is still the main coroutine, as the last entry is another.
    obtain ⟨above, habove⟩ := h.bottom
    rw [hstack] at habove
    rw [hstack']
    cases p with
    | nil => exact ⟨[], by rw [List.nil_append, (List.cons.inj habove).1]⟩
    | cons a p => exact ⟨p ++ [x], by rw [List.cons_append, (List.cons.inj habove).1]⟩
  · -- Without its last entry the stack still names nobody twice.
    have honce := h.once
    rw [hstack, List.nodup_append] at honce
    rw [hstack']
    exact honce.1
  · -- Those that are left wait for each other as before.
    have hchain := h.chain
    rw [hstack] at hchain
    rw [hstack']
    refine hchain.left_of_append.imp_of_mem_imp ?_
    intro a b ha _ hab
    exact hab.frame t t' a b
      (congrArg (fun f => Option.bind f Coroutine.Fields.context) (hfields a (hbelow a ha)))
      (hregisters a (hbelow a ha))
  · exact ⟨p, by rw [hstack', hcontrol]⟩
  · rw [hentered]
    exact h.enteredOnce

/-- A `yield` goes back to the coroutine below. -/
theorem yield_spec (t : Thread) (h : Sound t) (hmain : t.control ≠ main) :
    ∃ p x t', t.env.cStack = (p ++ [x]) ++ [t.control] ∧
      t.yield = .ok (t', some State.RUNNING) ∧ t'.env.cStack = p ++ [x] ∧ t'.control = x ∧
      Sound t' ∧ t'.coroutines = t.coroutines := by
  obtain ⟨p, x, hstack, hawaits, hgone⟩ := h.caller t hmain
  obtain ⟨k, hfields, hentered, hfinished⟩ :=
    (h.stages t.control).nested_of_mem t _ hmain h.control_mem
  have hk : t.contextOf t.control = some k := contextOf_of_fields t _ _ hfields
  -- The registers that are saved are those of the coroutine alone.
  have hsingle : ∀ d, d ≠ t.control → ∀ j, t.contextOf d = some j →
      t.contextOf t.control ≠ some j :=
    fun d hd j hj heq => hd (h.owned.single t d t.control j hj heq)
  have hx : x ≠ t.control := by
    rintro rfl
    exact hgone (List.mem_append_right p List.mem_cons_self)
  refine ⟨p, x, t.outside p x t.control (.yielded t.control), hstack, ?_, rfl, rfl, ?_, rfl⟩
  · have hleave := leave_eq t (.yielded t.control) p x t.control hstack hawaits (hsingle x hx)
    rw [runtimeOf_of_fields t _ _ hfields] at hleave
    exact hleave
  · refine h.back t _ p x hstack hgone rfl rfl
      (h.owned.frame t _ rfl rfl (fun d => rfl) rfl) ?_ (fun d hd => rfl)
      (fun d hd j hj => saving_of_ne _ _ _ j (hsingle d hd j hj)) rfl (fun d hd => Iff.rfl)
    refine .parked k hfields ?_ hentered hfinished hgone
    simp only [outside, saving, hk, Function.update_self]

/-- So does the return of an entry. -/
theorem wrapped_spec (t : Thread) (h : Sound t) (hmain : t.control ≠ main) :
    ∃ p x t', t.env.cStack = (p ++ [x]) ++ [t.control] ∧
      t.wrapped = .ok (t', some State.EXIT) ∧ t'.env.cStack = p ++ [x] ∧ t'.control = x ∧
      Sound t' ∧ (∃ context, t'.coroutines t.control = some ⟨State.EXIT, context⟩) ∧
      ∀ d, d ≠ t.control → t'.coroutines d = t.coroutines d := by
  obtain ⟨p, x, hstack, hawaits, hgone⟩ := h.caller t hmain
  obtain ⟨k, hfields, hentered, hfinished⟩ :=
    (h.stages t.control).nested_of_mem t _ hmain h.control_mem
  obtain ⟨slots, top, context, hretire, howned⟩ := retire_spec t h.owned t.control k hfields
  have hk : t.contextOf t.control = some k := contextOf_of_fields t _ _ hfields
  have hx : x ≠ t.control := by
    rintro rfl
    exact hgone (List.mem_append_right p List.mem_cons_self)
  let t' : Thread :=
    { t with
      env := ⟨t.env.cStack, slots, top⟩
      coroutines := Function.update t.coroutines t.control (some ⟨State.EXIT, context⟩)
      finished := t.finished ++ [t.control] }
  have hself : t'.coroutines t.control = some ⟨State.EXIT, context⟩ := Function.update_self _ _ _
  have hother : ∀ d, d ≠ t.control → t'.coroutines d = t.coroutines d :=
    fun d hd => Function.update_of_ne hd _ _
  have hcontext : ∀ d, d ≠ t.control → t'.contextOf d = t.contextOf d :=
    fun d hd => congrArg (fun f => Option.bind f Coroutine.Fields.context) (hother d hd)
  -- If the coroutine still has its context, it is the only one that has.
  have hsingle : ∀ d, d ≠ t.control → ∀ j, t.contextOf d = some j →
      t'.contextOf t.control ≠ some j :=
    fun d hd j hj heq => hd (howned.single t' d t.control j ((hcontext d hd).trans hj) heq)
  refine ⟨p, x, t'.outside p x t.control (.wrapped t.control), hstack, ?_, rfl, rfl, ?_,
    ⟨context, hself⟩, hother⟩
  · -- The code runs on a context that may lie in a slot already; it only leaves it.
    have hleave := leave_eq t' (.wrapped t.control) p x t.control hstack
      (hawaits.frame t t' x t.control (hcontext x hx) (fun _ _ => rfl))
      (fun j hj => hsingle x hx j ((hcontext x hx).symm.trans hj))
    rw [runtimeOf_of_fields t' _ _ hself] at hleave
    unfold wrapped
    simp only [hretire, bind, Except.bind]
    exact hleave
  · refine h.back t _ p x hstack hgone rfl rfl (howned.frame _ _ rfl rfl (fun d => rfl) rfl) ?_
      hother (fun d hd j hj => saving_of_ne _ _ _ j (hsingle d hd j hj)) rfl ?_
    · exact .done context hself hentered
        (List.mem_append_right _ List.mem_cons_self) hgone
    · intro d hd
      exact List.mem_append.trans (or_iff_left (fun h => hd (List.mem_singleton.mp h)))

/-! ## Operations -/

theorem resume_exit (t : Thread) (c : Coroutine) (f : Coroutine.Fields)
    (hf : t.coroutines c = some f) (hexit : f.exit = true) :
    t.resume c = .ok (t, some f.runtime) := by
  unfold resume
  simp only [hf, hexit, if_true]

/-- A `resume` of a coroutine that has not ended puts it on top. -/
theorem resume_spec (t : Thread) (h : Sound t) (c : Coroutine) (f : Coroutine.Fields)
    (hf : t.coroutines c = some f) (hexit : f.exit = false) (hstack : c ∉ t.env.cStack) :
    ∃ t', t.resume c = .ok (t', none) ∧ t'.env.cStack = t.env.cStack ++ [c] ∧
      t'.control = c ∧ Sound t' ∧ ∀ d, d ≠ c → t'.coroutines d = t.coroutines d := by
  obtain ⟨u, hequip, hu, henter, hucStack, hother⟩ := equip_spec t h c f hf hexit hstack
  have hustack : c ∉ u.env.cStack := by
    rw [hucStack]
    exact hstack
  obtain ⟨k, es, hk, hentered, hnodup, hes⟩ := enter_eq u hu c hustack henter
  refine ⟨u.inside c k es, ?_, congrArg (· ++ [c]) hucStack, rfl,
    inside_sound u hu c hustack henter k es hk hnodup hes, hother⟩
  unfold resume
  simp only [hf, hexit, Bool.false_eq_true, if_false, hequip, bind, Except.bind]
  exact hentered

theorem createCoroutine_fields (t : Thread) (c : Coroutine) :
    (t.createCoroutine c).coroutines c = some ⟨0, none⟩ :=
  Function.update_self c _ _

theorem createCoroutine_sound (t : Thread) (h : Sound t) (c : Coroutine)
    (hc : t.coroutines c = none) : Sound (t.createCoroutine c) := by
  -- A new coroutine has no context, as little as one that does not exist.
  have hcontext : ∀ d, (t.createCoroutine c).contextOf d = t.contextOf d := by
    intro d
    refine (contextOf_setFields c d ⟨0, none⟩ t).trans ?_
    by_cases hd : d = c
    · subst hd
      rw [if_pos rfl]
      unfold contextOf
      rw [hc]
      rfl
    · exact if_neg hd
  constructor
  · exact h.owned.frame t _ rfl rfl hcontext rfl
  · intro d
    by_cases hd : d = c
    · subst hd
      cases h.stages d with
      | absent hf he hx hs => exact .fresh (createCoroutine_fields t d) he hx hs
      | fresh hf he hx hs => exact absurd (hc.symm.trans hf) (by simp)
      | ready k hf hp he hx hs => exact absurd (hc.symm.trans hf) (by simp)
      | parked k hf hp he hx hs => exact absurd (hc.symm.trans hf) (by simp)
      | nested k hm hf he hx hs => exact absurd (hc.symm.trans hf) (by simp)
      | done context hf he hx hs => exact absurd (hc.symm.trans hf) (by simp)
      | base k hm hf he hx hs => exact absurd (hc.symm.trans hf) (by simp)
    · exact (h.stages d).frame t _ d (Function.update_of_ne hd _ _) (fun _ _ => rfl) Iff.rfl
        Iff.rfl Iff.rfl
  · exact h.bottom
  · exact h.once
  · refine h.chain.imp ?_
    intro a b hab
    exact hab.frame t _ a b (hcontext a) (fun _ _ => rfl)
  · exact h.control
  · exact h.enteredOnce

/-- What an operation can do to the stack and to what is being run. -/
inductive Move (t : Thread) : Operation → Thread → Prop where
  | creates (c : Coroutine) (t' : Thread) : t'.env.cStack = t.env.cStack →
      t'.control = t.control → Move t (.createCoroutine c) t'
  | stays (c : Coroutine) : Move t (.resume c) t
  | enters (c : Coroutine) (t' : Thread) : t'.env.cStack = t.env.cStack ++ [c] →
      t'.control = c → Move t (.resume c) t'
  | leaves (o : Operation) (p : List Coroutine) (x : Coroutine) (t' : Thread) :
      o = .yield ∨ o = .completes → t.env.cStack = (p ++ [x]) ++ [t.control] →
      t'.env.cStack = p ++ [x] → t'.control = x → Move t o t'

/-- Every operation that respects the rules has a result, and a sound one. -/
theorem step_spec (t : Thread) (h : Sound t) (o : Operation) (hallowed : t.Allowed o) :
    ∃ t' value, t.step o = .ok (t', value) ∧ t.Move o t' ∧ Sound t' := by
  cases o with
  | createCoroutine c =>
      exact ⟨t.createCoroutine c, none, rfl, .creates c _ rfl rfl,
        createCoroutine_sound t h c hallowed⟩
  | resume c =>
      obtain ⟨f, hf⟩ := Option.isSome_iff_exists.mp hallowed.1
      by_cases hexit : f.exit = true
      · exact ⟨t, _, resume_exit t c f hf hexit, .stays c, h⟩
      · obtain ⟨t', hresume, hcStack, hcontrol, hsound, _⟩ :=
          resume_spec t h c f hf (Bool.eq_false_iff.mpr hexit) hallowed.2
        exact ⟨t', none, hresume, .enters c t' hcStack hcontrol, hsound⟩
  | yield =>
      obtain ⟨p, x, t', hstack, hyield, hcStack, hcontrol, hsound, _⟩ := yield_spec t h hallowed
      exact ⟨t', _, hyield, .leaves _ p x t' (Or.inl rfl) hstack hcStack hcontrol, hsound⟩
  | completes =>
      obtain ⟨p, x, t', hstack, hwrapped, hcStack, hcontrol, hsound, _⟩ :=
        wrapped_spec t h hallowed
      exact ⟨t', _, hwrapped, .leaves _ p x t' (Or.inr rfl) hstack hcStack hcontrol, hsound⟩

theorem step_move (t : Thread) (h : Sound t) (o : Operation) (t' : Thread)
    (hstep : t.Step o t') : t.Move o t' ∧ Sound t' := by
  obtain ⟨hallowed, value, hvalue⟩ := hstep
  obtain ⟨u, value', hu, hmove, hsound⟩ := step_spec t h o hallowed
  -- A step has one result.
  rw [hvalue] at hu
  rw [(Prod.mk.inj (Except.ok.inj hu)).1]
  exact ⟨hmove, hsound⟩

end Thread

end Co
