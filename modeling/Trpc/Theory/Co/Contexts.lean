import Trpc.Core.Coroutine
import Trpc.Lib.Exclusive
import Mathlib.Order.Basic

/-!
# Contexts

Where contexts come from and where they go. Each is held by one coroutine or lies in
one slot of the environment, and the slots are filled from the bottom. `resume` moves
one from the uppermost slot to a coroutine, or makes one; the end of an entry moves it
to the slot above. Nothing else touches them.

## Main definitions

* `Thread.holds`: What the places hold.
* `Thread.Owned`: The contexts are told apart, and the slots filled in order.

## Theorems

* `acquire_spec`: The context that a coroutine is given.
* `retire_spec`: What becomes of it.
-/

namespace Co

open Holding

namespace Thread

/-! ## Contexts and who holds them -/

@[simp] theorem contextOf_setEnv (e : Environment) (t : Thread) (c : Coroutine) :
    (t.setEnv e).contextOf c = t.contextOf c := rfl

@[simp] theorem env_setEnv (e : Environment) (t : Thread) : (t.setEnv e).env = e := rfl

@[simp] theorem contextOf_setRegisters (k : ContextId) (p : Point) (t : Thread)
    (c : Coroutine) : (t.setRegisters k p).contextOf c = t.contextOf c := rfl

theorem contextOf_of_fields (t : Thread) (c : Coroutine) (f : Coroutine.Fields)
    (h : t.coroutines c = some f) : t.contextOf c = f.context := by
  unfold contextOf
  rw [h]
  rfl

theorem runtimeOf_of_fields (t : Thread) (c : Coroutine) (f : Coroutine.Fields)
    (h : t.coroutines c = some f) : t.runtimeOf c = some f.runtime := by
  unfold runtimeOf
  rw [h]
  rfl

/-- The places where there can be a context. -/
inductive Holder where
  | slot (i : Fin recycleSize)
  | coroutine (c : Coroutine)

def holds (t : Thread) : Holder → Option ContextId
  | .slot i => t.env.recycleStack i
  | .coroutine c => t.contextOf c

/-- The contexts are told apart, and the slots are filled up to the top. -/
structure Owned (t : Thread) : Prop where
  top : t.env.recycleTop ≤ recycleSize
  filled : ∀ i : Fin recycleSize, (t.env.recycleStack i).isSome ↔ i.val < t.env.recycleTop
  exclusive : Exclusive t.holds
  known : ∀ o k, t.holds o = some k → k < t.allocated

theorem Owned.single (t : Thread) (h : Owned t) (c d : Coroutine) (k : ContextId)
    (hc : t.contextOf c = some k) (hd : t.contextOf d = some k) : c = d := by
  have heq : Holder.coroutine c = Holder.coroutine d := h.exclusive _ _ k hc hd
  exact Holder.coroutine.inj heq

/-- `Owned` does not look at registers, at the stack and at what is being run. -/
theorem Owned.frame (t t' : Thread) (h : Owned t)
    (hslots : t'.env.recycleStack = t.env.recycleStack)
    (htop : t'.env.recycleTop = t.env.recycleTop)
    (hcontext : ∀ c, t'.contextOf c = t.contextOf c) (halloc : t'.allocated = t.allocated) :
    Owned t' := by
  have hholds : t'.holds = t.holds := by
    funext o
    cases o with
    | slot i => exact congrFun hslots i
    | coroutine c => exact hcontext c
  constructor
  · rw [htop]
    exact h.top
  · rw [htop, hslots]
    exact h.filled
  · rw [hholds]
    exact h.exclusive
  · rw [hholds, halloc]
    exact h.known

theorem contextOf_setFields (c d : Coroutine) (f : Coroutine.Fields) (t : Thread) :
    (t.setFields c f).contextOf d = if d = c then f.context else t.contextOf d := by
  unfold contextOf setFields
  by_cases hd : d = c
  · subst hd
    simp
  · simp [hd]

/-! ## Flags -/

theorem exit_running (context : Option ContextId) :
    Coroutine.Fields.exit ⟨State.RUNNING, context⟩ = false := by
  have hflag : (State.RUNNING &&& State.EXIT != 0) = false := by decide
  exact hflag

theorem exit_exit (context : Option ContextId) :
    Coroutine.Fields.exit ⟨State.EXIT, context⟩ = true := by
  have hflag : (State.EXIT &&& State.EXIT != 0) = true := by decide
  exact hflag

theorem running_running (context : Option ContextId) :
    Coroutine.Fields.running ⟨State.RUNNING, context⟩ = true := by
  have hflag : (State.RUNNING &&& State.RUNNING != 0) = true := by decide
  exact hflag

/-! ## Taking one and putting it by -/

/-- The uppermost slot is emptied into a coroutine. -/
theorem Owned.reused (t : Thread) (hown : Owned t) (c : Coroutine) (r : Bitmask)
    (top : Fin recycleSize) (k : ContextId) (htop : t.env.recycleTop = top.val + 1)
    (hk : t.env.recycleStack top = some k) : Owned (setFields c ⟨r, some k⟩
      (t.setEnv ⟨t.env.cStack, Function.update t.env.recycleStack top none, top⟩)) := by
  -- What the coroutine gets is what the slot held.
  have hholder : t.holds (.slot top) = some k := hk
  constructor
  · exact top.isLt.le
  · -- Below the new top nothing has changed, and the slot at it is empty.
    intro i
    simp only [setFields, setEnv]
    by_cases hi : i = top
    · rw [hi]
      simp
    · have hne : i.val ≠ top.val := fun h => hi (Fin.ext h)
      rw [Function.update_of_ne hi, hown.filled i]
      omega
  · -- The context goes from the slot to the coroutine.
    refine exclusive_move t.holds _ (.slot top) (.coroutine c) hown.exclusive ?_ ?_ ?_
    · simp [holds, setFields, setEnv]
    · simp [holds, contextOf_setFields, hk]
    · intro o hslot hother
      cases o with
      | slot i =>
          have hi : i ≠ top := fun h => hslot (by rw [h])
          exact Function.update_of_ne hi _ _
      | coroutine d =>
          have hd : d ≠ c := fun h => hother (by rw [h])
          exact (contextOf_setFields c d _ _).trans (if_neg hd)
  · intro o j hj
    cases o with
    | slot i =>
        by_cases hi : i = top
        · rw [hi] at hj
          simp [holds, setFields, setEnv] at hj
        · refine hown.known (.slot i) j (Eq.trans ?_ hj)
          exact (Function.update_of_ne hi _ _).symm
    | coroutine d =>
        simp only [holds, contextOf_setFields, contextOf_setEnv] at hj
        by_cases hd : d = c
        · rw [if_pos hd] at hj
          exact hown.known _ j (hholder.trans hj)
        · rw [if_neg hd] at hj
          exact hown.known (.coroutine d) j hj

/-- A new context is given to a coroutine. -/
theorem Owned.made (t : Thread) (hown : Owned t) (c : Coroutine) (r : Bitmask) :
    Owned (setFields c ⟨r, some t.allocated⟩ { t with allocated := t.allocated + 1 }) := by
  constructor
  · exact hown.top
  · exact hown.filled
  · -- Numbers from the frontier on are held by nobody.
    refine exclusive_add t.holds _ (.coroutine c) t.allocated hown.exclusive ?_ ?_ ?_
    · intro o ho
      exact absurd (hown.known o _ ho) (lt_irrefl _)
    · simp [holds, contextOf_setFields]
    · intro o hother
      cases o with
      | slot i => rfl
      | coroutine d =>
          have hd : d ≠ c := fun h => hother (by rw [h])
          exact (contextOf_setFields c d _ _).trans (if_neg hd)
  · intro o j hj
    refine Nat.lt_succ_of_le ?_
    cases o with
    | slot i => exact (hown.known (.slot i) j hj).le
    | coroutine d =>
        simp only [holds, contextOf_setFields] at hj
        by_cases hd : d = c
        · rw [if_pos hd] at hj
          exact (Option.some.inj hj).ge
        · rw [if_neg hd] at hj
          exact (hown.known (.coroutine d) j hj).le

/-- What `resume` takes for a coroutine is a context that nobody else holds, from the slots
    or new. -/
theorem acquire_spec (t : Thread) (hown : Owned t) : ∃ k slots top n,
    t.acquire = .ok (some k,
      { t with env := ⟨t.env.cStack, slots, top⟩, allocated := n }) ∧
    (∀ d, t.contextOf d ≠ some k) ∧
    ∀ c r, Owned (setFields c ⟨r, some k⟩
      { t with env := ⟨t.env.cStack, slots, top⟩, allocated := n }) := by
  unfold acquire
  by_cases hreuse : 0 < t.env.recycleTop
  · have hlt : t.env.recycleTop - 1 < recycleSize := by
      have := hown.top
      omega
    -- The slot below the top is filled, so `reuse` does not return null.
    have hsome : (t.env.recycleStack ⟨t.env.recycleTop - 1, hlt⟩).isSome :=
      (hown.filled _).mpr (by simp only []; omega)
    obtain ⟨k, hk⟩ := Option.isSome_iff_exists.mp hsome
    refine ⟨k, Function.update t.env.recycleStack ⟨t.env.recycleTop - 1, hlt⟩ none,
      t.env.recycleTop - 1, t.allocated, ?_, ?_, ?_⟩
    · simp only [Environment.reusable, hreuse, decide_true, if_true, Environment.reuse,
        hlt, and_self, dite_true, hk, bind, Except.bind, pure, Except.pure, setEnv]
    · intro d hd
      exact absurd (hown.exclusive (.coroutine d) (.slot _) k hd hk) (by simp)
    · intro c r
      exact hown.reused t c r ⟨t.env.recycleTop - 1, hlt⟩ k (by simp only []; omega) hk
  · -- Without a slot to take from, the context is a new one.
    refine ⟨t.allocated, t.env.recycleStack, t.env.recycleTop, t.allocated + 1, ?_, ?_, ?_⟩
    · simp only [Environment.reusable, hreuse, decide_false, Bool.false_eq_true, if_false,
        makeContext]
      rfl
    · intro d hd
      exact absurd (hown.known (.coroutine d) _ hd) (lt_irrefl _)
    · exact fun c r => hown.made t c r

/-- The context of a coroutine is put by in the slot above the top. -/
theorem Owned.recycled (t : Thread) (hown : Owned t) (c : Coroutine) (r : Bitmask)
    (top : Fin recycleSize) (k : ContextId) (htop : t.env.recycleTop = top.val)
    (hk : t.contextOf c = some k) : Owned (setEnv ⟨t.env.cStack,
      Function.update t.env.recycleStack top (some k), top.val + 1⟩ (t.setFields c ⟨r, none⟩)) := by
  have hholder : t.holds (.coroutine c) = some k := hk
  constructor
  · exact top.isLt
  · intro i
    simp only [setFields, setEnv]
    -- Below the top all slots stay filled, and this one is the next.
    by_cases hi : i = top
    · rw [hi]
      simp
    · have hne : i.val ≠ top.val := fun h => hi (Fin.ext h)
      rw [Function.update_of_ne hi, hown.filled i]
      omega
  · -- The context goes from the coroutine to the slot, which was empty until now.
    refine exclusive_move t.holds _ (.coroutine c) (.slot top) hown.exclusive ?_ ?_ ?_
    · simp [holds, contextOf_setFields]
    · simp [holds, setFields, setEnv, hk]
    · intro o hother hslot
      cases o with
      | slot i =>
          have hi : i ≠ top := fun h => hslot (by rw [h])
          exact Function.update_of_ne hi _ _
      | coroutine d =>
          have hd : d ≠ c := fun h => hother (by rw [h])
          exact (contextOf_setFields c d _ t).trans (if_neg hd)
  · intro o j hj
    cases o with
    | slot i =>
        by_cases hi : i = top
        · rw [hi] at hj
          simp only [holds, setEnv, Function.update_self] at hj
          exact hown.known _ j (hholder.trans hj)
        · refine hown.known (.slot i) j (Eq.trans ?_ hj)
          exact (Function.update_of_ne hi _ _).symm
    | coroutine d =>
        simp only [holds, contextOf_setFields, contextOf_setEnv] at hj
        by_cases hd : d = c
        · rw [if_pos hd] at hj
          -- The coroutine itself has nothing any more.
          exact absurd hj (by simp)
        · rw [if_neg hd] at hj
          exact hown.known (.coroutine d) j hj

/-- A coroutine whose entry has returned gives its context away, if there is room. -/
theorem retire_spec (t : Thread) (hown : Owned t) (c : Coroutine) (k : ContextId)
    (hfields : t.coroutines c = some ⟨State.RUNNING, some k⟩) :
    ∃ slots top context, let t' : Thread :=
        { t with
          env := ⟨t.env.cStack, slots, top⟩
          coroutines := Function.update t.coroutines c (some ⟨State.EXIT, context⟩)
          finished := t.finished ++ [c] }
      t.retire c = .ok t' ∧ Owned t' := by
  have hk : t.contextOf c = some k := contextOf_of_fields t c _ hfields
  have hflag : State.RUNNING ^^^ (State.EXIT ||| State.RUNNING) = State.EXIT := by decide
  -- There are as many slots as the array has; a coroutine that ends when all are full
  -- keeps its context.
  by_cases htop : t.env.recycleTop < recycleSize
  · refine ⟨Function.update t.env.recycleStack ⟨t.env.recycleTop, htop⟩ (some k),
      t.env.recycleTop + 1, none, ?_, ?_⟩
    · have hrecyclable : t.env.recyclable = true := by
        unfold Environment.recyclable
        exact bne_iff_ne.mpr (by omega)
      unfold retire
      simp only [hfields, hflag, hrecyclable, if_true, Environment.recycle, htop, dite_true,
        bind, Except.bind]
      rfl
    · exact (hown.recycled t c State.EXIT ⟨t.env.recycleTop, htop⟩ k rfl hk).frame _ _ rfl rfl
        (fun d => rfl) rfl
  · refine ⟨t.env.recycleStack, t.env.recycleTop, some k, ?_, ?_⟩
    · have hrecyclable : t.env.recyclable = false := by
        unfold Environment.recyclable
        exact bne_eq_false_iff_eq.mpr (by have := hown.top; omega)
      unfold retire
      simp only [hfields, hflag, hrecyclable, Bool.false_eq_true, if_false]
      rfl
    · refine hown.frame t _ rfl rfl ?_ rfl
      intro d
      refine (contextOf_setFields c d ⟨State.EXIT, some k⟩ t).trans ?_
      by_cases hd : d = c
      · rw [if_pos hd, hd, hk]
      · exact if_neg hd

end Thread

end Co
