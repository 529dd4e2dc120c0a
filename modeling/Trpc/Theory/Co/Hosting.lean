import Trpc.Theory.Co.Registers
import Trpc.Theory.Co.Switching

/-!
# Hosting

The machine's thread against the one above, in which a context holds the place where the
code goes on and the coroutine in control is known. The environment, the flags and the
number of contexts are the same on both sides, so wherever the operations do not touch
the registers they do the same: `step_same`. What remains is what a switch does to the
machine, given that the contexts are told apart: `step_hosts`.

## Main definitions

* `Same`: What the two threads have in common.
* `Hosts`: The machine is where the thread says.
* `Effect`: What an operation does to the machine.

## Theorems

* `step_same`: The machine's operations do what those above do.
* `step_hosts`: Every operation keeps `Hosts`, and has an effect.
-/

namespace Co

open Storage

/-- What comes out of a sequence has come out of its parts. -/
theorem ok_of_bind {ε α β : Type} (x : Except ε α) (f : α → Except ε β) (b : β)
    (h : x >>= f = .ok b) : ∃ a, x = .ok a ∧ f a = .ok b := by
  cases x with
  | error e => exact absurd h (by simp [bind, Except.bind])
  | ok a => exact ⟨a, rfl, h⟩

/-- The machine's thread has the environment, the flags and the contexts of `t`. -/
structure Same (p : Process) (t : Thread) : Prop where
  env : p.env = t.env
  coroutines : p.coroutines = t.coroutines
  allocated : p.allocated = t.allocated

namespace Same

theorem contextOf (p : Process) (t : Thread) (h : Same p t) (c : Coroutine) :
    p.contextOf c = t.contextOf c := by
  unfold Process.contextOf Thread.contextOf
  rw [h.coroutines]

end Same

/-! ## Operations on both sides -/

section Operations

variable (L : Layout)

/-- A switch that keeps nothing. -/
theorem switchOnly_same (next : Option ContextId) (p : Process) (t t' : Thread)
    (v : Option Bitmask) (h : Same p t) (hswitch : t.switchOnly next = .ok (t', v)) :
    ∃ p', p.switchOnly L next = .ok p' ∧ Same p' t' := by
  cases next with
  | none => exact absurd hswitch (by simp [Thread.switchOnly])
  | some k =>
      refine ⟨_, rfl, ?_⟩
      -- Wherever the code goes on, nothing else changes.
      simp only [Thread.switchOnly] at hswitch
      cases hpoint : t.contexts k with
      | none =>
          rw [hpoint] at hswitch
          exact absurd hswitch (by simp)
      | some point =>
          rw [hpoint] at hswitch
          cases point with
          | start c =>
              obtain ⟨rfl, -⟩ := Prod.mk.inj (Except.ok.inj hswitch)
              exact ⟨h.env, h.coroutines, h.allocated⟩
          | resumed caller callee =>
              obtain ⟨rfl, -⟩ := Prod.mk.inj (Except.ok.inj hswitch)
              exact ⟨h.env, h.coroutines, h.allocated⟩
          | yielded c =>
              obtain ⟨rfl, -⟩ := Prod.mk.inj (Except.ok.inj hswitch)
              exact ⟨h.env, h.coroutines, h.allocated⟩
          | wrapped c => exact absurd hswitch (by simp)

/-- A switch that keeps where it came from. What the thread writes down there the machine
    has in its memory. -/
theorem switchFrom_same (next previous : Option ContextId) (here : Point) (p : Process)
    (t t' : Thread) (v : Option Bitmask) (h : Same p t)
    (hswitch : t.switchFrom next previous here = .ok (t', v)) :
    ∃ p', p.switchFrom L next previous = .ok p' ∧ Same p' t' := by
  cases previous with
  | none => exact absurd hswitch (by simp [Thread.switchFrom])
  | some j =>
      have hsame : Same p (t.setRegisters j here) := ⟨h.env, h.coroutines, h.allocated⟩
      obtain ⟨p', hp', hsame'⟩ := switchOnly_same L next p _ t' v hsame hswitch
      cases next with
      | none => exact absurd hp' (by simp [Process.switchOnly])
      | some k =>
          obtain rfl := Except.ok.inj hp'
          exact ⟨_, rfl, hsame'.env, hsame'.coroutines, hsame'.allocated⟩

/-- A context is prepared: one writes down where to start, the other writes registers. -/
theorem prepare_same (context : Option ContextId) (c : Coroutine) (p : Process) (t t' : Thread)
    (h : Same p t) (hprepare : t.prepare context c = .ok t') :
    ∃ p', p.prepare L context c = .ok p' ∧ Same p' t' := by
  cases context with
  | none => exact absurd hprepare (by simp [Thread.prepare])
  | some k =>
      obtain rfl := Except.ok.inj hprepare
      exact ⟨_, rfl, h.env, h.coroutines, h.allocated⟩

/-- Both take a context from the slots, or make the next one. -/
theorem acquire_same (p : Process) (t t' : Thread) (context : Option ContextId) (h : Same p t)
    (hacquire : t.acquire = .ok (context, t')) :
    ∃ p', p.acquire L = .ok (context, p') ∧ Same p' t' := by
  unfold Thread.acquire at hacquire
  unfold Process.acquire
  -- The environment decides, and it is the same.
  rw [h.env]
  by_cases hreuse : t.env.reusable = true
  · rw [if_pos hreuse] at hacquire ⊢
    obtain ⟨r, hr, heq⟩ := ok_of_bind _ _ _ hacquire
    obtain ⟨rfl, rfl⟩ := Prod.mk.inj (Except.ok.inj heq)
    refine ⟨p.setEnv r.2, ?_, rfl, h.coroutines, h.allocated⟩
    rw [hr]
    rfl
  · rw [if_neg hreuse] at hacquire ⊢
    obtain ⟨rfl, rfl⟩ := Prod.mk.inj (Except.ok.inj hacquire)
    refine ⟨(p.makeContext L).2, ?_, h.env, h.coroutines, ?_⟩
    · rw [← h.allocated]
      rfl
    · simp only [Process.makeContext, h.allocated]

/-- The first part of `resume`. -/
theorem equip_same (c : Coroutine) (f : Coroutine.Fields) (p : Process) (t t' : Thread)
    (h : Same p t) (hequip : t.equip c f = .ok t') :
    ∃ p', p.equip L c f = .ok p' ∧ Same p' t' := by
  unfold Thread.equip at hequip
  unfold Process.equip
  -- Only a coroutine that does not run is given a context.
  by_cases hrunning : (!f.running) = true
  · rw [if_pos hrunning] at hequip ⊢
    obtain ⟨⟨context, t1⟩, hacquire, hrest⟩ := ok_of_bind _ _ _ hequip
    obtain ⟨t2, hprepare, hfields⟩ := ok_of_bind _ _ _ hrest
    obtain ⟨p1, hp1, hsame1⟩ := acquire_same L p t t1 context h hacquire
    obtain ⟨p2, hp2, hsame2⟩ := prepare_same L context c p1 t1 t2 hsame1 hprepare
    obtain rfl := Except.ok.inj hfields
    refine ⟨p2.setFields c ⟨f.runtime ||| State.RUNNING, context⟩, ?_, hsame2.env, ?_,
      hsame2.allocated⟩
    · rw [hp1]
      simp only [bind, Except.bind, hp2]
      rfl
    · simp only [Process.setFields, Thread.setFields, hsame2.coroutines]
  · rw [if_neg hrunning] at hequip ⊢
    obtain rfl := Except.ok.inj hequip
    exact ⟨p, rfl, h⟩

/-- The second part of `resume`, which switches. -/
theorem enter_same (c : Coroutine) (p : Process) (t t' : Thread) (v : Option Bitmask)
    (h : Same p t) (henter : t.enter c = .ok (t', v)) :
    ∃ p', p.enter L c = .ok p' ∧ Same p' t' := by
  unfold Thread.enter at henter
  obtain ⟨previous, hcurrent, hswitch⟩ := ok_of_bind _ _ _ henter
  have hsame : Same (p.setEnv (p.env.push c)) (t.setEnv (t.env.push c)) :=
    ⟨by rw [h.env]; rfl, h.coroutines, h.allocated⟩
  obtain ⟨p', hp', hsame'⟩ := switchFrom_same L _ _ _ _ _ t' v hsame hswitch
  refine ⟨p', ?_, hsame'⟩
  unfold Process.enter
  rw [h.env, hcurrent]
  simp only [bind, Except.bind]
  rw [← h.env, hsame.contextOf, hsame.contextOf]
  exact hp'

/-- The whole of it. A coroutine that has ended is left alone by both. -/
theorem resume_same (c : Coroutine) (p : Process) (t t' : Thread) (v : Option Bitmask)
    (h : Same p t) (hresume : t.resume c = .ok (t', v)) :
    ∃ p', p.resume L c = .ok p' ∧ Same p' t' := by
  unfold Thread.resume at hresume
  unfold Process.resume
  rw [h.coroutines]
  cases hf : t.coroutines c with
  | none =>
      rw [hf] at hresume
      exact absurd hresume (by simp)
  | some f =>
      rw [hf] at hresume
      simp only at hresume ⊢
      by_cases hexit : f.exit = true
      · rw [if_pos hexit] at hresume ⊢
        obtain ⟨rfl, -⟩ := Prod.mk.inj (Except.ok.inj hresume)
        exact ⟨p, rfl, h⟩
      · rw [if_neg hexit] at hresume ⊢
        obtain ⟨u, hequip, henter⟩ := ok_of_bind _ _ _ hresume
        obtain ⟨q, hq, hsame⟩ := equip_same L c f p t u h hequip
        obtain ⟨p', hp', hsame'⟩ := enter_same L c q u t' v hsame henter
        exact ⟨p', by rw [hq]; exact hp', hsame'⟩

/-- `yield`, whatever place the thread writes down for the code that is left. -/
theorem yield_same (here : Point) (p : Process) (t t' : Thread) (v : Option Bitmask)
    (h : Same p t) (hleave : t.leave here = .ok (t', v)) :
    ∃ p', p.yield L = .ok p' ∧ Same p' t' := by
  unfold Thread.leave at hleave
  obtain ⟨coroutine, hcoroutine, hrest⟩ := ok_of_bind _ _ _ hleave
  obtain ⟨e, hpop, hrest⟩ := ok_of_bind _ _ _ hrest
  obtain ⟨current, hcurrent, hswitch⟩ := ok_of_bind _ _ _ hrest
  have hsame : Same (p.setEnv e) (t.setEnv e) := ⟨rfl, h.coroutines, h.allocated⟩
  unfold Process.yield
  rw [h.env, hcoroutine]
  simp only [bind, Except.bind, hpop]
  rw [show (p.setEnv e).env.current = (t.setEnv e).env.current from rfl, hcurrent]
  simp only [hsame.contextOf]
  -- A coroutine without a context has ended: its registers are not kept.
  cases hcontext : (t.setEnv e).contextOf coroutine with
  | none =>
      rw [hcontext] at hswitch
      exact switchOnly_same L _ _ _ t' v hsame hswitch
  | some k =>
      rw [hcontext] at hswitch
      exact switchFrom_same L _ _ here _ _ t' v hsame hswitch

/-- The end of an entry: the flags change, and the context is given back if there is room. -/
theorem retire_same (c : Coroutine) (p : Process) (t t' : Thread) (h : Same p t)
    (hretire : t.retire c = .ok t') : ∃ p', p.retire c = .ok p' ∧ Same p' t' := by
  unfold Thread.retire at hretire
  unfold Process.retire
  rw [h.coroutines]
  cases hf : t.coroutines c with
  | none =>
      rw [hf] at hretire
      exact absurd hretire (by simp)
  | some f =>
      rw [hf] at hretire
      simp only at hretire ⊢
      rw [h.env]
      by_cases hrecyclable : t.env.recyclable = true
      · rw [if_pos hrecyclable] at hretire ⊢
        obtain ⟨e, he, hfields⟩ := ok_of_bind _ _ _ hretire
        obtain rfl := Except.ok.inj hfields
        refine ⟨(p.setFields c ⟨f.runtime ^^^ (State.EXIT ||| State.RUNNING), none⟩).setEnv e, ?_,
          rfl, ?_, h.allocated⟩
        · rw [he]
          rfl
        · simp only [Process.setFields, Process.setEnv, Thread.setFields, Thread.setEnv,
            h.coroutines]
      · rw [if_neg hrecyclable] at hretire ⊢
        obtain rfl := Except.ok.inj hretire
        refine ⟨_, rfl, h.env, ?_, h.allocated⟩
        simp only [Process.setFields, Thread.setFields, h.coroutines]

/-- What comes behind the entry in `routineWrapper`. -/
theorem wrapped_same (p : Process) (t t' : Thread) (v : Option Bitmask) (h : Same p t)
    (hcontrol : t.env.current = .ok t.control) (hwrapped : t.wrapped = .ok (t', v)) :
    ∃ p', p.wrapped L = .ok p' ∧ Same p' t' := by
  unfold Thread.wrapped at hwrapped
  obtain ⟨u, hretire, hleave⟩ := ok_of_bind _ _ _ hwrapped
  obtain ⟨q, hq, hsame⟩ := retire_same t.control p t u h hretire
  obtain ⟨p', hp', hsame'⟩ := yield_same L _ q u t' v hsame hleave
  refine ⟨p', ?_, hsame'⟩
  unfold Process.wrapped
  rw [h.env, hcontrol]
  simp only [bind, Except.bind, hq]
  exact hp'

/-- An operation that the thread above can do the machine's thread can do as well. -/
theorem step_same (o : Operation) (p : Process) (t t' : Thread) (v : Option Bitmask)
    (h : Same p t) (hcontrol : t.env.current = .ok t.control)
    (hstep : t.step o = .ok (t', v)) : ∃ p', p.step L o = .ok p' ∧ Same p' t' := by
  cases o with
  | createCoroutine c =>
      obtain ⟨rfl, -⟩ := Prod.mk.inj (Except.ok.inj hstep)
      refine ⟨_, rfl, h.env, ?_, h.allocated⟩
      simp only [Process.createCoroutine, Process.setFields, Thread.createCoroutine,
        Thread.setFields, h.coroutines]
  | resume c => exact resume_same L c p t t' v h hstep
  | yield => exact yield_same L _ p t t' v h hstep
  | completes => exact wrapped_same L p t t' v h hcontrol hstep

end Operations

/-! ## What happens to the machine -/

theorem Thread.Sound.current (t : Thread) (h : t.Sound) : t.env.current = .ok t.control := by
  obtain ⟨below, hbelow⟩ := h.control
  unfold Environment.current
  rw [hbelow]
  simp

/-- The machine is where the thread says, and every coroutine that has given way to another
    has a context that can be loaded. -/
structure Hosts (L : Layout) (p : Process) (t : Thread) : Prop where
  same : Same p t
  sound : t.Sound
  room : p.allocated ≤ L.capacity
  mainContext : t.contextOf main = some 0
  running : ∃ k, t.contextOf t.control = some k ∧ L.OnStack k (p.machine.reg .rsp)
  settled : ∀ c f k, t.coroutines c = some f → f.exit = false → c ≠ t.control →
    f.context = some k → Saved L p.machine.memory k

/-- What an operation does to the machine, when control goes from `c` to `c'`. -/
inductive Effect (L : Layout) (p p' : Process) (c c' : Coroutine) : Prop where
  | stays (hmachine : p'.machine = p.machine) (hcontrol : c' = c)
  /-- The head of `routineWrapper` is entered, on a context of its own. -/
  | starts (j k : ContextId) (hj : p'.contextOf c = some j) (hk : p'.contextOf c' = some k)
      (hfresh : p.contextOf c' = none) (hlive : ∀ f, p.coroutines c' = some f → f.exit = false)
      (hleft : Suspended L p'.machine.memory j p.machine)
      (hstack : L.OnStack k (p'.machine.reg .rsp))
      (hrip : p'.machine.rip = L.routine) (hrdi : p'.machine.reg .rdi = L.object c')
      (hrsp : p'.machine.reg .rsp = Context.getSp (L.base k) + 8#64)
      (hframe : ∀ a, ¬ L.Own j a → ¬ L.Own k a → p'.machine.memory a = p.machine.memory a)
  /-- Code goes on that had given way. -/
  | switches (j k : ContextId) (hj : p.contextOf c = some j) (hk : p.contextOf c' = some k)
      (hk' : p'.contextOf c' = some k) (hlive : ∀ f, p.coroutines c' = some f → f.exit = false)
      (hkept : p'.contextOf c = some j ∨ ∃ f, p'.coroutines c = some f ∧ f.exit = true)
      (hleft : p'.contextOf c = some j → Suspended L p'.machine.memory j p.machine)
      (hstack : L.OnStack k (p'.machine.reg .rsp))
      (hcrosses : Crosses L k p.machine p'.machine)
      (hframe : ∀ a, ¬ L.Own j a → ¬ L.Own k a → p'.machine.memory a = p.machine.memory a)

section Effects

variable (L : Layout)

/-- A switch to a coroutine, seen from the machine. -/
theorem enter_effect (c d : Coroutine) (j k : ContextId) (q p' : Process)
    (hcurrent : q.env.current = .ok d) (hj : q.contextOf d = some j)
    (hk : q.contextOf c = some k) (hjk : j ≠ k) (hjc : j < L.capacity) (hkc : k < L.capacity)
    (hstack : L.OnStack j (q.machine.reg .rsp)) (hset : Saved L q.machine.memory k)
    (henter : q.enter L c = .ok p') :
    p'.coroutines = q.coroutines ∧ p'.allocated = q.allocated ∧
    Crosses L k q.machine p'.machine ∧ Suspended L p'.machine.memory j q.machine ∧
    ∀ a, ¬ L.Own j a → ¬ L.Own k a → p'.machine.memory a = q.machine.memory a := by
  unfold Process.enter at henter
  rw [hcurrent] at henter
  simp only [bind, Except.bind] at henter
  rw [show (q.setEnv (q.env.push c)).contextOf c = some k from hk,
    show (q.setEnv (q.env.push c)).contextOf d = some j from hj] at henter
  obtain rfl := Except.ok.inj henter
  exact ⟨rfl, rfl, contextSwitch_spec L j k hjc hkc hjk q.machine _ hstack hset rfl⟩

/-- A switch changes no flags. -/
theorem switchFrom_coroutines (next previous : Option ContextId) (q p' : Process)
    (hswitch : q.switchFrom L next previous = .ok p') : p'.coroutines = q.coroutines := by
  unfold Process.switchFrom at hswitch
  split at hswitch
  · obtain rfl := Except.ok.inj hswitch
    rfl
  · exact absurd hswitch (by simp)

theorem enter_coroutines (c : Coroutine) (q p' : Process) (henter : q.enter L c = .ok p') :
    p'.coroutines = q.coroutines := by
  unfold Process.enter at henter
  obtain ⟨d, -, hswitch⟩ := ok_of_bind _ _ _ henter
  exact switchFrom_coroutines L _ _ (q.setEnv (q.env.push c)) p' hswitch

/-- A context is taken from the slots as it is, or made. -/
theorem acquire_effect (p p' : Process) (k : ContextId) (hk : k < L.capacity)
    (hacquire : p.acquire L = .ok (some k, p')) :
    p'.coroutines = p.coroutines ∧ p'.machine.reg = p.machine.reg ∧
    p'.machine.rip = p.machine.rip ∧
    ∀ a, ¬ L.Own k a → p'.machine.memory a = p.machine.memory a := by
  unfold Process.acquire at hacquire
  by_cases hreuse : p.env.reusable = true
  · rw [if_pos hreuse] at hacquire
    obtain ⟨r, hr, heq⟩ := ok_of_bind _ _ _ hacquire
    obtain ⟨-, rfl⟩ := Prod.mk.inj (Except.ok.inj heq)
    exact ⟨rfl, rfl, rfl, fun a ha => rfl⟩
  · rw [if_neg hreuse] at hacquire
    obtain ⟨hnew, rfl⟩ := Prod.mk.inj (Except.ok.inj hacquire)
    obtain rfl := Option.some.inj hnew
    refine ⟨rfl, rfl, rfl, ?_⟩
    intro a ha
    have hfits := L.fits p.allocated hk
    -- A new context is zeroed, and that is its own memory.
    refine fill_outside _ _ a _ _ ?_
    by_contra hlt
    refine ha (Or.inl ?_)
    simp only [Within, Context.size, Context.registersSize, Context.stackSize] at *
    bv_omega

/-- The context of a coroutine that has not been started is prepared for it. -/
theorem equip_effect (c : Coroutine) (f : Coroutine.Fields) (p q : Process) (k : ContextId)
    (hrunning : f.running = false) (hequip : p.equip L c f = .ok q)
    (hcontext : q.contextOf c = some k) (hk : k < L.capacity) (hk0 : k ≠ 0) :
    (∀ d, d ≠ c → q.coroutines d = p.coroutines d) ∧ q.machine.reg = p.machine.reg ∧
    q.machine.rip = p.machine.rip ∧
    (∀ a, ¬ L.Own k a → q.machine.memory a = p.machine.memory a) ∧
    load q.machine.memory (L.base k + 72#64) = L.routine ∧
    load q.machine.memory (L.base k + offset .rdi) = L.object c ∧
    load q.machine.memory (L.base k + offset .rsp) = Context.getSp (L.base k) ∧
    Saved L q.machine.memory k := by
  unfold Process.equip at hequip
  rw [hrunning] at hequip
  simp only [Bool.not_false, if_true] at hequip
  obtain ⟨⟨context, p1⟩, hacquire, hrest⟩ := ok_of_bind _ _ _ hequip
  obtain ⟨p2, hprepare, hfields⟩ := ok_of_bind _ _ _ hrest
  obtain rfl := Except.ok.inj hfields
  have hsome : context = some k := by
    simpa [Process.contextOf, Process.setFields] using hcontext
  subst hsome
  obtain rfl := Except.ok.inj hprepare
  obtain ⟨hcoroutines, hreg, hrip, hout⟩ := acquire_effect L p p1 k hk hacquire
  obtain ⟨hout', hword, hobject, hsp, hset⟩ :=
    prepare_spec L k hk hk0 L.routine (L.object c) p1.machine.memory _ rfl
  refine ⟨?_, hreg, hrip, fun a ha => (hout' a ha).trans (hout a ha), hword, hobject, hsp, hset⟩
  intro d hd
  exact (Function.update_of_ne hd _ _).trans (congrFun hcoroutines d)

/-- A switch back from a coroutine, whose context may have been given away. -/
theorem yield_effect (c x : Coroutine) (j k : ContextId) (p p' : Process) (e : Environment)
    (hcurrent : p.env.current = .ok c) (hpop : p.env.pop = .ok e) (hback : e.current = .ok x)
    (hk : p.contextOf x = some k) (hjk : j ≠ k) (hjc : j < L.capacity) (hkc : k < L.capacity)
    (hstack : L.OnStack j (p.machine.reg .rsp)) (hset : Saved L p.machine.memory k)
    (hcontext : p.contextOf c = some j ∨ p.contextOf c = none) (hyield : p.yield L = .ok p') :
    p'.coroutines = p.coroutines ∧ p'.allocated = p.allocated ∧
    Crosses L k p.machine p'.machine ∧
    (p.contextOf c = some j → Suspended L p'.machine.memory j p.machine) ∧
    ∀ a, ¬ L.Own j a → ¬ L.Own k a → p'.machine.memory a = p.machine.memory a := by
  unfold Process.yield at hyield
  rw [hcurrent] at hyield
  simp only [bind, Except.bind, hpop] at hyield
  rw [show (p.setEnv e).env.current = .ok x from hback] at hyield
  simp only [show ∀ d, (p.setEnv e).contextOf d = p.contextOf d from fun _ => rfl, hk] at hyield
  rcases hcontext with hcontext | hcontext
  · rw [hcontext] at hyield
    obtain rfl := Except.ok.inj hyield
    obtain ⟨hcrosses, hleft, hframe⟩ :=
      contextSwitch_spec L j k hjc hkc hjk p.machine _ hstack hset rfl
    exact ⟨rfl, rfl, hcrosses, fun _ => hleft, hframe⟩
  · rw [hcontext] at hyield
    obtain rfl := Except.ok.inj hyield
    obtain ⟨hcrosses, hframe⟩ := contextSwitchOnly_spec L j k hjc hkc hjk p.machine hstack hset
    refine ⟨rfl, rfl, hcrosses, ?_, hframe⟩
    intro hsome
    rw [hcontext] at hsome
    exact absurd hsome (by simp)

end Effects

/-! ## Every operation -/

section Steps

variable (L : Layout)

/-- A context that somebody holds lies in memory. -/
theorem Hosts.known (p : Process) (t : Thread) (hsame : Same p t) (hsound : t.Sound)
    (hroom : p.allocated ≤ L.capacity) (c : Coroutine) (k : ContextId)
    (h : t.contextOf c = some k) : k < L.capacity := by
  have hlt : k < t.allocated := hsound.owned.known (.coroutine c) k h
  rw [← hsame.allocated] at hlt
  exact lt_of_lt_of_le hlt hroom

/-- The code that goes on stands on the stack it was loaded from. -/
theorem Crosses.onStack (k : ContextId) (hk : k < L.capacity) (m m' : Machine)
    (h : Crosses L k m m') (hset : Saved L m.memory k) : L.OnStack k (m'.reg .rsp) := by
  obtain ⟨hlow, hhigh⟩ := hset
  have hbound := L.high_lt k hk
  unfold Layout.OnStack
  rw [h.rsp]
  bv_omega

theorem contextOf_congr (t t' : Thread) (c : Coroutine) (h : t'.coroutines c = t.coroutines c) :
    t'.contextOf c = t.contextOf c :=
  congrArg (fun f => Option.bind f Coroutine.Fields.context) h

/-- Behind a switch the machine is where the thread is: the context that was left holds the
    registers, and those that took no part are as they were. -/
theorem hosts_of_switch (p p' : Process) (t t' : Thread) (h : Hosts L p t) (hsame' : Same p' t')
    (hsound' : t'.Sound) (hroom : p'.allocated ≤ L.capacity)
    (hmain : t'.coroutines main = t.coroutines main)
    (hother : ∀ d, d ≠ t.control → d ≠ t'.control → t'.coroutines d = t.coroutines d)
    (j k : ContextId) (hjc : j < L.capacity) (hk' : t'.contextOf t'.control = some k)
    (hkept : t'.contextOf t.control = some j ∨
      ∃ f, t'.coroutines t.control = some f ∧ f.exit = true)
    (hj : ∀ d, d ≠ t.control → d ≠ t'.control → t'.contextOf d ≠ some j)
    (hleft : t'.contextOf t.control = some j → Suspended L p'.machine.memory j p.machine)
    (hstack : L.OnStack k (p'.machine.reg .rsp))
    (hframe : ∀ a, ¬ L.Own j a → ¬ L.Own k a → p'.machine.memory a = p.machine.memory a) :
    Hosts L p' t' := by
  refine ⟨hsame', hsound', hroom, (contextOf_congr t t' main hmain).trans h.mainContext,
    ⟨k, hk', hstack⟩, ?_⟩
  intro d f i hf hexit hd' hi
  have hdi : t'.contextOf d = some i := (Thread.contextOf_of_fields t' d f hf).trans hi
  by_cases hd : d = t.control
  · subst hd
    -- The coroutine that was left holds the context it stood on, or has ended.
    rcases hkept with hkept | ⟨g, hg, hexit'⟩
    · rw [hkept] at hdi
      obtain rfl := Option.some.inj hdi
      exact (hleft hkept).settled
    · -- One that has ended is not switched to any more.
      rw [hf] at hg
      rw [← Option.some.inj hg, hexit] at hexit'
      exact absurd hexit' (by decide)
  · -- Its context is another than the two that were written to.
    have hij : i ≠ j := by
      rintro rfl
      exact hj d hd hd' hdi
    have hik : i ≠ k := by
      rintro rfl
      exact hd' (hsound'.owned.single t' d t'.control i hdi hk')
    have hic := Hosts.known L p' t' hsame' hsound' hroom d i hdi
    have hkc := Hosts.known L p' t' hsame' hsound' hroom t'.control k hk'
    have hset := h.settled d f i ((hother d hd hd').symm.trans hf) hexit hd hi
    -- What it held before it holds still.
    refine hset.frame L i hic _ _ ?_
    intro a ha
    exact hframe a (L.own_apart i j hic hjc hij a ha) (L.own_apart i k hic hkc hik a ha)

/-- A coroutine that neither runs nor has ended has no context. -/
theorem fresh_of_not_running (t : Thread) (h : t.Sound) (c : Coroutine) (f : Coroutine.Fields)
    (hf : t.coroutines c = some f) (hexit : f.exit = false) (hrunning : f.running = false)
    (hcStack : c ∉ t.env.cStack) : t.contextOf c = none := by
  have hclash : ∀ k, t.coroutines c ≠ some ⟨State.RUNNING, some k⟩ := by
    intro k hk
    rw [hf] at hk
    rw [Option.some.inj hk, Thread.running_running] at hrunning
    exact absurd hrunning (by decide)
  -- Of the stages only two have no flag for running, and one of these has ended.
  cases h.stages c with
  | absent hfields he hx hs => exact absurd (hf.symm.trans hfields) (by simp)
  | fresh hfields he hx hs => exact Thread.contextOf_of_fields t c _ hfields
  | ready k hfields hp he hx hs => exact absurd hfields (hclash k)
  | parked k hfields hp he hx hs => exact absurd hfields (hclash k)
  | nested k hm hfields he hx hs => exact absurd hs hcStack
  | done context hfields he hx hs =>
      rw [hf] at hfields
      rw [Option.some.inj hfields, Thread.exit_exit] at hexit
      exact absurd hexit (by decide)
  | base k hm hfields he hx hs => exact absurd hs hcStack

/-- `resume` of a coroutine that has not ended. -/
theorem resume_hosts (p p' : Process) (t : Thread) (h : Hosts L p t) (c : Coroutine)
    (f : Coroutine.Fields) (hf : t.coroutines c = some f) (hexit : f.exit = false)
    (hcStack : c ∉ t.env.cStack) (hp' : p.resume L c = .ok p')
    (hroom : p'.allocated ≤ L.capacity) : ∃ t', t.resume c = .ok (t', none) ∧ t'.control = c ∧
      Hosts L p' t' ∧ Effect L p p' t.control t'.control ∧
      ∀ d, d ≠ t'.control → t'.coroutines d = t.coroutines d := by
  obtain ⟨t', hresume, hcStack', rfl, hsound', hother⟩ :=
    Thread.resume_spec t h.sound c f hf hexit hcStack
  obtain ⟨p'', hp'', hsame'⟩ := resume_same L t'.control p t t' none h.same hresume
  rw [hp'] at hp''
  obtain rfl := Except.ok.inj hp''
  have hcontrol : t.control ≠ t'.control := by
    intro heq
    exact hcStack (heq ▸ h.sound.control_mem)
  have hmain : main ≠ t'.control := by
    intro heq
    exact hcStack (heq ▸ h.sound.main_mem)
  -- The two contexts that take part.
  obtain ⟨j, hj, hstack⟩ := h.running
  have hj' : t'.contextOf t.control = some j :=
    (contextOf_congr t t' _ (hother _ hcontrol)).trans hj
  obtain ⟨k, hk'⟩ := (hsound'.stages t'.control).context_of_mem t' _ hsound'.control_mem
  have hmain' : t'.contextOf main = some 0 :=
    (contextOf_congr t t' _ (hother _ hmain)).trans h.mainContext
  -- Nobody shares a context with another.
  have hjk : j ≠ k := by
    rintro rfl
    exact hcontrol (hsound'.owned.single t' _ _ j hj' hk')
  -- The first context is that of the main coroutine.
  have hk0 : k ≠ 0 := by
    rintro rfl
    exact hmain (hsound'.owned.single t' _ _ 0 hmain' hk')
  have hjc := Hosts.known L p' t' hsame' hsound' hroom _ j hj'
  have hkc := Hosts.known L p' t' hsame' hsound' hroom _ k hk'
  have hjother : ∀ d, d ≠ t.control → d ≠ t'.control → t'.contextOf d ≠ some j :=
    fun d hd _ hdj => hd (hsound'.owned.single t' d t.control j hdj hj')
  have hfinish := hosts_of_switch L p p' t t' h hsame' hsound' hroom (hother _ hmain)
    (fun d _ hd => hother d hd) j k hjc hk' (Or.inl hj') hjother
  -- On the machine's side.
  unfold Process.resume at hp'
  rw [h.same.coroutines, hf] at hp'
  simp only [hexit, Bool.false_eq_true, if_false] at hp'
  obtain ⟨q, hequip, henter⟩ := ok_of_bind _ _ _ hp'
  refine ⟨t', hresume, rfl, ?_⟩
  -- Neither `equip` nor `enter` changes who is in control as the environment has it.
  obtain ⟨u, hu, hsameu, huCurrent⟩ : ∃ u, t.equip t'.control f = .ok u ∧ Same q u ∧
      u.env.current = .ok t.control := by
    obtain ⟨u, hu, hsoundu, -, hustack, -⟩ :=
      Thread.equip_spec t h.sound t'.control f hf hexit hcStack
    obtain ⟨q', hq', hsameu⟩ := equip_same L t'.control f p t u h.same hu
    rw [hequip] at hq'
    obtain rfl := Except.ok.inj hq'
    refine ⟨u, hu, hsameu, ?_⟩
    have hcurrent := h.sound.current
    unfold Environment.current at hcurrent ⊢
    rw [hustack]
    exact hcurrent
  have hqCurrent : q.env.current = .ok t.control := by
    rw [hsameu.env]
    exact huCurrent
  have hqcontext : ∀ d, q.contextOf d = t'.contextOf d := by
    intro d
    rw [← hsame'.contextOf]
    unfold Process.contextOf
    rw [enter_coroutines L _ q p' henter]
  have hqj : q.contextOf t.control = some j := (hqcontext _).trans hj'
  have hqk : q.contextOf t'.control = some k := (hqcontext _).trans hk'
  have hlive : ∀ g, p.coroutines t'.control = some g → g.exit = false := by
    intro g hg
    rw [h.same.coroutines, hf] at hg
    rw [← Option.some.inj hg]
    exact hexit
  by_cases hrunning : f.running = true
  · -- It was started before, and goes on from where it gave way.
    have hqp : q = p := by
      unfold Process.equip at hequip
      rw [hrunning] at hequip
      exact (Except.ok.inj hequip).symm
    subst hqp
    have hcontext : f.context = some k := by
      rw [← Thread.contextOf_of_fields t _ f hf, ← h.same.contextOf]
      exact hqk
    have hset := h.settled t'.control f k hf hexit hcontrol.symm hcontext
    obtain ⟨-, -, hcrosses, hleft, hframe⟩ := enter_effect L t'.control t.control j k q p'
      hqCurrent hqj hqk hjk hjc hkc hstack hset henter
    have honStack := hcrosses.onStack L k hkc _ _ hset
    exact ⟨hfinish (fun _ => hleft) honStack hframe,
      .switches j k hqj hqk ((hsame'.contextOf p' t' _).trans hk') hlive
        (Or.inl ((hsame'.contextOf p' t' _).trans hj')) (fun _ => hleft) honStack hcrosses hframe,
      hother⟩
  · -- It is started, on a context that was prepared just now.
    have hnot := Bool.eq_false_iff.mpr hrunning
    obtain ⟨hqother, hreg, hrip, hout, hret, hobject, hsp, hset⟩ :=
      equip_effect L t'.control f p q k hnot hequip hqk hkc hk0
    obtain ⟨-, -, hcrosses, hleft, hframe⟩ := enter_effect L t'.control t.control j k q p'
      hqCurrent hqj hqk hjk hjc hkc (by rw [hreg]; exact hstack) hset henter
    have honStack := hcrosses.onStack L k hkc _ _ hset
    -- The code that is left does not see that a context was prepared.
    have hleft' : Suspended L p'.machine.memory j p.machine := by
      refine ⟨by rw [← hreg]; exact hleft.onStack, by rw [← hrip]; exact hleft.rip,
        by rw [← hreg]; exact hleft.rsp, ?_, ?_⟩
      · intro r hr
        rw [← hreg]
        exact hleft.saved r hr
      · intro a ha ha'
        have hown : L.Own j a := by
          refine L.own_of_stack j a ?_ ha'
          have := hstack.1
          omega
        rw [hleft.stack a (by rw [hreg]; exact ha) ha']
        exact hout a (L.own_apart j k hjc hkc hjk a hown)
    have hframe' : ∀ a, ¬ L.Own j a → ¬ L.Own k a →
        p'.machine.memory a = p.machine.memory a :=
      fun a ha ha' => (hframe a ha ha').trans (hout a ha')
    refine ⟨hfinish (fun _ => hleft') honStack hframe',
      .starts j k ((hsame'.contextOf p' t' _).trans hj') ((hsame'.contextOf p' t' _).trans hk') ?_
        hlive hleft' honStack ?_ ?_ ?_ hframe', hother⟩
    · rw [h.same.contextOf]
      exact fresh_of_not_running t h.sound t'.control f hf hexit hnot hcStack
    · rw [hcrosses.rip, hret]
    · rw [hcrosses.rdi, hobject]
    · rw [hcrosses.rsp, hsp]

/-- The environment of a coroutine that gives way: it is current, and below it stands `x`. -/
theorem leave_env (e : Environment) (l : List Coroutine) (x c : Coroutine)
    (h : e.cStack = (l ++ [x]) ++ [c]) : e.current = .ok c ∧
      e.pop = .ok { e with cStack := l ++ [x] } ∧
      Environment.current { e with cStack := l ++ [x] } = .ok x := by
  refine ⟨?_, ?_, ?_⟩
  · unfold Environment.current
    rw [h]
    simp
  · unfold Environment.pop
    have hdrop : e.cStack.dropLast = l ++ [x] := by
      rw [h, List.dropLast_concat]
    cases hcase : e.cStack with
    | nil =>
        rw [hcase] at h
        exact absurd h (by simp)
    | cons a s =>
        rw [hcase] at hdrop
        simp only [hdrop]
  · unfold Environment.current
    simp

/-- Whoever stands on the stack has not ended. -/
theorem exit_of_mem (t : Thread) (h : t.Sound) (c : Coroutine) (hc : c ∈ t.env.cStack)
    (f : Coroutine.Fields) (hf : t.coroutines c = some f) : f.exit = false := by
  cases h.stages c with
  | nested k hm hfields he hx hs =>
      rw [hf] at hfields
      rw [Option.some.inj hfields]
      exact Thread.exit_running _
  | base k hm hfields he hx hs =>
      rw [hf] at hfields
      rw [Option.some.inj hfields]
      have hflag : ((0 : Bitmask) &&& State.EXIT != 0) = false := by decide
      exact hflag
  | absent hfields he hx hs => exact absurd hc hs
  | fresh hfields he hx hs => exact absurd hc hs
  | ready k hfields hp he hx hs => exact absurd hc hs
  | parked k hfields hp he hx hs => exact absurd hc hs
  | done context hfields he hx hs => exact absurd hc hs

/-- Control goes back to `x`, from `q`, in which the coroutine in control may have given its
    context away. -/
theorem leave_hosts (p q p' : Process) (t t' : Thread) (h : Hosts L p t) (l : List Coroutine)
    (hcStack : t.env.cStack = (l ++ [t'.control]) ++ [t.control])
    (hsame' : Same p' t') (hsound' : t'.Sound) (hmain : t.control ≠ main)
    (hother : ∀ d, d ≠ t.control → t'.coroutines d = t.coroutines d)
    (hcontrol : t'.coroutines t.control = t.coroutines t.control ∨
      ∃ f, t'.coroutines t.control = some f ∧ f.exit = true)
    (hqStack : q.env.cStack = p.env.cStack) (hqMachine : q.machine = p.machine)
    (hqAllocated : q.allocated = p.allocated)
    (hqOther : ∀ d, d ≠ t.control → q.contextOf d = p.contextOf d)
    (hqControl : q.contextOf t.control = p.contextOf t.control ∨ q.contextOf t.control = none)
    (hp' : q.yield L = .ok p') : Hosts L p' t' ∧ Effect L p p' t.control t'.control := by
  have hx : t'.control ≠ t.control := by
    intro heq
    have honce := h.sound.once
    rw [hcStack, heq, List.nodup_append] at honce
    exact honce.2.2 t.control (by simp) t.control (by simp) rfl
  have hxmem : t'.control ∈ t.env.cStack := by
    rw [hcStack]
    simp
  -- The two contexts that take part.
  obtain ⟨j, hj, hstack⟩ := h.running
  obtain ⟨k, hk⟩ := (h.sound.stages t'.control).context_of_mem t _ hxmem
  have hpj := (h.same.contextOf p t _).trans hj
  have hpk := (h.same.contextOf p t _).trans hk
  have hk' := (contextOf_congr t t' _ (hother _ hx)).trans hk
  -- Here too: a context is held once.
  have hjk : j ≠ k := by
    rintro rfl
    exact hx (h.sound.owned.single t _ _ j hk hj)
  have hjc := Hosts.known L p t h.same h.sound h.room _ j hj
  have hkc := Hosts.known L p t h.same h.sound h.room _ k hk
  -- The code that goes on has not ended, so its context can be loaded.
  obtain ⟨f, hf⟩ : ∃ f, t.coroutines t'.control = some f := by
    cases hf : t.coroutines t'.control with
    | none =>
        unfold Thread.contextOf at hk
        rw [hf] at hk
        exact absurd hk (by simp)
    | some f => exact ⟨f, rfl⟩
  have hexit := exit_of_mem t h.sound _ hxmem f hf
  have hset := h.settled t'.control f k hf hexit hx
    ((Thread.contextOf_of_fields t _ f hf).symm.trans hk)
  obtain ⟨hcurrent, hpop, hback⟩ := leave_env q.env l t'.control t.control
    (by rw [hqStack, h.same.env]; exact hcStack)
  have hqcontrol : q.contextOf t.control = some j ∨ q.contextOf t.control = none :=
    hqControl.imp (fun heq => heq.trans hpj) id
  obtain ⟨hcoroutines, hallocated, hcrosses, hleft, hframe⟩ :=
    yield_effect L t.control t'.control j k q p' _ hcurrent hpop hback
      ((hqOther _ hx).trans hpk) hjk hjc hkc (by rw [hqMachine]; exact hstack)
      (by rw [hqMachine]; exact hset) hqcontrol hp'
  rw [hqMachine] at hcrosses hleft hframe
  have hcontext : ∀ d, p'.contextOf d = q.contextOf d := by
    intro d
    unfold Process.contextOf
    rw [hcoroutines]
  have honStack := hcrosses.onStack L k hkc _ _ hset
  have hkept : t'.contextOf t.control = some j ∨
      ∃ f, t'.coroutines t.control = some f ∧ f.exit = true :=
    hcontrol.imp (fun heq => (contextOf_congr t t' _ heq).trans hj) id
  have hleft' : p'.contextOf t.control = some j → Suspended L p'.machine.memory j p.machine := by
    rw [hcontext]
    exact hleft
  constructor
  · refine hosts_of_switch L p p' t t' h hsame' hsound' ?_ (hother _ hmain.symm)
      (fun d hd _ => hother d hd) j k hjc hk' ?_ ?_ ?_ honStack hframe
    · rw [hallocated, hqAllocated]
      exact h.room
    · exact hkept
    · -- Nobody else has had the context that was left.
      intro d hd _ hdj
      have hdj' := (contextOf_congr t t' _ (hother d hd)).symm.trans hdj
      exact hd (h.sound.owned.single t d t.control j hdj' hj)
    · rw [← hsame'.contextOf]
      exact hleft'
  · refine .switches j k hpj hpk ((hsame'.contextOf p' t' _).trans hk') ?_ ?_ hleft' honStack
      hcrosses hframe
    · intro g hg
      rw [h.same.coroutines, hf] at hg
      rw [← Option.some.inj hg]
      exact hexit
    · rw [hsame'.contextOf, hsame'.coroutines]
      exact hkept

/-- `yield` of a coroutine other than the main one. -/
theorem yield_hosts (p p' : Process) (t : Thread) (h : Hosts L p t) (hmain : t.control ≠ main)
    (hp' : p.yield L = .ok p') : ∃ t', t.yield = .ok (t', some State.RUNNING) ∧
      (Hosts L p' t' ∧ Effect L p p' t.control t'.control) ∧
      ∀ d, d ≠ t.control → t'.coroutines d = t.coroutines d := by
  obtain ⟨l, x, t', hcStack, hyield, hcStack', rfl, hsound', hcoroutines⟩ :=
    Thread.yield_spec t h.sound hmain
  obtain ⟨p'', hp'', hsame'⟩ := yield_same L _ p t t' _ h.same hyield
  rw [hp'] at hp''
  obtain rfl := Except.ok.inj hp''
  exact ⟨t', hyield, leave_hosts L p p p' t t' h l hcStack hsame' hsound' hmain
    (fun d _ => congrFun hcoroutines d) (Or.inl (congrFun hcoroutines _)) rfl rfl rfl
    (fun _ _ => rfl) (Or.inl rfl) hp', fun d _ => congrFun hcoroutines d⟩

/-- The end of an entry gives the context away if there is room, and changes nothing else. -/
theorem retire_effect (c : Coroutine) (p q : Process) (hretire : p.retire c = .ok q) :
    q.env.cStack = p.env.cStack ∧ q.machine = p.machine ∧ q.allocated = p.allocated ∧
    (∀ d, d ≠ c → q.contextOf d = p.contextOf d) ∧
    (q.contextOf c = p.contextOf c ∨ q.contextOf c = none) := by
  unfold Process.retire at hretire
  cases hf : p.coroutines c with
  | none =>
      rw [hf] at hretire
      exact absurd hretire (by simp)
  | some f =>
      rw [hf] at hretire
      simp only at hretire
      have hcontext : ∀ (g : Coroutine.Fields) d, d ≠ c →
          (p.setFields c g).contextOf d = p.contextOf d := by
        intro g d hd
        simp only [Process.contextOf, Process.setFields, Function.update_of_ne hd]
      have hself : ∀ g : Coroutine.Fields, (p.setFields c g).contextOf c = g.context := by
        intro g
        simp only [Process.contextOf, Process.setFields, Function.update_self, Option.bind_some]
      -- With room in the slots the context goes there. Without, it stays with the
      -- coroutine.
      by_cases hrecyclable : p.env.recyclable = true
      · rw [if_pos hrecyclable] at hretire
        obtain ⟨e, he, hfields⟩ := ok_of_bind _ _ _ hretire
        obtain rfl := Except.ok.inj hfields
        refine ⟨?_, rfl, rfl, hcontext _, Or.inr (hself _)⟩
        unfold Environment.recycle at he
        split at he
        · obtain rfl := Except.ok.inj he
          rfl
        · exact absurd he (by simp)
      · rw [if_neg hrecyclable] at hretire
        obtain rfl := Except.ok.inj hretire
        refine ⟨rfl, rfl, rfl, hcontext _, Or.inl ((hself _).trans ?_)⟩
        unfold Process.contextOf
        rw [hf]
        rfl

/-- The end of an entry, which is a `retire` and the switch of a `yield`. -/
theorem wrapped_hosts (p p' : Process) (t : Thread) (h : Hosts L p t) (hmain : t.control ≠ main)
    (hp' : p.wrapped L = .ok p') : ∃ t', t.wrapped = .ok (t', some State.EXIT) ∧
      (Hosts L p' t' ∧ Effect L p p' t.control t'.control) ∧
      ∀ d, d ≠ t.control → t'.coroutines d = t.coroutines d := by
  obtain ⟨l, x, t', hcStack, hwrapped, hcStack', rfl, hsound', ⟨context, hended⟩, hother⟩ :=
    Thread.wrapped_spec t h.sound hmain
  obtain ⟨p'', hp'', hsame'⟩ := wrapped_same L p t t' _ h.same h.sound.current hwrapped
  rw [hp'] at hp''
  obtain rfl := Except.ok.inj hp''
  unfold Process.wrapped at hp'
  rw [h.same.env, h.sound.current] at hp'
  obtain ⟨c, hc, hrest⟩ := ok_of_bind _ _ _ hp'
  obtain rfl := Except.ok.inj hc
  obtain ⟨q, hretire, hyield⟩ := ok_of_bind _ _ _ hrest
  obtain ⟨hqStack, hqMachine, hqAllocated, hqOther, hqControl⟩ :=
    retire_effect t.control p q hretire
  exact ⟨t', hwrapped, leave_hosts L p q p' t t' h l hcStack hsame' hsound' hmain hother
    (Or.inr ⟨_, hended, Thread.exit_exit context⟩) hqStack hqMachine hqAllocated hqOther hqControl
    hyield, hother⟩

/-- Every operation that respects the rules is one of the thread above, and has its effect on
    the machine. -/
theorem step_hosts (p p' : Process) (t : Thread) (h : Hosts L p t) (o : Operation)
    (hallowed : p.Allowed o) (hp' : p.step L o = .ok p') (hroom : p'.allocated ≤ L.capacity) :
    ∃ t', t.Step o t' ∧ Hosts L p' t' ∧ Effect L p p' t.control t'.control ∧
      ∀ d, d ≠ t.control → d ≠ t'.control → (t.coroutines d).isSome →
        t'.coroutines d = t.coroutines d := by
  -- The rules of an operation are about the environment, which both sides share.
  have hcontrol : p.env.current ≠ .ok main → t.control ≠ main := by
    intro hne heq
    refine hne ?_
    rw [h.same.env, h.sound.current, heq]
  cases o with
  | createCoroutine c =>
      have hfree : t.coroutines c = none := by
        rw [← h.same.coroutines]
        exact hallowed
      obtain rfl := Except.ok.inj hp'
      have hne : ∀ d f, t.coroutines d = some f → d ≠ c := by
        rintro d f hf rfl
        rw [hfree] at hf
        exact absurd hf (by simp)
      -- A new coroutine touches nobody.
      have hkeep : ∀ d, d ≠ c → (t.createCoroutine c).coroutines d = t.coroutines d :=
        fun d hd => Function.update_of_ne hd _ _
      have hcontext : ∀ d k, t.contextOf d = some k →
          (t.createCoroutine c).contextOf d = some k := by
        intro d k hk
        refine (contextOf_congr t _ d (hkeep d ?_)).trans hk
        rintro rfl
        unfold Thread.contextOf at hk
        rw [hfree] at hk
        exact absurd hk (by simp)
      refine ⟨t.createCoroutine c, ⟨hfree, none, rfl⟩, ?_, .stays rfl rfl, ?_⟩
      swap
      · intro d _ _ hd
        obtain ⟨f, hf⟩ := Option.isSome_iff_exists.mp hd
        exact hkeep d (hne d f hf)
      refine ⟨⟨h.same.env, ?_, h.same.allocated⟩,
        Thread.createCoroutine_sound t h.sound c hfree, h.room, hcontext main 0 h.mainContext, ?_,
        ?_⟩
      · simp only [Process.createCoroutine, Process.setFields, Thread.createCoroutine,
          Thread.setFields, h.same.coroutines]
      · obtain ⟨k, hk, hstack⟩ := h.running
        exact ⟨k, hcontext _ k hk, hstack⟩
      · intro d f k hf hexit hd hk
        refine h.settled d f k ((hkeep d ?_).symm.trans hf) hexit hd hk
        -- The new one has no context.
        rintro rfl
        rw [Thread.createCoroutine_fields] at hf
        rw [← Option.some.inj hf] at hk
        exact absurd hk (by simp)
  | resume c =>
      obtain ⟨hsome, hcStack⟩ := hallowed
      rw [h.same.coroutines] at hsome
      rw [h.same.env] at hcStack
      obtain ⟨f, hf⟩ := Option.isSome_iff_exists.mp hsome
      -- Resuming one that has ended does nothing.
      by_cases hexit : f.exit = true
      · have hresume : p.resume L c = .ok p := by
          unfold Process.resume
          rw [h.same.coroutines, hf]
          simp only [hexit, if_true]
        obtain rfl := Except.ok.inj (hresume.symm.trans hp')
        exact ⟨t, ⟨⟨hsome, hcStack⟩, _, Thread.resume_exit t c f hf hexit⟩, h, .stays rfl rfl,
          fun _ _ _ _ => rfl⟩
      · obtain ⟨t', hresume, -, hhosts, heffect, hother⟩ := resume_hosts L p p' t h c f hf
          (Bool.eq_false_iff.mpr hexit) hcStack hp' hroom
        exact ⟨t', ⟨⟨hsome, hcStack⟩, _, hresume⟩, hhosts, heffect, fun d _ hd _ => hother d hd⟩
  | yield =>
      obtain ⟨t', hyield, ⟨hhosts, heffect⟩, hother⟩ :=
        yield_hosts L p p' t h (hcontrol hallowed) hp'
      exact ⟨t', ⟨hcontrol hallowed, _, hyield⟩, hhosts, heffect, fun d hd _ _ => hother d hd⟩
  | completes =>
      obtain ⟨t', hwrapped, ⟨hhosts, heffect⟩, hother⟩ :=
        wrapped_hosts L p p' t h (hcontrol hallowed) hp'
      exact ⟨t', ⟨hcontrol hallowed, _, hwrapped⟩, hhosts, heffect, fun d hd _ _ => hother d hd⟩

end Steps

end Co
