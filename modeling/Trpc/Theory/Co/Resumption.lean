import Trpc.Theory.Co.Hosting
import Trpc.Theory.Co.Nesting

/-!
# Resumption

Runs of a thread on its machine, in which the code of the coroutines does what it likes
between the operations. Such a run is one of the thread above, so none of its operations
leaves defined behaviour.

A coroutine that gives way to another does not notice: as long as it is not in control its
context keeps what it needs, and whatever operation brings control back to it, its code
finds registers, stack and instruction pointer as it left them. A coroutine that is
entered first is entered like any function, on a stack of its own.

## Main definitions

* `Process.Run`: A run from the beginning.
* `Waits`: A coroutine that is not in control could go on from where it was.

## Theorems

* `run_refines`: A run of the machine is one of the thread above.
* `code_goes_on`: Code goes on where it left off.
* `entry_called`: A coroutine is entered at the head of `routineWrapper`.
* `test_spec`: What `co::test` finds out.
-/

namespace Co

open Storage Transition

/-- The operations among what happens. -/
def Action.operations : Action → List Operation
  | .computes => []
  | .operates o => [o]

/-- Two contexts, a megabyte apart. -/
def smallBase (k : Nat) : Word := BitVec.ofNat 64 (1048576 * (k + 1))

theorem smallBase_fits (k : Nat) (_ : k < 2) :
    (smallBase k).toNat + Context.size < 18446744073709551616 := by
  simp only [smallBase, Context.size, Context.registersSize, Context.stackSize,
    BitVec.toNat_ofNat]
  omega

theorem smallBase_apart (j : Nat) (hj : j < 2) (k : Nat) (hk : k < 2) (hjk : j ≠ k) :
    (smallBase j).toNat + Context.size ≤ (smallBase k).toNat ∨
      (smallBase k).toNat + Context.size ≤ (smallBase j).toNat := by
  simp only [smallBase, Context.size, Context.registersSize, Context.stackSize,
    BitVec.toNat_ofNat]
  omega

theorem smallBase_below (k : Nat) (hk : k < 2) :
    (smallBase k).toNat + Context.size ≤ 268435456 := by
  simp only [smallBase, Context.size, Context.registersSize, Context.stackSize,
    BitVec.toNat_ofNat]
  omega

theorem small_main_fits : 268435456 ≤ 268500992 ∧ 268500992 < 18446744073709551616 := by omega

/-- A layout with room for two contexts. -/
def Layout.small : Layout where
  capacity := 2
  base := smallBase
  mainLow := 268435456
  mainHigh := 268500992
  routine := 4194304#64
  object c := BitVec.ofNat 64 (5242880 + 64 * c)
  fits := smallBase_fits
  apart := smallBase_apart
  main_fits := small_main_fits
  main_apart := fun k hk => Or.inr (smallBase_below k hk)

/-- A machine with little on its stack. -/
def Machine.fresh : Machine := ⟨fun _ => 268500976#64, 0#64, fun _ => 0#8⟩

namespace Process

/-- A run of the machine's thread from its beginning. -/
abbrev Run (L : Layout) (m : Machine) (as : List Action) (p : Process) : Prop :=
  Steps (Step L) (initial m) as p

variable (L : Layout)

/-! ## Every step -/

theorem initial_hosts (m : Machine) (h0 : 0 < L.capacity) (hm : L.OnStack 0 (m.reg .rsp)) :
    Hosts L (initial m) Thread.initial where
  same := ⟨rfl, rfl, rfl⟩
  sound := Thread.initial_sound
  room := h0
  mainContext := rfl
  running := ⟨0, rfl, hm⟩
  settled := by
    intro c f k hf _ hc _
    -- There is no coroutine but the one in control.
    rw [Thread.coroutines_initial c hc] at hf
    exact absurd hf (by simp)

/-- What code does on its own leaves alone what belongs to other coroutines. -/
theorem computes_frame (p : Process) (t : Thread) (h : Hosts L p t) (m : Machine) (k : ContextId)
    (hk : t.contextOf t.control = some k) (hm : Computes L p.allocated k p.machine m)
    (d : Coroutine) (i : ContextId) (hd : d ≠ t.control) (hi : t.contextOf d = some i) (a : Word)
    (ha : L.Own i a) : m.memory a = p.machine.memory a := by
  have hkc := Hosts.known L p t h.same h.sound h.room _ k hk
  have hic := Hosts.known L p t h.same h.sound h.room _ i hi
  -- A context belongs to one coroutine.
  have hik : i ≠ k := by
    rintro rfl
    exact hd (h.sound.owned.single t d t.control i hi hk)
  by_contra hne
  -- What changes is on the stack in control, or in contexts nobody has.
  rcases hm.frame a hne with hstack | hfree
  · exact L.own_apart i k hic hkc hik a ha (Or.inr hstack)
  · have hallocated : i < t.allocated := h.sound.owned.known (.coroutine d) i hi
    rw [← h.same.allocated] at hallocated
    exact hfree i hallocated ha

theorem computes_hosts (p : Process) (t : Thread) (h : Hosts L p t) (m : Machine) (k : ContextId)
    (hk : t.contextOf t.control = some k) (hm : Computes L p.allocated k p.machine m) :
    Hosts L { p with machine := m } t where
  same := ⟨h.same.env, h.same.coroutines, h.same.allocated⟩
  sound := h.sound
  room := h.room
  mainContext := h.mainContext
  running := ⟨k, hk, hm.onStack⟩
  settled := by
    intro c f i hf hexit hc hi
    have hci : t.contextOf c = some i := (Thread.contextOf_of_fields t c f hf).trans hi
    exact (h.settled c f i hf hexit hc hi).frame L i
      (Hosts.known L p t h.same h.sound h.room c i hci) _ _
      (computes_frame L p t h m k hk hm c i hc hci)

/-- The context of the coroutine that computes is that of the one in control. -/
theorem computes_control (p : Process) (t : Thread) (h : Hosts L p t) (c : Coroutine)
    (k : ContextId) (hc : p.env.current = .ok c) (hk : p.contextOf c = some k) :
    t.contextOf t.control = some k := by
  rw [h.same.env, h.sound.current] at hc
  rw [Except.ok.inj hc, ← h.same.contextOf]
  exact hk

/-- Every step is one of the thread above, or none. -/
theorem stepped (p p' : Process) (t : Thread) (h : Hosts L p t) (a : Action)
    (hstep : Step L p a p') : ∃ t', Steps Thread.Step t a.operations t' ∧ Hosts L p' t' := by
  cases hstep with
  | computes c k m hc hk hm =>
      exact ⟨t, Steps.refl t, computes_hosts L p t h m k (computes_control L p t h c k hc hk) hm⟩
  | operates _ o hallowed hp' hroom =>
      obtain ⟨t', hstep, hhosts, -⟩ := step_hosts L p p' t h o hallowed hp' hroom
      exact ⟨t', Steps.cons t t' t' o [] hstep (Steps.refl t'), hhosts⟩

/-- No operation that respects the rules leaves defined behaviour. -/
theorem step_defined (p : Process) (t : Thread) (h : Hosts L p t) (o : Operation)
    (hallowed : p.Allowed o) : ∃ p', p.step L o = .ok p' := by
  -- The rules read the same on both levels.
  have hallowed' : t.Allowed o := by
    have hcontrol : p.env.current ≠ .ok main → t.control ≠ main := by
      intro hne heq
      refine hne ?_
      rw [h.same.env, h.sound.current, heq]
    cases o with
    | createCoroutine c =>
        unfold Thread.Allowed
        rw [← h.same.coroutines]
        exact hallowed
    | resume c =>
        unfold Thread.Allowed
        rw [← h.same.coroutines, ← h.same.env]
        exact hallowed
    | yield => exact hcontrol hallowed
    | completes => exact hcontrol hallowed
  obtain ⟨t', v, hstep, -⟩ := Thread.step_spec t h.sound o hallowed'
  obtain ⟨p', hp', -⟩ := step_same L o p t t' v h.same h.sound.current hstep
  exact ⟨p', hp'⟩

/-- Runs keep what one step keeps. -/
theorem steps_hosted (p p' : Process) (as : List Action) (h : Steps (Step L) p as p') (t : Thread)
    (ht : Hosts L p t) :
    ∃ t', Steps Thread.Step t (as.flatMap Action.operations) t' ∧ Hosts L p' t' := by
  induction h generalizing t with
  | refl p => exact ⟨t, Steps.refl t, ht⟩
  | cons p1 p2 p3 a as hstep _ ih =>
      obtain ⟨u, hu, hhosts⟩ := stepped L p1 p2 t ht a hstep
      obtain ⟨t', ht', hhosts'⟩ := ih u hhosts
      -- The operations of the step, and those of the rest.
      rw [List.flatMap_cons]
      exact ⟨t', steps_append t u t' _ _ hu ht', hhosts'⟩

/-! ## An example -/

theorem fresh_onStack : Layout.small.OnStack 0 (Machine.fresh.reg .rsp) := by
  unfold Layout.OnStack Layout.small Machine.fresh Layout.low Layout.high
  decide

/-- The machine's thread with one coroutine. -/
def created : Process := (initial .fresh).createCoroutine 1

theorem created_run : Run .small .fresh [.operates (.createCoroutine 1)] created :=
  Steps.cons _ _ _ _ _ (.operates _ _ _ rfl rfl (by decide)) (Steps.refl created)

theorem created_hosts : ∃ t, Hosts .small created t := by
  obtain ⟨t, -, ht⟩ := steps_hosted .small _ created _ created_run _
    (initial_hosts .small .fresh (by decide) fresh_onStack)
  exact ⟨t, ht⟩

/-- The coroutine is resumed. -/
theorem created_resume : ∃ q, created.step .small (.resume 1) = .ok q ∧
    Step .small created (.operates (.resume 1)) q ∧ q.env.cStack = [0, 1] := by
  obtain ⟨t, ht⟩ := created_hosts
  have hallowed : created.Allowed (.resume 1) := ⟨rfl, by decide⟩
  obtain ⟨q, hq⟩ := step_defined .small created t ht _ hallowed
  have hstate : (created.step .small (.resume 1)).map (fun q => (q.env.cStack, q.allocated))
      = .ok ([0, 1], 2) := rfl
  rw [hq] at hstate
  obtain ⟨hcStack, hallocated⟩ := Prod.mk.inj (Except.ok.inj hstate)
  exact ⟨q, hq, .operates _ q _ hallowed hq (by rw [hallocated]; decide), hcStack⟩

/-! ## Runs -/

/-- A run of the machine is one of the thread above, with the same operations. -/
theorem run_refines (m : Machine) (h0 : 0 < L.capacity) (hm : L.OnStack 0 (m.reg .rsp))
    (as : List Action) (p : Process) (h : Run L m as p) :
    ∃ t, Thread.Run (as.flatMap Action.operations) t ∧ Hosts L p t ∧
      ∀ o, p.Allowed o → ∃ p', p.step L o = .ok p' := by
  obtain ⟨t, ht, hhosts⟩ := steps_hosted L _ p as h Thread.initial (initial_hosts L m h0 hm)
  exact ⟨t, ht, hhosts, step_defined L p t hhosts⟩

/-- One coroutine, created and resumed. -/
theorem run_refines_resumed : ∃ q t, Thread.Run [.createCoroutine 1, .resume 1] t ∧
    Hosts .small q t ∧ ∀ o, q.Allowed o → ∃ q', q.step .small o = .ok q' := by
  obtain ⟨q, -, hresume, -⟩ := created_resume
  have hrun : Run .small .fresh [.operates (.createCoroutine 1), .operates (.resume 1)] q :=
    steps_append _ created _ _ _ created_run (Steps.cons _ _ _ _ _ hresume (Steps.refl q))
  exact ⟨q, run_refines .small .fresh (by decide) fresh_onStack _ q hrun⟩

/-! ## Waiting and going on -/

/-- The code of `c` was at `m`, and could be gone on with, unless it has ended. -/
def Waits (c : Coroutine) (m : Machine) (p : Process) : Prop :=
  ∃ f, p.coroutines c = some f ∧
    (f.exit = true ∨ ∃ i, f.context = some i ∧ Suspended L p.machine.memory i m)

theorem contextOf_of_fields (p : Process) (c : Coroutine) (f : Coroutine.Fields)
    (h : p.coroutines c = some f) : p.contextOf c = f.context := by
  unfold contextOf
  rw [h]
  rfl

theorem fields_of_contextOf (p : Process) (c : Coroutine) (k : ContextId)
    (h : p.contextOf c = some k) : ∃ f, p.coroutines c = some f ∧ f.context = some k := by
  unfold contextOf at h
  cases hf : p.coroutines c with
  | none =>
      rw [hf] at h
      exact absurd h (by simp)
  | some f =>
      rw [hf] at h
      exact ⟨f, rfl, h⟩

theorem current_iff (p : Process) (t : Thread) (h : Hosts L p t) (c : Coroutine) :
    p.env.current = .ok c ↔ t.control = c := by
  rw [h.same.env, h.sound.current]
  constructor
  · exact fun heq => Except.ok.inj heq
  · rintro rfl
    rfl

/-- Who waits goes on waiting while others have control. -/
theorem step_waits (p p' : Process) (t : Thread) (h : Hosts L p t) (a : Action)
    (hstep : Step L p a p') (c : Coroutine) (m : Machine) (hc : p.env.current ≠ .ok c)
    (hc' : p'.env.current ≠ .ok c) (hwaits : Waits L c m p) : Waits L c m p' := by
  obtain ⟨f, hf, hcase⟩ := hwaits
  have hcontrol : c ≠ t.control := fun heq => hc ((current_iff L p t h c).mpr heq.symm)
  have hft : t.coroutines c = some f := by
    rw [← h.same.coroutines]
    exact hf
  cases hstep with
  | computes d k x hd hk hx =>
      refine ⟨f, hf, hcase.imp id ?_⟩
      rintro ⟨i, hi, hsuspended⟩
      have hci : t.contextOf c = some i := (Thread.contextOf_of_fields t c f hft).trans hi
      exact ⟨i, hi, hsuspended.frame L i (Hosts.known L p t h.same h.sound h.room c i hci) _ _ m
        (computes_frame L p t h x k (computes_control L p t h d k hd hk) hx c i hcontrol hci)⟩
  | operates _ o hallowed hp' hroom =>
      obtain ⟨t', -, hhosts, heffect, hother⟩ := step_hosts L p p' t h o hallowed hp' hroom
      have hcontrol' : c ≠ t'.control :=
        fun heq => hc' ((current_iff L p' t' hhosts c).mpr heq.symm)
      have hft' : t'.coroutines c = some f :=
        (hother c hcontrol hcontrol' (by rw [hft]; rfl)).trans hft
      refine ⟨f, by rw [hhosts.same.coroutines]; exact hft', hcase.imp id ?_⟩
      rintro ⟨i, hi, hsuspended⟩
      have hci : t.contextOf c = some i := (Thread.contextOf_of_fields t c f hft).trans hi
      have hci' : t'.contextOf c = some i := (Thread.contextOf_of_fields t' c f hft').trans hi
      have hic := Hosts.known L p t h.same h.sound h.room c i hci
      -- A switch writes to two contexts, and neither of them is that of `c`.
      have hframe : ∀ j k, j < L.capacity → k < L.capacity → i ≠ j → i ≠ k →
          (∀ a, ¬ L.Own j a → ¬ L.Own k a → p'.machine.memory a = p.machine.memory a) →
          Suspended L p'.machine.memory i m := by
        intro j k hj hk hij hik hout
        refine hsuspended.frame L i hic _ _ m ?_
        intro a ha
        exact hout a (L.own_apart i j hic hj hij a ha) (L.own_apart i k hic hk hik a ha)
      refine ⟨i, hi, ?_⟩
      cases heffect with
      | stays hmachine hcontrol =>
          rw [hmachine]
          exact hsuspended
      | starts j k hj hk hfresh hlive hleft hstack hrip hrdi hrsp hout =>
          rw [hhosts.same.contextOf] at hj hk
          refine hframe j k (Hosts.known L p' t' hhosts.same hhosts.sound hhosts.room _ j hj)
            (Hosts.known L p' t' hhosts.same hhosts.sound hhosts.room _ k hk) ?_ ?_ hout
          · rintro rfl
            exact hcontrol (hhosts.sound.owned.single t' c t.control i hci' hj)
          · rintro rfl
            exact hcontrol' (hhosts.sound.owned.single t' c t'.control i hci' hk)
      | switches j k hj hk hk' hlive hkept hleft hstack hcrosses hout =>
          rw [h.same.contextOf] at hj hk
          refine hframe j k (Hosts.known L p t h.same h.sound h.room _ j hj)
            (Hosts.known L p t h.same h.sound h.room _ k hk) ?_ ?_ hout
          · rintro rfl
            exact hcontrol (h.sound.owned.single t c t.control i hci hj)
          · rintro rfl
            exact hcontrol' (h.sound.owned.single t c t'.control i hci hk)

/-- Who gives way to another waits from then on. -/
theorem step_leaves (p p' : Process) (t : Thread) (h : Hosts L p t) (a : Action)
    (hstep : Step L p a p') (c : Coroutine) (hc : p.env.current = .ok c)
    (hc' : p'.env.current ≠ .ok c) : Waits L c p.machine p' := by
  have hcontrol := (current_iff L p t h c).mp hc
  cases hstep with
  | computes d k x hd hk hx => exact absurd hc hc'
  | operates _ o hallowed hp' hroom =>
      obtain ⟨t', -, hhosts, heffect, -⟩ := step_hosts L p p' t h o hallowed hp' hroom
      rw [hcontrol] at heffect
      cases heffect with
      -- Control has not moved, so nobody has left.
      | stays hmachine heq => exact absurd ((current_iff L p' t' hhosts c).mpr heq) hc'
      | starts j k hj hk hfresh hlive hleft hstack hrip hrdi hrsp hout =>
          obtain ⟨f, hf, hfj⟩ := fields_of_contextOf p' c j hj
          exact ⟨f, hf, Or.inr ⟨j, hfj, hleft⟩⟩
      | switches j k hj hk hk' hlive hkept hleft hstack hcrosses hout =>
          rcases hkept with hkept | ⟨f, hf, hexit⟩
          · obtain ⟨f, hf, hfj⟩ := fields_of_contextOf p' c j hkept
            exact ⟨f, hf, Or.inr ⟨j, hfj, hleft hkept⟩⟩
          · exact ⟨f, hf, Or.inl hexit⟩

/-- Who has waited goes on. -/
theorem step_continues (p p' : Process) (t : Thread) (h : Hosts L p t) (a : Action)
    (hstep : Step L p a p') (c : Coroutine) (m : Machine) (hc : p.env.current ≠ .ok c)
    (hc' : p'.env.current = .ok c) (hwaits : Waits L c m p) :
    ∃ k, p'.contextOf c = some k ∧ Continues L k m p'.machine := by
  obtain ⟨f, hf, hcase⟩ := hwaits
  cases hstep with
  | computes d k x hd hk hx => exact absurd hc' hc
  | operates _ o hallowed hp' hroom =>
      obtain ⟨t', -, hhosts, heffect, -⟩ := step_hosts L p p' t h o hallowed hp' hroom
      rw [(current_iff L p' t' hhosts c).mp hc'] at heffect
      -- What has ended is not given control again.
      have hwaiting : f.exit = false → ∃ i, p.contextOf c = some i ∧
          Suspended L p.machine.memory i m := by
        intro hexit
        rcases hcase with hexit' | ⟨i, hi, hsuspended⟩
        · rw [hexit] at hexit'
          exact absurd hexit' (by decide)
        · exact ⟨i, (contextOf_of_fields p c f hf).trans hi, hsuspended⟩
      cases heffect with
      | stays hmachine heq => exact absurd ((current_iff L p t h c).mpr heq.symm) hc
      | starts j k hj hk hfresh hlive hleft hstack hrip hrdi hrsp hout =>
          -- It has a context already, so it does not start.
          obtain ⟨i, hi, -⟩ := hwaiting (hlive f hf)
          rw [hfresh] at hi
          exact absurd hi (by simp)
      | switches j k hj hk hk' hlive hkept hleft hstack hcrosses hout =>
          obtain ⟨i, hi, hsuspended⟩ := hwaiting (hlive f hf)
          rw [hk] at hi
          obtain rfl := Option.some.inj hi
          exact ⟨k, hk', hcrosses.continues L k _ _ m hsuspended⟩

/-- While a coroutine is not in control it waits. -/
theorem steps_wait (c : Coroutine) (m : Machine) (p p' : Process) (as : List Action)
    (h : Steps (Guarded (Step L) fun p _ => p.env.current ≠ .ok c) p as p')
    (hlast : p'.env.current ≠ .ok c) (t : Thread) (ht : Hosts L p t) (hwaits : Waits L c m p) :
    (∃ t', Hosts L p' t') ∧ Waits L c m p' := by
  induction h generalizing t with
  | refl p => exact ⟨⟨t, ht⟩, hwaits⟩
  | cons p1 p2 p3 a as hstep hrest ih =>
      obtain ⟨t', -, hhosts⟩ := stepped L p1 p2 t ht a hstep.1
      -- The next state is one of those in which `c` has no control, or the last.
      have hnext : p2.env.current ≠ .ok c := by
        cases hrest with
        | refl _ => exact hlast
        | cons _ _ _ _ _ hfirst _ => exact hfirst.2
      exact ih hlast t' hhosts (step_waits L p1 p2 t ht a hstep.1 c m hstep.2 hnext hwaits)

/-- Code that has given way to other coroutines goes on where it left off, whatever they have
    done in the meantime. -/
theorem code_goes_on (m : Machine) (h0 : 0 < L.capacity) (hm : L.OnStack 0 (m.reg .rsp))
    (before : List Action) (p : Process) (hbefore : Run L m before p) (c : Coroutine)
    (hc : p.env.current = .ok c) (leave : Action) (q : Process) (hleave : Step L p leave q)
    (meantime : List Action) (r : Process)
    (hmeantime : Steps (Guarded (Step L) fun p _ => p.env.current ≠ .ok c) q meantime r)
    (hq : q.env.current ≠ .ok c) (hr : r.env.current ≠ .ok c) (back : Action) (s : Process)
    (hback : Step L r back s) (hs : s.env.current = .ok c) :
    ∃ k, s.contextOf c = some k ∧ Continues L k p.machine s.machine := by
  obtain ⟨t, -, ht⟩ := steps_hosted L _ p before hbefore Thread.initial (initial_hosts L m h0 hm)
  obtain ⟨u, -, hu⟩ := stepped L p q t ht leave hleave
  have hwaits := step_leaves L p q t ht leave hleave c hc hq
  obtain ⟨⟨v, hv⟩, hwaits'⟩ := steps_wait L c p.machine q r meantime hmeantime hr u hu hwaits
  exact step_continues L r s v hv back hback c p.machine hr hs hwaits'

/-- Code of the main coroutine goes on behind a `resume` of another that yields. -/
theorem code_goes_on_yielded : ∃ s : Process, s.env.current = .ok main ∧
    ∃ k, s.contextOf main = some k ∧ Continues .small k created.machine s.machine := by
  obtain ⟨t, ht⟩ := created_hosts
  obtain ⟨q, hq, hleave, hqStack⟩ := created_resume
  obtain ⟨u, -, hu⟩ := stepped .small created q t ht _ hleave
  have hqCurrent : q.env.current ≠ .ok main := by
    unfold Environment.current
    rw [hqStack]
    decide
  obtain ⟨s, hs⟩ := step_defined .small q u hu .yield hqCurrent
  have hstate : (created.step .small (.resume 1) >>= fun q => q.step .small .yield).map
      (fun s => (s.env.cStack, s.allocated)) = .ok ([0], 2) := rfl
  rw [hq] at hstate
  simp only [bind, Except.bind] at hstate
  rw [hs] at hstate
  obtain ⟨hsStack, hsAllocated⟩ := Prod.mk.inj (Except.ok.inj hstate)
  have hback : Step .small q (.operates .yield) s :=
    .operates q s _ hqCurrent hs (by rw [hsAllocated]; decide)
  have hsCurrent : s.env.current = .ok main := by
    unfold Environment.current
    rw [hsStack]
    rfl
  exact ⟨s, hsCurrent, code_goes_on .small .fresh (by decide) fresh_onStack _ created created_run
    main rfl _ q hleave [] q (Steps.refl q) hqCurrent hqCurrent _ s hback hsCurrent⟩

/-! ## The first time -/

/-- A coroutine that is resumed first is entered like a function that was called with the
    coroutine for its argument, on a stack that is its own and empty. -/
theorem entry_called (m : Machine) (h0 : 0 < L.capacity) (hm : L.OnStack 0 (m.reg .rsp))
    (as : List Action) (p : Process) (h : Run L m as p) (c : Coroutine) (f : Coroutine.Fields)
    (hf : p.coroutines c = some f) (hrunning : f.running = false) (hexit : f.exit = false)
    (p' : Process) (hstep : Step L p (.operates (.resume c)) p') :
    p'.env.current = .ok c ∧ p'.machine.rip = L.routine ∧
    p'.machine.reg .rdi = L.object c ∧ (p'.machine.reg .rsp).toNat % 16 = 8 ∧
    ∃ k, p'.contextOf c = some k ∧ (∀ d, d ≠ c → p'.contextOf d ≠ some k) ∧
      (L.base k).toNat + Context.size < (p'.machine.reg .rsp).toNat + 16 ∧
      (p'.machine.reg .rsp).toNat ≤ (L.base k).toNat + Context.size := by
  obtain ⟨t, -, ht⟩ := steps_hosted L _ p as h Thread.initial (initial_hosts L m h0 hm)
  cases hstep with
  | operates _ _ hallowed hp' hroom =>
      have hcStack : c ∉ t.env.cStack := by
        rw [← ht.same.env]
        exact hallowed.2
      have hft : t.coroutines c = some f := by
        rw [← ht.same.coroutines]
        exact hf
      obtain ⟨t', -, rfl, ht', heffect, -⟩ :=
        resume_hosts L p p' t ht c f hft hexit hcStack hp' hroom
      -- A coroutine that never ran has no context yet.
      have hfresh : p.contextOf t'.control = none := by
        rw [ht.same.contextOf]
        exact fresh_of_not_running t ht.sound t'.control f hft hexit hrunning hcStack
      cases heffect with
      | stays hmachine heq =>
          rw [heq] at hcStack
          exact absurd ht.sound.control_mem hcStack
      | switches j k hj hk hk' hlive hkept hleft hstack hcrosses hout =>
          rw [hfresh] at hk
          exact absurd hk (by simp)
      | starts j k hj hk _ hlive hleft hstack hrip hrdi hrsp hout =>
          have hkt : t'.contextOf t'.control = some k := by
            rw [← ht'.same.contextOf]
            exact hk
          have hkc := Hosts.known L p' t' ht'.same ht'.sound ht'.room _ k hkt
          have hfits := L.fits k hkc
          obtain ⟨hlow, hhigh, haligned⟩ := getSp_spec (L.base k) hfits
          -- The routine is entered with its return address on the stack.
          have hsp : (p'.machine.reg .rsp).toNat = (Context.getSp (L.base k)).toNat + 8 := by
            rw [hrsp]
            bv_omega
          refine ⟨(current_iff L p' t' ht' _).mpr rfl, hrip, hrdi, by omega, k, hk, ?_, by omega,
            by omega⟩
          intro d hd hdk
          rw [ht'.same.contextOf] at hdk
          exact hd (ht'.sound.owned.single t' d t'.control k hdk hkt)

/-- The first coroutine starts at the end of the stack in the second context. -/
theorem entry_called_created : ∃ q : Process, q.env.current = .ok 1 ∧
    q.machine.rip = Layout.small.routine ∧ q.machine.reg .rdi = Layout.small.object 1 ∧
    (q.machine.reg .rsp).toNat % 16 = 8 ∧
    ∃ k, q.contextOf 1 = some k ∧ (∀ d, d ≠ 1 → q.contextOf d ≠ some k) ∧
      (Layout.small.base k).toNat + Context.size < (q.machine.reg .rsp).toNat + 16 ∧
      (q.machine.reg .rsp).toNat ≤ (Layout.small.base k).toNat + Context.size := by
  obtain ⟨q, -, hresume, -⟩ := created_resume
  exact ⟨q, entry_called .small .fresh (by decide) fresh_onStack _ created created_run 1 ⟨0, none⟩
    rfl (by decide) (by decide) q hresume⟩

/-! ## Where the code is -/

/-- A distance of pointers between zero and the size of a stack. -/
theorem diff_iff (x : Word) :
    (decide (x.toInt ≥ 0) && decide (x.toInt < Context.stackSize)) = true ↔
      x.toNat < Context.stackSize := by
  have hlt := x.isLt
  rw [Bool.and_eq_true, decide_eq_true_eq, decide_eq_true_eq, BitVec.toInt_eq_toNat_cond]
  unfold Context.stackSize
  by_cases hsmall : 2 * x.toNat < 2 ^ 64
  · rw [if_pos hsmall]
    omega
  · rw [if_neg hsmall]
    omega

/-- The test for an address on the stack of a context. -/
theorem test_iff (a jojo : Word) (h : a.toNat + Context.size < 18446744073709551616) :
    Context.test a jojo = true ↔
      a.toNat + Context.registersSize ≤ jojo.toNat ∧ jojo.toNat < a.toNat + Context.size := by
  refine (diff_iff (jojo - Context.stackBegin a)).trans ?_
  simp only [Context.stackBegin, Context.size, Context.registersSize, Context.stackSize] at *
  bv_omega

/-- `co::test` tells whether the code that calls it runs in a coroutine other than the main
    one, as long as its local variable lies on the stack that it runs on. -/
theorem test_spec (m : Machine) (h0 : 0 < L.capacity) (hm : L.OnStack 0 (m.reg .rsp))
    (as : List Action) (p : Process) (h : Run L m as p) (c : Coroutine) (k : ContextId)
    (hc : p.env.current = .ok c) (hk : p.contextOf c = some k) (jojo : Word)
    (hlow : (p.machine.reg .rsp).toNat ≤ jojo.toNat) (hhigh : jojo.toNat < L.high k) :
    p.test L jojo = .ok (decide (c ≠ main)) := by
  obtain ⟨t, -, ht⟩ := steps_hosted L _ p as h Thread.initial (initial_hosts L m h0 hm)
  obtain rfl := (current_iff L p t ht c).mp hc
  have hkt : t.contextOf t.control = some k := by
    rw [← ht.same.contextOf]
    exact hk
  have hkc := Hosts.known L p t ht.same ht.sound ht.room _ k hkt
  have hstack : L.OnStack k (p.machine.reg .rsp) := by
    obtain ⟨i, hi, hstack⟩ := ht.running
    rw [hkt] at hi
    obtain rfl := Option.some.inj hi
    exact hstack
  have hiff := test_iff (L.base k) jojo (L.fits k hkc)
  -- The test is made against the context of the coroutine in control.
  have htest : p.test L jojo = .ok (Context.test (L.base k) jojo) := by
    unfold Process.test
    rw [hc]
    simp only [bind, Except.bind, hk]
    rfl
  rw [htest]
  congr 1
  rw [Bool.eq_iff_iff, hiff, decide_eq_true_eq]
  obtain ⟨hlow', -⟩ := hstack
  by_cases hmain : t.control = main
  · -- The main coroutine does not run on the stack in its context.
    have hk0 : k = 0 := by
      rw [hmain, ht.mainContext] at hkt
      exact (Option.some.inj hkt).symm
    subst hk0
    have hapart := L.main_apart 0 hkc
    simp only [Layout.low, Layout.high, if_true] at hlow' hhigh
    have hfalse : ¬ ((L.base 0).toNat + Context.registersSize ≤ jojo.toNat ∧
        jojo.toNat < (L.base 0).toNat + Context.size) := by omega
    exact iff_of_false hfalse (fun hne => hne hmain)
  · have hk0 : k ≠ 0 := by
      -- Only the main coroutine is in the first context.
      rintro rfl
      exact hmain (ht.sound.owned.single t _ _ 0 hkt ht.mainContext)
    simp only [Layout.low, Layout.high, if_neg hk0] at hlow' hhigh
    exact iff_of_true ⟨by omega, hhigh⟩ hmain

/-- The main coroutine is told that it is none. -/
theorem test_spec_main :
    (initial .fresh).test .small 268500980#64 = .ok (decide (main ≠ main)) :=
  test_spec .small .fresh (by decide) fresh_onStack [] _ (Steps.refl _) main 0 rfl rfl 268500980#64
    (by decide) (by decide)

end Process

end Co
