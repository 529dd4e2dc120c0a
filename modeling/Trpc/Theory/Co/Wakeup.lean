import Trpc.Theory.Co.Registry

/-!
# No Lost Wake-up

A coroutine that yields must be found again: it must be in the table under the
descriptor and the event it waits for, and the kernel must have been asked to report
them. Otherwise nobody ever resumes it.

`addEvent` sees to that when the table has no entry for the descriptor and the kernel
accepts the new one. In the other cases it does not, and what then happens depends on
the caller. There are three such cases. Another coroutine waits on the descriptor;
another coroutine waited on it until it was closed, and the number has come back,
since the entry of a closed descriptor stays; or the kernel refuses. In the first two
the coroutine that asks is not put into the entry, neither when the event is new to it
nor when it is not, and in the third `epoll_ctl`'s failure is not noticed. Of all the
callers only `connect`, and only when the event is not new, returns an error then.

`adds_settled_iff` says just that of one `addEvent` in any reachable state, and
`wakeful_step` carries it through runs in which every `addEvent` is a good one.

## Main definitions

* `Registered`: In the table and in the kernel's list.
* `Settled`: Registered, or about to return an error.
* `Registering`: The good cases of `addEvent`.
* `Wakeful`: Nobody waits who is not registered.

## Theorems

* `adds_settled_iff`: One `addEvent`.
* `wakeful_step`: A step of a run.
* `routines_run`: What the loop resumes.
* `wakeups`: All of it.
-/

namespace Co

open Trpc Interaction Transition

/-- `c` is in the slot of the table, and the kernel's list has the event. -/
def Registered (w : World) (c : Coroutine) (fd : Int) (type : EventType) : Prop :=
  w.registry.slot fd type = some c ∧
    ∃ mask, w.registry.interest fd = some mask ∧ mask &&& type.newEvent ≠ 0

/-- After `addEvent`: `c` is registered, or its call is going to return an error. -/
def Settled (w : World) (c : Coroutine) (fd : Int) (type : EventType) : Prop :=
  Registered w c fd type ∨ ∃ p, w.status c = .calling p ∧ Fails p

/-- Before `addEvent`: the table has no entry for the descriptor, and the kernel is
    going to take it; or `connect` asks for an event that the entry has. -/
def Registering (w : World) (caller : Api) (fd : Int) (type : EventType) (accepts : Bool) : Prop :=
  (w.registry.events fd = none ∧ w.registry.opened fd = true ∧ accepts = true) ∨
    (caller = .connect ∧ ∃ e, w.registry.events fd = some e ∧ e.events &&& type.newEvent ≠ 0)

theorem not_fails_of_awaits (p : Proc Int) (fd : Int) (type : EventType)
    (h : awaits p = some (fd, type)) : ¬ Fails p := by
  intro hfails
  cases p with
  | ret ret => cases h
  | call c k =>
      cases c with
      | yield fd type => exact hfails.1
      | _ => cases h

/-- What is left to do after `addEvent`. -/
theorem disciplined_adds (caller : Api) (fd : Int) (type : EventType) (k : Bool → Proc Int)
    (h : Disciplined (.call (.addEvent caller fd type) k)) :
    awaits (k true) = some (fd, type) ∧
      (awaits (k false) = none ∨ awaits (k false) = some (fd, type)) ∧
      (Fails (k false) ↔ caller = .connect) := h.1

theorem newEvent_and_self (type : EventType) : type.newEvent &&& type.newEvent ≠ 0 := by
  cases type <;> decide

/-- Exactly the good cases of `addEvent` settle the matter. -/
theorem adds_settled_iff (w w' : World) (h : Coherent w) (c : Coroutine) (caller : Api) (fd : Int)
    (type : EventType) (accepts : Bool) (hstep : Step w (.adds c caller fd type accepts) w') :
    Settled w' c fd type ↔ Registering w caller fd type accepts := by
  cases hstep with
  | adds _ cs _ _ _ _ k hstack hc =>
      rcases disciplined_adds caller fd type k (h.calling c _ hc) with ⟨hyes, _, hno⟩
      -- The caller is inside `addEvent`, so it is in no slot yet.
      have hout := (h.idle c (by rw [hc]; rfl)).1
      have hadded := addEvent_added c fd type accepts w.registry
      generalize (addEvent c fd type accepts w.registry).1 = r at hadded
      generalize (addEvent c fd type accepts w.registry).2 = ok at hadded
      have hself : (w.setStatus c (.calling (k ok))).status c = .calling (k ok) :=
        Function.update_self ..
      have hsettled : Settled { w.setStatus c (.calling (k ok)) with registry := r } c fd type ↔
          (r.slot fd type = some c ∧ ∃ mask, r.interest fd = some mask ∧
            mask &&& type.newEvent ≠ 0) ∨ Fails (k ok) := by
        refine or_congr Iff.rfl ⟨fun hp => ?_, fun hp => ⟨_, hself, hp⟩⟩
        rcases hp with ⟨p, hp, hfails⟩
        cases hself.symm.trans hp
        exact hfails
      rw [hsettled]
      cases hadded with
      | entered hnone =>
          -- No entry, no interest: `epoll_ctl` is asked to add, and only a refusal can stop it.
          have hfresh : w.registry.interest fd = none := by
            cases hi : w.registry.interest fd with
            | none => rfl
            | some mask =>
                exact absurd (h.listed fd (by rw [hi]; rfl)).1 (by rw [hnone]; decide)
          rw [slot_epollCtl, slot_setEntry_self, epollCtl_add_interest _ _ _
            (w.registry.setEntry fd _)
            hfresh, setEntry_opened]
          constructor
          · rintro (⟨_, mask, hmask, _⟩ | hfails)
            · left
              by_cases hok : (w.registry.opened fd && accepts) = true
              · rw [Bool.and_eq_true] at hok
                exact ⟨hnone, hok.1, hok.2⟩
              · rw [if_neg hok] at hmask
                cases hmask
            · exact absurd hfails (not_fails_of_awaits _ fd type hyes)
          · rintro (⟨_, hopen, haccepts⟩ | ⟨_, e, he, _⟩)
            · refine Or.inl ⟨if_pos rfl, type.newEvent, ?_, newEvent_and_self type⟩
              rw [hopen, haccepts]
              rfl
            · rw [hnone] at he
              cases he
      | duplicate e he hdup =>
          constructor
          · -- Nothing is entered, so all depends on what the caller makes of `false`.
            rintro (⟨hslot, _⟩ | hfails)
            · exact absurd hslot (hout fd type)
            · exact Or.inr ⟨hno.mp hfails, e, he, hdup⟩
          · rintro (⟨hnone, _⟩ | ⟨hcaller, _⟩)
            · rw [he] at hnone
              cases hnone
            · exact Or.inr (hno.mpr hcaller)
      | widened e e' he hnew hroutines =>
          -- The mask is widened, but the slot is not filled, and the caller is told `true`.
          have hslot : ¬ (epollCtl .mod fd e'.events accepts
              (w.registry.setEntry fd (some e'))).1.slot fd type = some c := by
            rw [slot_epollCtl, slot_setEntry_self]
            have hold := hout fd type
            rw [Registry.slot, he] at hold
            simpa only [Option.bind_some, hroutines] using hold
          constructor
          · rintro (⟨hs, _⟩ | hfails)
            · exact absurd hs hslot
            · exact absurd hfails (not_fails_of_awaits _ fd type hyes)
          · rintro (⟨hnone, _⟩ | ⟨_, e'', he'', hdup⟩)
            · rw [he] at hnone
              cases hnone
            · rw [he] at he''
              cases he''
              exact absurd hnew hdup

/-! ## Runs -/

/-- Nobody waits who is not registered: not when it yields, and as long as it waits it
    stays in the table, until it is due. -/
structure Wakeful (w : World) : Prop where
  armed : ∀ c p fd type, w.status c = .calling p → awaits p = some (fd, type) →
    Registered w c fd type
  kept : ∀ c fd type p, w.status c = .parked fd type p →
    c ∈ w.routines ∨ w.registry.slot fd type = some c

/-- Every `addEvent` is a good one. -/
def Orderly (w : World) : Act → Prop
  | .adds _ caller fd type accepts => Registering w caller fd type accepts
  | _ => True

theorem wakeful_initial : Wakeful World.initial :=
  ⟨fun _ _ _ _ h => (by cases h), fun _ _ _ _ h => (by cases h)⟩

/-- A new state of one coroutine, when nobody else is inside a call. -/
theorem Wakeful.setStatus {w : World} (h : Wakeful w) (c : Coroutine) (x : Status)
    (hothers : ∀ c' p, w.status c' = .calling p → c' = c)
    (hcalling : ∀ p, x = .calling p → awaits p = none)
    (hparked : ∀ fd type p, x = .parked fd type p → w.registry.slot fd type = some c) :
    Wakeful (w.setStatus c x) := by
  have hself : (w.setStatus c x).status c = x := Function.update_self ..
  have hother : ∀ c', c' ≠ c → (w.setStatus c x).status c' = w.status c' :=
    fun c' hne => Function.update_of_ne hne ..
  constructor
  · intro c' p fd type hp hawaits
    by_cases hne : c' = c
    · subst hne
      rw [hself] at hp
      rw [hcalling p hp] at hawaits
      cases hawaits
    · rw [hother c' hne] at hp
      exact absurd (hothers c' p hp) hne
  · intro c' fd type p hp
    by_cases hne : c' = c
    · subst hne
      rw [hself] at hp
      exact Or.inr (hparked fd type p hp)
    · rw [hother c' hne] at hp
      exact h.kept c' fd type p hp

theorem Wakeful.setStack {w : World} (h : Wakeful w) (stack : List Coroutine) :
    Wakeful { w with stack := stack } := ⟨h.armed, h.kept⟩

/-- Descriptors are opened and closed while nobody is about to yield. -/
theorem Wakeful.setRegistry {w : World} (h : Wakeful w) (r : Registry)
    (hevents : r.events = w.registry.events)
    (hnobody : ∀ c p, w.status c = .calling p → awaits p = none) :
    Wakeful { w with registry := r } := by
  constructor
  · intro c p fd type hp hawaits
    rw [hnobody c p hp] at hawaits
    cases hawaits
  · intro c fd type p hp
    rcases h.kept c fd type p hp with hdue | hslot
    · exact Or.inl hdue
    · right
      rw [Registry.slot, hevents]
      exact hslot

/-- Only the top of the stack is inside a call. -/
theorem Coherent.top {w : World} (h : Coherent w) (c : Coroutine) (cs : List Coroutine)
    (hstack : w.stack = c :: cs) (c' : Coroutine) (p : Proc Int) (hc' : w.status c' = .calling p) :
    c' = c := by
  have htop := h.running c' p hc'
  rw [hstack] at htop
  exact (Option.some.inj htop).symm

theorem plain_next (call : Call) (k : Reply call → Proc Int) (hplain : call.Plain)
    (h : Disciplined (.call call k)) (reply : Reply call) : awaits (k reply) = none := by
  cases call with
  | addEvent caller fd type => exact absurd hplain id
  | yield fd type => exact absurd hplain id
  | _ => exact h.1 reply

theorem wakeful_adds (w w' : World) (h : Coherent w) (hw : Wakeful w) (c : Coroutine) (caller : Api)
    (fd : Int) (type : EventType) (accepts : Bool)
    (hstep : Step w (.adds c caller fd type accepts) w')
    (hok : Registering w caller fd type accepts) : Wakeful w' := by
  have hsettled := (adds_settled_iff w w' h c caller fd type accepts hstep).mpr hok
  cases hstep with
  | adds _ cs _ _ _ _ k hstack hc =>
      rcases disciplined_adds caller fd type k (h.calling c _ hc) with ⟨hyes, hmay, _⟩
      have hadded := addEvent_added c fd type accepts w.registry
      generalize (addEvent c fd type accepts w.registry).1 = r at hadded hsettled ⊢
      generalize (addEvent c fd type accepts w.registry).2 = ok at hadded hsettled ⊢
      have hself : (w.setStatus c (.calling (k ok))).status c = .calling (k ok) :=
        Function.update_self ..
      have hother : ∀ c', c' ≠ c → (w.setStatus c (.calling (k ok))).status c' = w.status c' :=
        fun c' hne => Function.update_of_ne hne ..
      constructor
      · intro c' p fd' type' hp hawaits
        by_cases hne : c' = c
        · subst hne
          cases hself.symm.trans hp
          -- What it is about to wait for is what `addEvent` was asked for.
          have hsame : some (fd', type') = some (fd, type) := by
            cases ok with
            | true => exact hawaits.symm.trans hyes
            | false =>
                rcases hmay with hnone | hsome
                · rw [hnone] at hawaits
                  cases hawaits
                · exact hawaits.symm.trans hsome
          cases hsame
          rcases hsettled with hreg | ⟨q, hq, hfails⟩
          · exact hreg
          · cases hself.symm.trans hq
            exact absurd hfails (not_fails_of_awaits _ _ _ hawaits)
        · exact absurd (h.top c cs hstack c' p ((hother c' hne).symm.trans hp)) hne
      · intro c' fd' type' p hp
        by_cases hne : c' = c
        · subst hne
          cases hself.symm.trans hp
        · rcases hw.kept c' fd' type' p ((hother c' hne).symm.trans hp) with hdue | hslot
          · exact Or.inl hdue
          · right
            rcases added_slot c fd type accepts ok w.registry r hadded fd' type' with
              hsame | ⟨_, rfl, rfl, hnone, _⟩
            · exact hsame.trans hslot
            · rw [Registry.slot, hnone] at hslot
              cases hslot

theorem wakeful_resumes (w : World) (h : Coherent w) (hw : Wakeful w) (c : Coroutine)
    (cs : List Coroutine) (hstack : w.stack = []) (hdue : w.routines = c :: cs) :
    Wakeful ({ w with routines := cs }.resume c) := by
  rcases (h.due c (by rw [hdue]; exact List.mem_cons_self)).1 with ⟨fd, type, p, hp⟩
  -- The loop runs with an empty stack, so nobody is inside a call.
  have hnobody : ∀ c' q, w.status c' ≠ .calling q := by
    intro c' q hq
    have htop := h.running c' q hq
    rw [hstack] at htop
    cases htop
  have hresume : { w with routines := cs }.resume c
      = (World.setStatus c (.calling p) { w with routines := cs }).push c := by
    simp only [World.resume, hp]
  have hself : (w.setStatus c (.calling p)).status c = .calling p := Function.update_self ..
  have hother : ∀ c', c' ≠ c → (w.setStatus c (.calling p)).status c' = w.status c' :=
    fun c' hne => Function.update_of_ne hne ..
  rw [hresume]
  constructor
  · intro c' q fd' type' hq hawaits
    by_cases hne : c' = c
    · subst hne
      cases hself.symm.trans hq
      -- Behind its `yield` a call does not wait again without another `addEvent`.
      rw [(h.parked c' fd type p hp).2] at hawaits
      cases hawaits
    · exact absurd ((hother c' hne).symm.trans hq) (hnobody c' q)
  · intro c' fd' type' q hq
    by_cases hne : c' = c
    · subst hne
      cases hself.symm.trans hq
    · rcases hw.kept c' fd' type' q ((hother c' hne).symm.trans hq) with hmem | hslot
      · rw [hdue] at hmem
        exact Or.inl (List.mem_of_ne_of_mem hne hmem)
      · exact Or.inr hslot

theorem wakeful_step (w : World) (a : Act) (w' : World) (h : Coherent w) (hw : Wakeful w)
    (hstep : Step w a w') (hok : Orderly w a) : Wakeful w' := by
  cases hstep with
  | opens fd hfree hclosed =>
      exact hw.setRegistry _ rfl fun c p hp => absurd hp (h.free hfree c p)
  | closes fd hfree => exact hw.setRegistry _ rfl fun c p hp => absurd hp (h.free hfree c p)
  | spawns c hfree hfresh =>
      simp only [World.resume, hfresh]
      exact (hw.setStatus c .active (fun c' p hp => absurd hp (h.free hfree c' p))
        (fun _ hp => by cases hp) (fun _ _ _ hp => by cases hp)).setStack _
  | invokes c cs call hstack hc =>
      -- A new call has not come to its `addEvent` yet.
      exact hw.setStatus c _ (h.top c cs hstack)
        (fun p hp => by cases hp; exact (proper_body call).2) (fun _ _ _ hp => by cases hp)
  | asks c cs call k reply hstack hc hplain hfd =>
      -- Only `addEvent` brings a call to where it must be registered.
      have hnext := plain_next call k hplain (h.calling c _ hc) reply
      refine (hw.setStatus c (.calling (k reply)) (h.top c cs hstack)
        (fun p hp => by cases hp; exact hnext) (fun _ _ _ hp => by cases hp)).setRegistry _
        (effect_events ..) ?_
      intro c' p hp
      by_cases hne : c' = c
      · subst hne
        cases (Function.update_self ..).symm.trans hp
        exact hnext
      · exact absurd (h.top c cs hstack c' p ((Function.update_of_ne hne ..).symm.trans hp)) hne
  | adds c cs caller fd type accepts k hstack hc =>
      exact wakeful_adds w _ h hw c caller fd type accepts
        (Step.adds w c cs caller fd type accepts k hstack hc) hok
  | yields c cs fd type k hstack hc =>
      exact (hw.setStatus c _ (h.top c cs hstack) (fun _ hp => by cases hp)
        -- This is what `armed` is for.
        (fun _ _ _ hp => by cases hp; exact (hw.armed c _ fd type hc rfl).1)).setStack _
  | returns c cs ret hstack hc =>
      exact hw.setStatus c .active (h.top c cs hstack) (fun _ hp => by cases hp)
        (fun _ _ _ hp => by cases hp)
  | exits c cs hstack hc =>
      exact (hw.setStatus c .exited (h.top c cs hstack) (fun _ hp => by cases hp)
        (fun _ _ _ hp => by cases hp)).setStack _
  | dispatches fd hstack hidle hready =>
      constructor
      · intro c p fd' type hp _
        have htop := h.running c p hp
        rw [hstack] at htop
        cases htop
      · intro c fd' type p hp
        rcases hw.kept c fd' type p hp with hdue | hslot
        · rw [hidle] at hdue
          exact absurd hdue List.not_mem_nil
        · -- The slots of the descriptor are emptied into the loop's array, the others are left.
          by_cases hfd : fd' = fd
          · subst hfd
            exact Or.inl ((mem_dispatch w.registry fd' c).mpr ⟨type, hslot⟩)
          · right
            rw [dispatch_slot, if_neg hfd]
            exact hslot
  | resumes c cs hstack hdue => exact wakeful_resumes w h hw c cs hstack hdue

/-! ## The loop -/

/-- What the loop has resumed. -/
def resumed (acts : List Act) : List Coroutine :=
  acts.filterMap fun a => match a with
    | .resumes c => some c
    | _ => none

theorem resume_routines (w : World) (c : Coroutine) : (w.resume c).routines = w.routines := by
  unfold World.resume
  cases w.status c <;> rfl

theorem routines_step (w w' : World) (a : Act) (hstep : Step w a w')
    (ha : ∀ fd, a ≠ .dispatches fd) : resumed [a] ++ w'.routines = w.routines := by
  cases hstep with
  | spawns c hfree hfresh => exact resume_routines w c
  | dispatches fd hstack hidle hready => exact absurd rfl (ha fd)
  | resumes c cs hstack hdue =>
      rw [resume_routines, hdue]
      rfl
  | _ => rfl

/-- Between two dispatches the loop resumes its array, in order. -/
theorem routines_run (w w' : World) (acts : List Act) (hrun : Run w acts w')
    (hacts : ∀ fd, Act.dispatches fd ∉ acts) : resumed acts ++ w'.routines = w.routines := by
  induction hrun with
  | refl w => rfl
  | cons w1 w2 w3 a acts hstep _ ih =>
      have hrest := ih fun fd hmem => hacts fd (List.mem_cons_of_mem a hmem)
      have hfirst := routines_step w1 w2 a hstep fun fd heq =>
        hacts fd (heq ▸ List.mem_cons_self)
      rw [← hfirst, ← hrest, ← List.append_assoc]
      congr 1
      rw [resumed, ← List.singleton_append]
      exact List.filterMap_append

/-- In every state of every run: `addEvent` settles the matter exactly in the good cases,
    and if all of them so far were good, nobody waits who is not registered. A dispatch
    has every coroutine in the descriptor's slots resumed once and nobody else, before
    the next one; and who is resumed has yielded in a call, and goes on with it. -/
theorem wakeups (acts : List Act) (w : World) (hrun : Run World.initial acts w) :
    (∀ c caller fd type accepts w', Step w (.adds c caller fd type accepts) w' →
      (Settled w' c fd type ↔ Registering w caller fd type accepts)) ∧
    (Steps (Guarded Step Orderly) World.initial acts w → Wakeful w) ∧
    (∀ fd w1 acts' w2, Step w (.dispatches fd) w1 → Run w1 acts' w2 →
      (∀ fd', Act.dispatches fd' ∉ acts') →
      (resumed acts' ++ w2.routines).Nodup ∧
        ∀ c, c ∈ resumed acts' ++ w2.routines ↔ ∃ type, w.registry.slot fd type = some c) ∧
    (∀ c w', Step w (.resumes c) w' → ∃ fd type p, w.status c = .parked fd type p ∧
      w'.status c = .calling p ∧ w'.stack = [c]) := by
  have h := coherent_run w acts hrun
  refine ⟨?_, ?_, ?_, ?_⟩
  · intro c caller fd type accepts w' hstep
    exact adds_settled_iff w w' h c caller fd type accepts hstep
  · intro hguarded
    exact (guarded_invariant Orderly Coherent Wakeful (fun w a w' => coherent_step w w' a)
      wakeful_step _ w acts hguarded coherent_initial wakeful_initial).2
  · intro fd w1 acts' w2 hstep hrest hacts
    rw [routines_run w1 w2 acts' hrest hacts]
    cases hstep with
    | dispatches _ hstack hidle hready =>
        exact ⟨h.nodup_dispatch fd, fun c => mem_dispatch w.registry fd c⟩
  · intro c w' hstep
    cases hstep with
    | resumes _ cs hstack hdue =>
        rcases (h.due c (by rw [hdue]; exact List.mem_cons_self)).1 with ⟨fd, type, p, hp⟩
        refine ⟨fd, type, p, hp, ?_⟩
        simp only [World.resume, hp, World.push, World.setStatus, hstack, Function.update_self,
          and_self]

/-- A coroutine that reads from a descriptor on which nobody waits. -/
theorem wakeups_read :
    ∃ acts w p, Run World.initial acts w ∧ w.status 0 = .calling p ∧ awaits p = some (5, .read) ∧
      Registered w 0 5 .read := by
  have hrun := Steps.cons _ _ _ _ _ (show Guarded Step Orderly _ _ _ from
      ⟨Step.opens World.initial 5 rfl rfl, trivial⟩) <|
    Steps.cons _ _ _ _ _ ⟨Step.spawns _ 0 rfl rfl, trivial⟩ <|
    Steps.cons _ _ _ _ _ ⟨Step.invokes _ 0 [] (.read 5 10) rfl rfl, trivial⟩ <|
    Steps.cons _ _ _ _ _ ⟨Step.asks _ 0 [] (.read 5 10) _ (-1 : Int) rfl rfl trivial
      (fun _ h => by cases h), trivial⟩ <|
    Steps.cons _ _ _ _ _ ⟨Step.adds _ 0 [] .read 5 .read true _ rfl rfl,
      Or.inl ⟨rfl, rfl, rfl⟩⟩ <| Steps.refl _
  exact ⟨_, _, _, steps_of_guarded _ _ _ _ hrun, rfl, rfl,
    ((wakeups _ _ (steps_of_guarded _ _ _ _ hrun)).2.1 hrun).armed 0 _ 5 .read rfl rfl⟩

/-- A coroutine accepts on descriptor 5. Another one closes it and sleeps; its timer is
    given number 5, whose entry is still there, so it yields without being in it. -/
theorem wakeups_reused :
    ¬ ∀ (acts : List Act) (w : World), Run World.initial acts w →
      ∀ c p fd type, w.status c = .calling p → awaits p = some (fd, type) →
        Registered w c fd type := by
  intro h
  have hrun := Steps.cons _ _ _ _ _ (Step.opens World.initial 5 rfl rfl) <|
    Steps.cons _ _ _ _ _ (Step.spawns _ 0 rfl rfl) <|
    Steps.cons _ _ _ _ _ (Step.invokes _ 0 [] (.accept4 5) rfl rfl) <|
    Steps.cons _ _ _ _ _ (Step.asks _ 0 [] (.accept4 5) _ (-1 : Int) rfl rfl trivial
      (fun _ h => by cases h)) <|
    Steps.cons _ _ _ _ _ (Step.adds _ 0 [] .accept4 5 .read true _ rfl rfl) <|
    Steps.cons _ _ _ _ _ (Step.yields _ 0 [] 5 .read _ rfl rfl) <|
    Steps.cons _ _ _ _ _ (Step.spawns _ 1 rfl rfl) <|
    Steps.cons _ _ _ _ _ (Step.closes _ 5 rfl) <|
    Steps.cons _ _ _ _ _ (Step.invokes _ 1 [] (.usleep 1) rfl rfl) <|
    Steps.cons _ _ _ _ _ (Step.asks _ 1 [] .timerfdCreate _ (5 : Int) rfl rfl trivial
      (fun _ h => by cases h; rfl)) <|
    Steps.cons _ _ _ _ _ (Step.asks _ 1 [] (.timerfdSettime 5 0 1000) _ false rfl rfl trivial
      (fun _ h => by cases h)) <|
    Steps.cons _ _ _ _ _ (Step.adds _ 1 [] .usleep 5 .read true _ rfl rfl) <| Steps.refl _
  have hslot := (h _ _ hrun 1 _ 5 .read rfl rfl).1
  exact absurd hslot (show (some 0 : Option Coroutine) ≠ some 1 by decide)

end Co
