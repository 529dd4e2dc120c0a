import Trpc.Theory.Co.Waits

/-!
# The Table of Waiting Coroutines

What holds in every state of the thread, whatever the coroutines do: a coroutine that
is in a slot of the table is waiting for just that descriptor and event; the kernel's
list has no descriptor that the table does not have; and the coroutines that the loop
has still to resume are waiting and are no longer in the table.

None of this says that a coroutine that waits is in the table. That is not so in
every state, and the next module is about it.

## Main definitions

* `Registry.slot`: The table, slot by slot.
* `Added`: The outcomes of `addEvent`.
* `Coherent`: The invariant.

## Theorems

* `addEvent_added`: What `addEvent` does.
* `coherent_step`: A step keeps the invariant.
-/

namespace Co

open Trpc Interaction Transition

/-- Who is in a slot of the table. -/
def Registry.slot (r : Registry) (fd : Int) (type : EventType) : Option Coroutine :=
  (r.events fd).bind fun e => e.routines type

/-- What a coroutine is waiting for, or about to. -/
def Status.waits : Status → Option (Int × EventType)
  | .calling p => awaits p
  | .parked fd type _ => some (fd, type)
  | _ => none

/-! ## Changes of the table -/

def Registry.setEntry (fd : Int) (e : Option Event) (r : Registry) : Registry :=
  { r with events := Function.update r.events fd e }

@[simp] theorem setEntry_events_self (fd : Int) (e : Option Event) (r : Registry) :
    (r.setEntry fd e).events fd = e := Function.update_self ..

@[simp] theorem setEntry_interest (fd : Int) (e : Option Event) (r : Registry) :
    (r.setEntry fd e).interest = r.interest := rfl

@[simp] theorem setEntry_opened (fd : Int) (e : Option Event) (r : Registry) :
    (r.setEntry fd e).opened = r.opened := rfl

theorem setEntry_events_ne (fd fd' : Int) (e : Option Event) (r : Registry) (h : fd' ≠ fd) :
    (r.setEntry fd e).events fd' = r.events fd' := Function.update_of_ne h ..

@[simp] theorem epollCtl_events (op : CtlOp) (fd : Int) (mask : UInt32) (accepts : Bool)
    (r : Registry) : (epollCtl op fd mask accepts r).1.events = r.events := by
  cases op <;> simp only [epollCtl] <;> split <;> rfl

@[simp] theorem epollCtl_opened (op : CtlOp) (fd : Int) (mask : UInt32) (accepts : Bool)
    (r : Registry) : (epollCtl op fd mask accepts r).1.opened = r.opened := by
  cases op <;> simp only [epollCtl] <;> split <;> rfl

theorem epollCtl_interest_ne (op : CtlOp) (fd fd' : Int) (mask : UInt32) (accepts : Bool)
    (r : Registry) (h : fd' ≠ fd) :
    (epollCtl op fd mask accepts r).1.interest fd' = r.interest fd' := by
  cases op <;> simp only [epollCtl] <;> split <;> simp only [Function.update_of_ne h]

/-- A descriptor gets onto the list if it is open and the kernel has room for it. -/
theorem epollCtl_add_interest (fd : Int) (mask : UInt32) (accepts : Bool) (r : Registry)
    (h : r.interest fd = none) :
    (epollCtl .add fd mask accepts r).1.interest fd
      = if r.opened fd && accepts then some mask else none := by
  simp only [epollCtl, h, Option.isNone_none, Bool.and_true]
  by_cases hok : (r.opened fd && accepts) = true
  · simp only [hok, if_true, Function.update_self]
  · simp only [hok, Bool.false_eq_true, if_false, h]

/-- Only descriptors that are open get onto the kernel's list. -/
theorem epollCtl_interest_opened (op : CtlOp) (fd : Int) (mask : UInt32) (accepts : Bool)
    (r : Registry) (hopen : (r.interest fd).isSome → r.opened fd = true)
    (h : ((epollCtl op fd mask accepts r).1.interest fd).isSome) : r.opened fd = true := by
  by_cases ho : r.opened fd = true
  · exact ho
  · cases op <;>
      simp only [epollCtl, ho, Bool.false_and, Bool.false_eq_true, if_false] at h <;>
      exact hopen h

/-- A descriptor that is taken off the list is not there, whether or not it was. -/
theorem epollCtl_del_interest (fd : Int) (r : Registry)
    (hopen : (r.interest fd).isSome → r.opened fd = true) :
    (epollCtl .del fd 0 true r).1.interest fd = none := by
  simp only [epollCtl]
  cases hi : r.interest fd with
  | none => simp only [Option.isSome_none, Bool.and_false, Bool.false_eq_true, if_false, hi]
  | some mask =>
      have ho := hopen (by rw [hi]; rfl)
      simp only [ho, Option.isSome_some, Bool.and_true, if_true, Function.update_self]

/-- The entry that `addEvent` makes. -/
def newEntry (c : Coroutine) (fd : Int) (type : EventType) : Event :=
  ⟨fun slot => if slot = type then some c else none, type.newEvent, fd⟩

/-- What `addEvent` can do, and what it returns. -/
inductive Added (c : Coroutine) (fd : Int) (type : EventType) (accepts : Bool) (r : Registry) :
    Registry → Bool → Prop
  /-- There was no entry. -/
  | entered : r.events fd = none →
      Added c fd type accepts r
        (epollCtl .add fd type.newEvent accepts (r.setEntry fd (some (newEntry c fd type)))).1 true
  /-- There was one, with the event. -/
  | duplicate (e : Event) : r.events fd = some e → e.events &&& type.newEvent ≠ 0 →
      Added c fd type accepts r r false
  /-- There was one, without the event. -/
  | widened (e e' : Event) : r.events fd = some e → e.events &&& type.newEvent = 0 →
      e'.routines = e.routines →
      Added c fd type accepts r
        (epollCtl .mod fd e'.events accepts (r.setEntry fd (some e'))).1 true

/-- These are all the outcomes there are. -/
theorem addEvent_added (c : Coroutine) (fd : Int) (type : EventType) (accepts : Bool)
    (r : Registry) :
    Added c fd type accepts r (addEvent c fd type accepts r).1
      (addEvent c fd type accepts r).2 := by
  unfold addEvent
  cases he : r.events fd with
  | none =>
      -- A new entry has no event yet.
      have hnew : ¬ (0 : UInt32) &&& type.newEvent ≠ 0 := by cases type <;> decide
      have hmask : (0 : UInt32) ||| type.newEvent = type.newEvent := by cases type <;> decide
      simp only [setEvent, if_neg hnew, hmask, Function.update_idem]
      exact Added.entered he
  | some e =>
      by_cases hdup : e.events &&& type.newEvent ≠ 0
      · simp only [setEvent, if_pos hdup, Bool.false_eq_true, if_false]
        exact Added.duplicate e he hdup
      · simp only [setEvent, if_neg hdup]
        exact Added.widened e _ he (not_not.mp hdup) rfl

theorem slot_epollCtl (op : CtlOp) (fd : Int) (mask : UInt32) (accepts : Bool) (r : Registry)
    (fd' : Int) (type : EventType) :
    (epollCtl op fd mask accepts r).1.slot fd' type = r.slot fd' type := by
  rw [Registry.slot, Registry.slot, epollCtl_events]

theorem slot_setEntry_self (fd : Int) (e : Option Event) (r : Registry) (type : EventType) :
    (r.setEntry fd e).slot fd type = e.bind fun e => e.routines type := by
  rw [Registry.slot, setEntry_events_self]

theorem slot_setEntry_ne (fd fd' : Int) (e : Option Event) (r : Registry) (type : EventType)
    (h : fd' ≠ fd) : (r.setEntry fd e).slot fd' type = r.slot fd' type := by
  rw [Registry.slot, Registry.slot, setEntry_events_ne fd fd' e r h]

/-- `addEvent` fills the slot that it was asked for, or none. -/
theorem added_slot (c : Coroutine) (fd : Int) (type : EventType) (accepts ok : Bool)
    (r r' : Registry) (h : Added c fd type accepts r r' ok) (fd' : Int) (type' : EventType) :
    r'.slot fd' type' = r.slot fd' type' ∨
      (r'.slot fd' type' = some c ∧ fd' = fd ∧ type' = type ∧ r.events fd = none ∧ ok = true) := by
  by_cases hfd : fd' = fd
  · subst hfd
    cases h with
    | duplicate e he hdup => exact Or.inl rfl
    | entered hnone =>
        rw [slot_epollCtl, slot_setEntry_self, Option.bind_some, newEntry]
        by_cases htype : type' = type
        · exact Or.inr ⟨if_pos htype, rfl, htype, hnone, rfl⟩
        · rw [Registry.slot, hnone]
          exact Or.inl (if_neg htype)
    -- The event is added to the entry, but nobody is put into its slot.
    | widened e e' he hnew hroutines =>
        left
        rw [slot_epollCtl, slot_setEntry_self, Registry.slot, he, Option.bind_some,
          Option.bind_some,
          hroutines]
  · left
    cases h with
    | duplicate e he hdup => rfl
    | entered hnone => rw [slot_epollCtl, slot_setEntry_ne _ _ _ _ _ hfd]
    | widened e e' he hnew hroutines => rw [slot_epollCtl, slot_setEntry_ne _ _ _ _ _ hfd]

/-- The kernel's list gains no descriptor without an entry, and none that is closed. -/
theorem added_listed (c : Coroutine) (fd : Int) (type : EventType) (accepts ok : Bool)
    (r r' : Registry) (h : Added c fd type accepts r r' ok)
    (hlisted : ∀ fd, (r.interest fd).isSome → (r.events fd).isSome ∧ r.opened fd = true)
    (fd' : Int) (hi : (r'.interest fd').isSome) :
    (r'.events fd').isSome ∧ r'.opened fd' = true := by
  -- An entry is set in both cases in which the kernel is asked at all.
  have hset : ∀ op mask e,
      ((epollCtl op fd mask accepts (r.setEntry fd (some e))).1.interest fd').isSome →
      ((epollCtl op fd mask accepts (r.setEntry fd (some e))).1.events fd').isSome ∧
        (epollCtl op fd mask accepts (r.setEntry fd (some e))).1.opened fd' = true := by
    intro op mask e hi
    rw [epollCtl_events, epollCtl_opened, setEntry_opened]
    by_cases hfd : fd' = fd
    · subst hfd
      rw [setEntry_events_self]
      exact ⟨rfl, epollCtl_interest_opened op fd' mask accepts (r.setEntry fd' (some e))
        (fun h => (hlisted fd' h).2) hi⟩
    · rw [epollCtl_interest_ne _ _ _ _ _ _ hfd] at hi
      rw [setEntry_events_ne _ _ _ _ hfd]
      exact hlisted fd' hi
  cases h with
  | duplicate e he hdup => exact hlisted fd' hi
  | entered hnone => exact hset _ _ _ hi
  | widened e e' he hnew hroutines => exact hset _ _ _ hi

/-! ## The invariant -/

structure Coherent (w : World) : Prop where
  /-- Who is in the table is waiting for it. -/
  slots : ∀ fd type c, w.registry.slot fd type = some c → (w.status c).waits = some (fd, type)
  /-- What the kernel will report has an entry, and is open. -/
  listed : ∀ fd, (w.registry.interest fd).isSome →
    (w.registry.events fd).isSome ∧ w.registry.opened fd = true
  calling : ∀ c p, w.status c = .calling p → Disciplined p
  parked : ∀ c fd type p, w.status c = .parked fd type p → Proper p
  /-- Only the coroutine on top of the stack is inside a call. -/
  running : ∀ c p, w.status c = .calling p → w.stack.head? = some c
  nodup : w.routines.Nodup
  /-- Who is to be resumed has yielded in a call, and is out of the table. -/
  due : ∀ c ∈ w.routines, (∃ fd type p, w.status c = .parked fd type p) ∧
    ∀ fd type, w.registry.slot fd type ≠ some c

/-- A coroutine that is running its own code is in no slot and not due. -/
theorem Coherent.idle {w : World} (h : Coherent w) (c : Coroutine)
    (hc : (w.status c).waits = none) :
    (∀ fd type, w.registry.slot fd type ≠ some c) ∧ c ∉ w.routines := by
  constructor
  · intro fd type hslot
    rw [h.slots fd type c hslot] at hc
    cases hc
  · intro hmem
    rcases (h.due c hmem).1 with ⟨fd, type, p, hp⟩
    rw [hp] at hc
    cases hc

/-- A coroutine that is not due may go over to another state, if it still waits for
    what it is in the table for. -/
theorem Coherent.setStatus {w : World} (h : Coherent w) (c : Coroutine) (x : Status)
    (hslot : ∀ fd type, w.registry.slot fd type = some c → x.waits = some (fd, type))
    (hdue : c ∉ w.routines)
    (hcalling : ∀ p, x = .calling p → Disciplined p ∧ w.stack.head? = some c)
    (hparked : ∀ fd type p, x = .parked fd type p → Proper p) : Coherent (w.setStatus c x) := by
  have hself : (w.setStatus c x).status c = x := Function.update_self ..
  have hother : ∀ c', c' ≠ c → (w.setStatus c x).status c' = w.status c' :=
    fun c' hne => Function.update_of_ne hne ..
  refine ⟨?_, h.listed, ?_, ?_, ?_, h.nodup, ?_⟩
  · -- Whoever is in a slot still waits for it.
    intro fd type c' hc'
    by_cases hne : c' = c
    · subst hne
      rw [hself]
      exact hslot fd type hc'
    · rw [hother c' hne]
      exact h.slots fd type c' hc'
  · intro c' p hp
    by_cases hne : c' = c
    · subst hne
      rw [hself] at hp
      exact (hcalling p hp).1
    · rw [hother c' hne] at hp
      exact h.calling c' p hp
  · intro c' fd type p hp
    by_cases hne : c' = c
    · subst hne
      rw [hself] at hp
      exact hparked fd type p hp
    · rw [hother c' hne] at hp
      exact h.parked c' fd type p hp
  · intro c' p hp
    by_cases hne : c' = c
    · subst hne
      rw [hself] at hp
      exact (hcalling p hp).2
    · rw [hother c' hne] at hp
      exact h.running c' p hp
  · intro c' hmem
    -- What is due is somebody else.
    have hne : c' ≠ c := fun h => hdue (h ▸ hmem)
    rw [hother c' hne]
    exact h.due c' hmem

/-- Descriptors are opened and closed without the table's noticing. -/
theorem Coherent.setRegistry {w : World} (h : Coherent w) (r : Registry)
    (hevents : r.events = w.registry.events)
    (hinterest : ∀ fd, (r.interest fd).isSome →
      (w.registry.interest fd).isSome ∧ (w.registry.opened fd = true → r.opened fd = true)) :
    Coherent { w with registry := r } := by
  have hslot : ∀ fd type, r.slot fd type = w.registry.slot fd type := by
    intro fd type
    rw [Registry.slot, Registry.slot, hevents]
  refine ⟨?_, ?_, h.calling, h.parked, h.running, h.nodup, ?_⟩
  · intro fd type c hc
    rw [hslot] at hc
    exact h.slots fd type c hc
  · intro fd hi
    rcases h.listed fd (hinterest fd hi).1 with ⟨hentry, hopen⟩
    exact ⟨by rw [hevents]; exact hentry, (hinterest fd hi).2 hopen⟩
  · intro c hmem
    refine ⟨(h.due c hmem).1, fun fd type => ?_⟩
    rw [hslot]
    exact (h.due c hmem).2 fd type

/-- The stack is nothing to the table, but who is inside a call must be on top. -/
theorem Coherent.setStack {w : World} (h : Coherent w) (stack : List Coroutine)
    (htop : ∀ c p, w.status c = .calling p → stack.head? = some c) :
    Coherent { w with stack := stack } :=
  ⟨h.slots, h.listed, h.calling, h.parked, htop, h.nodup, h.due⟩

/-- When code outside this library runs, nobody is inside a call. -/
theorem Coherent.free {w : World} (h : Coherent w) (hfree : w.Free) (c : Coroutine) (p : Proc Int) :
    w.status c ≠ .calling p := by
  intro hc
  have htop := h.running c p hc
  rw [World.Free] at hfree
  cases hstack : w.stack with
  | nil =>
      rw [hstack] at htop
      cases htop
  | cons c' cs =>
      rw [hstack] at htop hfree
      cases htop
      simp only [hc] at hfree
      cases hfree

/-- When the top of the stack goes over to another state and is popped, nobody is. -/
theorem Coherent.pop {w : World} (h : Coherent w) (c : Coroutine) (cs : List Coroutine)
    (x : Status) (hstack : w.stack = c :: cs) (hx : ∀ p, x ≠ .calling p)
    (hset : Coherent (w.setStatus c x)) : Coherent (w.setStatus c x).pop := by
  refine hset.setStack _ fun c' p hc' => ?_
  exfalso
  by_cases hne : c' = c
  · subst hne
    exact hx p ((Function.update_self ..).symm.trans hc')
  · have htop := h.running c' p ((Function.update_of_ne hne ..).symm.trans hc')
    rw [hstack] at htop
    exact hne (Option.some.inj htop).symm

/-- What is on the list stays open when something is opened. -/
theorem open_interest (fd : Int) (r : Registry) (fd' : Int)
    (hi : ((r.open fd).interest fd').isSome) :
    (r.interest fd').isSome ∧ (r.opened fd' = true → (r.open fd).opened fd' = true) := by
  refine ⟨hi, fun hopen => ?_⟩
  by_cases hfd : fd' = fd
  · subst hfd
    exact Function.update_self ..
  · exact (Function.update_of_ne hfd ..).trans hopen

/-- What is closed goes off the list. -/
theorem close_interest (fd : Int) (r : Registry) (fd' : Int)
    (hi : ((r.close fd).interest fd').isSome) :
    (r.interest fd').isSome ∧ (r.opened fd' = true → (r.close fd).opened fd' = true) := by
  by_cases hfd : fd' = fd
  · subst hfd
    simp only [Registry.close, Function.update_self, Option.isSome_none, Bool.false_eq_true] at hi
  · simp only [Registry.close, Function.update_of_ne hfd] at hi ⊢
    exact ⟨hi, id⟩

/-- The same for what a call may have opened. -/
theorem openNew_interest (new : Option Int) (r : Registry) (fd : Int)
    (hi : ((r.openNew new).interest fd).isSome) :
    (r.interest fd).isSome ∧ (r.opened fd = true → (r.openNew new).opened fd = true) := by
  cases new with
  | none => exact ⟨hi, id⟩
  | some fd' => exact open_interest fd' r fd hi

theorem openNew_events (new : Option Int) (r : Registry) : (r.openNew new).events = r.events := by
  cases new <;> rfl

/-- No other call of the system touches the table. -/
theorem effect_events (c : Call) (reply : Reply c) (r : Registry) :
    (effect c reply r).events = r.events := by
  cases c with
  | close fd => rfl
  | _ => exact openNew_events _ r

/-- Nor does it put anything on the kernel's list. -/
theorem effect_interest (c : Call) (reply : Reply c) (r : Registry) (fd : Int)
    (hi : ((effect c reply r).interest fd).isSome) :
    (r.interest fd).isSome ∧ (r.opened fd = true → (effect c reply r).opened fd = true) := by
  cases c with
  | close fd' => exact close_interest fd' r fd hi
  | _ => exact openNew_interest _ r fd hi

theorem coherent_initial : Coherent World.initial :=
  ⟨fun _ _ _ h => (by cases h), fun _ h => (by cases h), fun _ _ h => (by cases h),
    fun _ _ _ _ h => (by cases h), fun _ _ h => (by cases h), List.nodup_nil,
    fun _ h => absurd h List.not_mem_nil⟩

/-- `addEvent` keeps the invariant. Whoever it puts into a slot yields next. -/
theorem coherent_adds (w : World) (h : Coherent w) (c : Coroutine) (caller : Api) (fd : Int)
    (type : EventType) (accepts : Bool) (k : Bool → Proc Int)
    (hc : w.status c = .calling (.call (.addEvent caller fd type) k)) (r : Registry) (ok : Bool)
    (hadded : Added c fd type accepts w.registry r ok) :
    Coherent { w.setStatus c (.calling (k ok)) with registry := r } := by
  have hdisc := h.calling c _ hc
  rcases h.idle c (by rw [hc]; rfl) with ⟨hout, hdue⟩
  -- At most one slot has changed, and it is `c`'s.
  have hslot := added_slot c fd type accepts ok w.registry r hadded
  have hset := h.setStatus c (.calling (k ok)) (fun fd type hs => absurd hs (hout fd type)) hdue
    (fun p hp => by cases hp; exact ⟨hdisc.2 ok, h.running c _ hc⟩) (fun _ _ _ hp => by cases hp)
  refine ⟨?_, added_listed c fd type accepts ok w.registry r hadded h.listed, hset.calling,
    hset.parked, hset.running, h.nodup, ?_⟩
  · intro fd' type' c' hc'
    rcases hslot fd' type' with hsame | ⟨hself, rfl, rfl, _, rfl⟩
    · exact hset.slots fd' type' c' (hsame ▸ hc')
    · -- The slot just filled: `c` yields next.
      cases hself.symm.trans hc'
      have hself : (w.setStatus c (.calling (k true))).status c = .calling (k true) :=
        Function.update_self ..
      exact (congrArg Status.waits hself).trans hdisc.1.1
  · intro c' hmem
    refine ⟨(hset.due c' hmem).1, fun fd' type' => ?_⟩
    rcases hslot fd' type' with hsame | ⟨hself, _⟩
    · rw [hsame]
      exact (hset.due c' hmem).2 fd' type'
    · rw [hself]
      intro heq
      cases heq
      exact hdue hmem

/-- The coroutines of an entry are those in its slots. -/
theorem mem_routines (e : Event) (c : Coroutine) :
    c ∈ [EventType.read, .write, .error].filterMap e.routines ↔
      ∃ type, e.routines type = some c := by
  rw [List.mem_filterMap]
  constructor
  · rintro ⟨type, _, h⟩
    exact ⟨type, h⟩
  · rintro ⟨type, h⟩
    exact ⟨type, by cases type <;> decide, h⟩

/-- The coroutines of an entry, one for each event, are different. -/
theorem Coherent.nodup_routines {w : World} (h : Coherent w) (fd : Int) (e : Event)
    (he : w.registry.events fd = some e) :
    ([EventType.read, .write, .error].filterMap e.routines).Nodup := by
  refine List.Pairwise.filterMap _ ?_ (show [EventType.read, .write, .error].Nodup by decide)
  intro type type' hne c hc c' hc' heq
  subst heq
  apply hne
  -- A coroutine waits for one event, so it is in one slot.
  have hwaits := fun type (hc : e.routines type = some c) =>
    h.slots fd type c (by rw [Registry.slot, he]; exact hc)
  have hboth := (hwaits type hc).symm.trans (hwaits type' hc')
  cases hboth
  rfl

/-- A descriptor is dispatched: its coroutines leave the table. -/
theorem dispatch_slot (r : Registry) (fd fd' : Int) (type : EventType) :
    (dispatch fd r).2.slot fd' type = if fd' = fd then none else r.slot fd' type := by
  unfold dispatch
  cases he : r.events fd with
  | none =>
      by_cases hfd : fd' = fd
      · subst hfd
        rw [if_pos rfl, Registry.slot, he]
        rfl
      · rw [if_neg hfd]
  | some e =>
      by_cases hfd : fd' = fd
      · subst hfd
        rw [if_pos rfl]
        exact slot_setEntry_self fd' none _ type
      · rw [if_neg hfd]
        exact (slot_setEntry_ne fd fd' none _ type hfd).trans (slot_epollCtl ..)

/-- The loop takes all that are in the slots of the descriptor. -/
theorem mem_dispatch (r : Registry) (fd : Int) (c : Coroutine) :
    c ∈ (dispatch fd r).1 ↔ ∃ type, r.slot fd type = some c := by
  unfold dispatch Registry.slot
  cases he : r.events fd with
  | none =>
      refine ⟨fun h => absurd h List.not_mem_nil, fun h => ?_⟩
      rcases h with ⟨_, h⟩
      cases h
  | some e => exact mem_routines e c

/-- It takes nobody twice. -/
theorem Coherent.nodup_dispatch {w : World} (h : Coherent w) (fd : Int) :
    (dispatch fd w.registry).1.Nodup := by
  unfold dispatch
  cases he : w.registry.events fd with
  | none => exact List.nodup_nil
  | some e => exact h.nodup_routines fd e he

/-- The kernel's list loses the descriptor with its entry. -/
theorem Coherent.listed_dispatch {w : World} (h : Coherent w) (fd fd' : Int)
    (hi : ((dispatch fd w.registry).2.interest fd').isSome) :
    ((dispatch fd w.registry).2.events fd').isSome ∧
      (dispatch fd w.registry).2.opened fd' = true := by
  revert hi
  unfold dispatch
  cases he : w.registry.events fd with
  | none => exact h.listed fd'
  | some e =>
      intro hi
      by_cases hfd : fd' = fd
      · subst hfd
        change ((epollCtl .del fd' 0 true w.registry).1.interest fd').isSome at hi
        rw [epollCtl_del_interest fd' w.registry fun hi => (h.listed fd' hi).2] at hi
        cases hi
      · change ((epollCtl .del fd 0 true w.registry).1.interest fd').isSome at hi
        rw [epollCtl_interest_ne _ _ _ _ _ _ hfd] at hi
        simp only [Function.update_of_ne hfd, epollCtl_events, epollCtl_opened]
        exact h.listed fd' hi

/-- A coroutine that is in the table when none runs has yielded. -/
theorem Coherent.parked_of_slot {w : World} (h : Coherent w) (hstack : w.stack = []) (fd : Int)
    (type : EventType) (c : Coroutine) (hc : w.registry.slot fd type = some c) :
    ∃ p, w.status c = .parked fd type p := by
  have hwaits := h.slots fd type c hc
  cases hs : w.status c with
  | parked fd' type' p =>
      rw [hs] at hwaits
      cases hwaits
      exact ⟨p, rfl⟩
  | calling p =>
      have htop := h.running c p hs
      rw [hstack] at htop
      cases htop
  | fresh => rw [hs] at hwaits; cases hwaits
  | active => rw [hs] at hwaits; cases hwaits
  | exited => rw [hs] at hwaits; cases hwaits

/-- The loop empties the slots of a descriptor before it resumes anybody. -/
theorem coherent_dispatches (w : World) (h : Coherent w) (hstack : w.stack = []) (fd : Int) :
    Coherent { w with
      registry := (dispatch fd w.registry).2
      routines := (dispatch fd w.registry).1 } := by
  refine ⟨?_, h.listed_dispatch fd, h.calling, h.parked, h.running, h.nodup_dispatch fd, ?_⟩
  · intro fd' type c hc
    rw [dispatch_slot] at hc
    by_cases hfd : fd' = fd
    · rw [if_pos hfd] at hc
      cases hc
    · rw [if_neg hfd] at hc
      exact h.slots fd' type c hc
  · intro c hmem
    rcases (mem_dispatch w.registry fd c).mp hmem with ⟨type, hc⟩
    rcases h.parked_of_slot hstack fd type c hc with ⟨p, hp⟩
    refine ⟨⟨fd, type, p, hp⟩, fun fd' type' hc' => ?_⟩
    rw [dispatch_slot] at hc'
    by_cases hfd : fd' = fd
    · rw [if_pos hfd] at hc'
      cases hc'
    · rw [if_neg hfd] at hc'
      -- It waits for one descriptor only.
      cases (h.slots fd type c hc).symm.trans (h.slots fd' type' c hc')
      exact hfd rfl

/-- Whoever is resumed is no longer due, and in no slot. -/
theorem coherent_resumes (w : World) (h : Coherent w) (c : Coroutine) (cs : List Coroutine)
    (hstack : w.stack = []) (hdue : w.routines = c :: cs) :
    Coherent ({ w with routines := cs }.resume c) := by
  have hnodup := h.nodup
  rw [hdue, List.nodup_cons] at hnodup
  rcases h.due c (by rw [hdue]; exact List.mem_cons_self) with ⟨⟨fd, type, p, hp⟩, hout⟩
  -- The coroutine is taken from those that are due, and put on the stack.
  have hrest : Coherent { w with routines := cs, stack := [c] } := by
    refine ⟨h.slots, h.listed, h.calling, h.parked, ?_, hnodup.2, fun c' hmem => ?_⟩
    · intro c' q hq
      have htop := h.running c' q hq
      rw [hstack] at htop
      cases htop
    · exact h.due c' (by rw [hdue]; exact List.mem_cons_of_mem c hmem)
  have hresume : { w with routines := cs }.resume c
      = World.setStatus c (.calling p) { w with routines := cs, stack := [c] } := by
    simp only [World.resume, hp, World.setStatus, World.push, hstack]
  rw [hresume]
  exact hrest.setStatus c (.calling p) (fun fd type hs => absurd hs (hout fd type)) hnodup.1
    (fun q hq => by cases hq; exact ⟨(h.parked c fd type p hp).1, rfl⟩)
    (fun _ _ _ hq => by cases hq)

/-- A coroutine that is not waiting may go over to another state. -/
theorem Coherent.setIdle {w : World} (h : Coherent w) (c : Coroutine) (x : Status)
    (hc : (w.status c).waits = none)
    (hcalling : ∀ p, x = .calling p → Disciplined p ∧ w.stack.head? = some c)
    (hparked : ∀ fd type p, x = .parked fd type p → Proper p) : Coherent (w.setStatus c x) :=
  h.setStatus c x (fun fd type hs => absurd hs ((h.idle c hc).1 fd type)) (h.idle c hc).2
    hcalling hparked

/-- A coroutine inside any other call waits for nothing. -/
theorem plain_awaits (call : Call) (k : Reply call → Proc Int) (hplain : call.Plain) :
    awaits (.call call k) = none := by
  cases call with
  | yield fd type => exact absurd hplain id
  | _ => rfl

/-- A step of the thread keeps the invariant. -/
theorem coherent_step (w w' : World) (a : Act) (h : Coherent w) (hstep : Step w a w') :
    Coherent w' := by
  cases hstep with
  | opens fd hfree hclosed => exact h.setRegistry _ rfl (open_interest fd w.registry)
  | closes fd hfree => exact h.setRegistry _ rfl (close_interest fd w.registry)
  | spawns c hfree hfresh =>
      simp only [World.resume, hfresh]
      have hset := h.setIdle c .active (by rw [hfresh]; rfl) (fun _ hp => by cases hp)
        (fun _ _ _ hp => by cases hp)
      -- Code that is free to start another is in no call.
      refine hset.setStack _ fun c' p hc' => absurd hc' ?_
      by_cases hne : c' = c
      · subst hne
        exact fun hc' => (by cases (Function.update_self ..).symm.trans hc')
      · exact fun hc' => h.free hfree c' p ((Function.update_of_ne hne ..).symm.trans hc')
  | invokes c cs call hstack hc =>
      exact h.setIdle c _ (by rw [hc]; rfl)
        (fun p hp => by cases hp; exact ⟨(proper_body call).1, by rw [hstack]; rfl⟩)
        (fun _ _ _ hp => by cases hp)
  | asks c cs call k reply hstack hc hplain hfd =>
      have hset := h.setIdle c (.calling (k reply)) (by rw [hc]; exact plain_awaits call k hplain)
        (fun p hp => by cases hp; exact ⟨(h.calling c _ hc).2 reply, h.running c _ hc⟩)
        (fun _ _ _ hp => by cases hp)
      -- A system call other than `epoll_ctl` leaves the table alone.
      exact hset.setRegistry _ (effect_events ..) (effect_interest call reply w.registry)
  | adds c cs caller fd type accepts k hstack hc =>
      exact coherent_adds w h c caller fd type accepts k hc _ _ (addEvent_added ..)
  | yields c cs fd type k hstack hc =>
      have hdisc := h.calling c _ hc
      -- Who is inside a call is not due: those who are due wait.
      have hdue : c ∉ w.routines := by
        intro hmem
        rcases (h.due c hmem).1 with ⟨_, _, _, hp⟩
        rw [hc] at hp
        cases hp
      have hset := h.setStatus c (.parked fd type (k ()))
        (fun fd' type' hs => (congrArg Status.waits hc).symm.trans (h.slots fd' type' c hs)) hdue
        (fun _ hp => by cases hp)
        (fun _ _ _ hp => by cases hp; exact ⟨hdisc.2 (), hdisc.1 ()⟩)
      exact h.pop c cs _ hstack (fun _ hp => by cases hp) hset
  | returns c cs ret hstack hc =>
      exact h.setIdle c .active (by rw [hc]; rfl) (fun _ hp => by cases hp)
        (fun _ _ _ hp => by cases hp)
  | exits c cs hstack hc =>
      refine h.pop c cs _ hstack (fun _ hp => by cases hp) ?_
      exact h.setIdle c .exited (by rw [hc]; rfl) (fun _ hp => by cases hp)
        (fun _ _ _ hp => by cases hp)
  | dispatches fd hstack hidle hready => exact coherent_dispatches w h hstack fd
  | resumes c cs hstack hdue => exact coherent_resumes w h c cs hstack hdue

/-- The invariant holds in every state of every run. -/
theorem coherent_run (w : World) (acts : List Act) (h : Run World.initial acts w) : Coherent w :=
  steps_invariant Coherent (fun w a w' h hstep => coherent_step w w' a h hstep) _ w acts h
    coherent_initial

end Co
