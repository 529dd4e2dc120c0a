import Trpc.Core.Posix
import Mathlib.Data.List.Forall2
import Mathlib.Data.List.GetD

/-!
# Waiting for Many Descriptors

`co::poll` against `::poll`, on the path where nothing is ready at first and the coroutine
waits. The entries go into an `epoll` of their own, each under its index, and a timer goes
in under the next one. What comes back when the coroutine has been resumed is a list of
indices and events, in any order; the timer is told from the entries by looking its
descriptor up again.

`Waits` is what the kernel does on this path, in its own terms: it knows descriptors, not
indices, and reports a descriptor under the number it was entered with. `polledEntries` is
what `::poll` would say about the same descriptors.

## Main definitions

* `Call.OfPoll`: The calls `co::poll` makes.
* `polledEntries`, `nonzero`: What `::poll` says.
* `Waits`: What the kernel does while `co::poll` waits.
* `EntersAll`: What `co::poll` asks the kernel for before it waits.

## Theorems

* `poll_calls`: `co::poll` makes no other calls, and sets its timer to the timeout.
* `enlist_enters`: Every entry is entered, for its own events.
* `collect_entries`: What is written into the entries, and what is counted.
* `poll_agrees`: `co::poll` says what `::poll` says.
-/

namespace Co

open Trpc Interaction

/-- A call and its reply. -/
abbrev Ev : Type := Interaction.Event Call Reply

/-! ## The calls -/

/-- The calls of `co::poll` with this timeout. -/
def Call.OfPoll (timeout : Int) : Call → Prop
  | .timerfdSettime _ sec nsec =>
    sec = timeout.tdiv 1000 ∧ nsec = timeout.tmod 1000 * 1000000
  | .addEvent caller _ _ => caller = .poll
  | .poll _ | .timerfdCreate | .epollCreate1 | .epollCtl _ _ _ _ | .epollWait _ _ | .close _
  | .setErrno _ | .yield _ _ => True
  | _ => False

theorem enlist_calls (timeout epfd : Int) (fds : List PollFd) (id : Nat) :
    (enlist epfd fds id).Only (Call.OfPoll timeout) := by
  induction fds generalizing id with
  | nil => exact trivial
  | cons pfd fds ih => exact only_bind _ _ (only_perform _ trivial) (fun _ => ih (id + 1))

/-- The wait behind that loop. -/
theorem pollWait_calls (timeout epfd timerfd : Int) (fds : List PollFd) :
    (pollWait epfd timerfd fds).Only (Call.OfPoll timeout) := by
  simp only [pollWait, ask, Prog.bind_def]
  refine only_bind _ _ (enlist_calls timeout epfd fds 0) (fun _ => ?_)
  refine only_bind _ _ (only_perform _ trivial) (fun failed => ?_)
  split
  · exact trivial
  refine only_bind _ _ (only_perform _ rfl) (fun _ => ?_)
  refine only_bind _ _ (only_perform _ trivial) (fun _ => ?_)
  refine only_bind _ _ (only_perform _ trivial) (fun es => ?_)
  cases es <;> exact trivial

/-- `co::poll` makes these calls only. -/
theorem poll_calls (fds : List PollFd) (timeout : Int) :
    (poll fds timeout).Only (Call.OfPoll timeout) := by
  simp only [poll, ask, Prog.bind_def]
  refine only_bind _ _ (only_perform _ trivial) (fun polled => ?_)
  -- Something is ready, or there is no time to wait: the call is over.
  split
  · exact trivial
  refine only_bind _ _ (only_perform _ trivial) (fun epfd => ?_)
  split
  · exact trivial
  refine only_bind _ _ (only_perform _ trivial) (fun timerfd => ?_)
  split
  · exact trivial
  refine only_bind _ _ (only_perform _ ⟨rfl, rfl⟩) (fun failed => ?_)
  split
  · exact only_bind _ _ (only_perform _ trivial) (fun _ => trivial)
  refine only_bind _ _ (pollWait_calls timeout _ _ _) (fun ret => ?_)
  refine only_bind _ _ (only_perform _ trivial) (fun _ => ?_)
  exact only_bind _ _ (only_perform _ trivial) (fun _ => trivial)

/-! ## What `::poll` says -/

/-- The events of a descriptor, if it is among those that are ready. -/
def reported (ready : List (Int × UInt32)) (fd : Int) : Int16 :=
  match ready.lookup fd with
  | some events => Int16.ofNat events.toNat
  | none => 0

/-- The entries with the events of their descriptors. -/
def polledEntries (ready : List (Int × UInt32)) (fds : List PollFd) : List PollFd :=
  fds.map fun pfd => { pfd with revents := reported ready pfd.fd }

/-- The entries with events. -/
def nonzero (fds : List PollFd) : Nat := fds.countP fun pfd => pfd.revents ≠ 0

/-! ## What is written and counted -/

/-- What `collect` does with the events for an entry. -/
def put (fds : List PollFd) (e : Nat × UInt32) : List PollFd :=
  fds.modify e.1 fun pfd => { pfd with revents := Int16.ofNat e.2.toNat }

/-- The events of a report are cut to the `short` of an entry. -/
theorem toInt16_events (events : UInt32) : events.toInt32.toInt16 = Int16.ofNat events.toNat := by
  apply Int16.toBitVec.inj
  have hleft : events.toInt32.toInt16.toBitVec = events.toBitVec.signExtend 16 := rfl
  have hright : (Int16.ofNat events.toNat).toBitVec = BitVec.ofNat 16 events.toNat := rfl
  -- Extending the sign and cutting again is cutting.
  rw [hleft, hright, BitVec.signExtend_eq_setWidth_of_le _ (by omega)]
  exact BitVec.eq_of_toNat_eq (by rw [BitVec.toNat_setWidth, BitVec.toNat_ofNat]; rfl)

/-- The timer's events change nothing but the return value, the others are written where
    they belong. -/
theorem collect_entries (timerfd : Int) (entries : List PollFd)
    (hfresh : ∀ pfd ∈ entries, pfd.fd ≠ timerfd) (es : List (Nat × UInt32))
    (hes : ∀ e ∈ es, e.1 ≤ entries.length) :
    ∀ (ret : Int) (fds : List PollFd), fds.length = entries.length →
      collect timerfd (entries.map PollFd.fd ++ [timerfd]) es ret fds
        = .ok (ret - es.countP fun e => e.1 = entries.length, es.foldl put fds) := by
  induction es with
  | nil =>
      intro ret fds _
      simp only [collect, List.countP_nil, List.foldl_nil, Nat.cast_zero, Int.sub_zero]
  | cons e es ih =>
      intro ret fds hlen
      rcases e with ⟨index, events⟩
      have hrest := ih fun e he => hes e (List.mem_cons_of_mem _ he)
      have hle : index ≤ entries.length := hes _ List.mem_cons_self
      have hmap : (entries.map PollFd.fd).length = entries.length := List.length_map _
      -- An index is that of an entry or that of the timer.
      by_cases hindex : index = entries.length
      · -- The index behind the entries is that of the timer.
        have hget : (entries.map PollFd.fd ++ [timerfd]).getD index 0 = timerfd := by
          rw [List.getD_append_right _ _ _ _ (by omega), hmap, hindex, Nat.sub_self]
          rfl
        have hput : put fds (index, events) = fds := List.modify_eq_self (by omega)
        rw [collect, if_pos hget, hrest _ fds hlen, List.foldl_cons, hput,
          List.countP_cons_of_pos (by exact decide_eq_true hindex)]
        simp only [Nat.cast_add, Nat.cast_one]
        congr 2
        omega
      · have hlt : index < entries.length := by omega
        have hget : (entries.map PollFd.fd ++ [timerfd]).getD index 0 ≠ timerfd := by
          rw [List.getD_append _ _ _ _ (by omega), List.getD_eq_getElem _ _ (by omega),
            List.getElem_map]
          exact hfresh _ (List.getElem_mem hlt)
        rw [collect, if_neg hget, if_pos (by omega), List.foldl_cons,
          List.countP_cons_of_neg (by simpa using hindex), toInt16_events]
        exact hrest ret _ (by rw [List.length_modify, hlen])

theorem put_get (fds : List PollFd) (e : Nat × UInt32) (i : Nat) :
    (put fds e)[i]? = fds[i]?.map fun pfd =>
      if e.1 = i then { pfd with revents := Int16.ofNat e.2.toNat } else pfd :=
  List.getElem?_modify _ _ _ _

/-- An entry is left with the events that came under its index, if some did. -/
theorem foldl_put_get (es : List (Nat × UInt32)) (hes : (es.map Prod.fst).Nodup) (i : Nat) :
    ∀ fds : List PollFd, (es.foldl put fds)[i]? = fds[i]?.map fun pfd =>
      match es.lookup i with
      | some events => { pfd with revents := Int16.ofNat events.toNat }
      | none => pfd := by
  induction es with
  | nil =>
      intro fds
      simp only [List.foldl_nil, List.lookup_nil, Option.map_id']
  | cons e es ih =>
      intro fds
      rcases e with ⟨index, events⟩
      have hnodup := List.nodup_cons.mp hes
      rw [List.foldl_cons, ih hnodup.2, put_get, Option.map_map]
      congr 1
      funext pfd
      -- Its own report comes once, so nothing behind it writes the entry again.
      by_cases hi : index = i
      · subst hi
        have hnone : es.lookup index = none := by
          rw [List.lookup_eq_none_iff]
          intro p hp
          have hne : index ≠ p.1 := by
            rintro rfl
            exact hnodup.1 (List.mem_map.mpr ⟨p, hp, rfl⟩)
          simpa using hne
        simp only [Function.comp, hnone, List.lookup_cons_self, if_true]
      · have hne : (i == index) = false := by simpa using Ne.symm hi
        simp only [Function.comp, List.lookup_cons, hne, if_neg hi]

/-- Each index that comes with events makes one more entry with events. -/
theorem nonzero_foldl_put (es : List (Nat × UInt32)) (hes : (es.map Prod.fst).Nodup)
    (hevents : ∀ e ∈ es, Int16.ofNat e.2.toNat ≠ 0) :
    ∀ fds : List PollFd, (∀ e ∈ es, ∀ pfd, fds[e.1]? = some pfd → pfd.revents = 0) →
      nonzero (es.foldl put fds) = nonzero fds + es.countP fun e => e.1 < fds.length := by
  induction es with
  | nil =>
      intro fds _
      rfl
  | cons e es ih =>
      intro fds hzero
      have hnodup := List.nodup_cons.mp hes
      have hlen : (put fds e).length = fds.length := List.length_modify ..
      -- No index comes twice, so the other entries are still without events.
      have hzero' : ∀ x ∈ es, ∀ pfd, (put fds e)[x.1]? = some pfd → pfd.revents = 0 := by
        intro x hx pfd hpfd
        have hne : e.1 ≠ x.1 := fun h => hnodup.1 (h ▸ List.mem_map_of_mem hx)
        rw [put_get] at hpfd
        simp only [hne, if_false, Option.map_id'] at hpfd
        exact hzero x (List.mem_cons_of_mem e hx) pfd hpfd
      rw [List.foldl_cons, ih hnodup.2 (fun x hx => hevents x (List.mem_cons_of_mem e hx)) _ hzero',
        hlen]
      -- An index behind the entries writes nothing.
      by_cases hlt : e.1 < fds.length
      · rcases List.exists_of_modify (fun pfd : PollFd =>
          { pfd with revents := Int16.ofNat e.2.toNat }) hlt with ⟨l1, pfd, l2, hfds, hl1, hmod⟩
        have hold : pfd.revents = 0 := by
          refine hzero e List.mem_cons_self pfd ?_
          rw [hfds, ← hl1, List.getElem?_append_right (Nat.le_refl _), Nat.sub_self]
          rfl
        have hnew := hevents e List.mem_cons_self
        have hput : put fds e = l1 ++ { pfd with revents := Int16.ofNat e.2.toNat } :: l2 := hmod
        have hone : nonzero (put fds e) = nonzero fds + 1 := by
          rw [hput, hfds]
          simp only [nonzero, List.countP_append, List.countP_cons, hold, hnew, ne_eq,
            not_true_eq_false, not_false_eq_true, decide_true, decide_false, if_true,
            Bool.false_eq_true, if_false]
          omega
        rw [hone, List.countP_cons_of_pos (by exact decide_eq_true hlt)]
        omega
      · have hput : put fds e = fds := List.modify_eq_self (by omega)
        rw [hput, List.countP_cons_of_neg (by simpa using hlt)]

/-! ## Two lists with keys, side by side -/

section Keyed

variable {α β γ : Type} {R : α × γ → β × γ → Prop} {l : List (α × γ)} {m : List (β × γ)}

/-- Each entry of the second list has one in the first. -/
theorem forall₂_left (h : List.Forall₂ R l m) : ∀ e ∈ m, ∃ x ∈ l, R x e := by
  induction h with
  | nil => exact fun e he => absurd he List.not_mem_nil
  | cons hr _ ih =>
      rename_i x e _ _ _
      intro e' he'
      rcases List.mem_cons.mp he' with rfl | he'
      · exact ⟨x, List.mem_cons_self, hr⟩
      · rcases ih e' he' with ⟨x', hx', hr'⟩
        exact ⟨x', List.mem_cons_of_mem x hx', hr'⟩

/-- Where the second key decides the first, the second keys are as different as the
    first. -/
theorem nodup_keys (h : List.Forall₂ R l m)
    (hkey : ∀ x e x' e', R x e → R x' e' → e.1 = e'.1 → x.1 = x'.1)
    (hl : (l.map Prod.fst).Nodup) : (m.map Prod.fst).Nodup := by
  induction h with
  | nil => exact List.nodup_nil
  | cons hr hrest ih =>
      rename_i x e l m
      rw [List.map_cons, List.nodup_cons] at hl ⊢
      refine ⟨fun hmem => hl.1 ?_, ih hl.2⟩
      rcases List.mem_map.mp hmem with ⟨e', he', heq⟩
      rcases forall₂_left hrest e' he' with ⟨x', hx', hr'⟩
      rw [hkey x e x' e' hr hr' heq.symm]
      exact List.mem_map.mpr ⟨x', hx', rfl⟩

/-- What is found under a key of the one is found under the matching key of the other. -/
theorem lookup_keys [DecidableEq α] [DecidableEq β] (h : List.Forall₂ R l m) (a : α) (b : β)
    (hvalue : ∀ x e, R x e → e.2 = x.2) (hkey : ∀ x e, R x e → (x.1 = a ↔ e.1 = b)) :
    m.lookup b = l.lookup a := by
  induction h with
  | nil => rfl
  | cons hr _ ih =>
      rename_i x e _ _ _
      have hx := hkey x e hr
      rw [List.lookup_cons, List.lookup_cons, ih, hvalue x e hr]
      -- The two heads have the keys looked for both or neither.
      by_cases ha : x.1 = a
      · rw [beq_iff_eq.mpr ha.symm, beq_iff_eq.mpr (hx.mp ha).symm]
      · rw [beq_eq_false_iff_ne.mpr (Ne.symm ha),
          beq_eq_false_iff_ne.mpr fun hb => ha (hx.mpr hb.symm)]

end Keyed

/-! ## The kernel's part -/

/-- What the kernel answers while nothing is ready at first: `::poll` leaves no events, and
    what is asked for is done. A new descriptor is none of those in use, and a number that
    is no descriptor is not accepted. -/
def Answers (fds : List PollFd) : Ev → Prop
  | ⟨.poll _, r⟩ => r.1 = 0 ∧ ∀ x ∈ r.2.1, x = 0
  | ⟨.epollCreate1, (fd : Int)⟩ => 0 ≤ fd
  | ⟨.timerfdCreate, (fd : Int)⟩ => 0 ≤ fd ∧ ∀ pfd ∈ fds, pfd.fd ≠ fd
  | ⟨.timerfdSettime _ _ _, (failed : Bool)⟩ => failed = false
  | ⟨.epollCtl _ fd _ _, (failed : Bool)⟩ => failed = decide (fd < 0)
  | _ => True

/-- A descriptor has been entered with this number. -/
def AddedAs (t : List Ev) (fd : Int) (data : Nat) : Prop :=
  ∃ epfd events, (⟨.epollCtl epfd fd data events, false⟩ : Ev) ∈ t

/-- `epoll_wait` reports what is ready, each descriptor under the number it was entered
    with. -/
def Reports (t : List Ev) (ready : List (Int × UInt32)) : Ev → Prop
  | ⟨.epollWait _ _, es⟩ => ∃ es', es = some es' ∧
      List.Forall₂ (fun x e => e.2 = x.2 ∧ AddedAs t x.1 e.1) ready es'.1
  | _ => True

/-- What the kernel does when `co::poll` waits for `fds` and these descriptors, with these
    events, are ready in the end. A descriptor is reported once, and never without an event;
    there are fifteen bits of events. -/
structure Waits (fds : List PollFd) (ready : List (Int × UInt32)) (t : List Ev) : Prop where
  answers : ∀ e ∈ t, Answers fds e
  reports : ∀ e ∈ t, Reports t ready e
  once : (ready.map Prod.fst).Nodup
  events : ∀ x ∈ ready, x.2 ≠ 0 ∧ x.2.toNat < 32768

/-! ## The run -/

/-- A call in front of the rest of a program. -/
theorem runs_ask {α : Type} (c : Call) (f : Reply c → Proc α) (t : List Ev) (x : α)
    (h : Runs (ask c >>= f) t x) : ∃ r t', t = ⟨c, r⟩ :: t' ∧ Runs (f r) t' x :=
  (runs_perform_bind_iff c f t x).mp h

/-- The entries as `::poll` leaves them when nothing is ready. -/
def cleared (fds : List PollFd) : List PollFd := fds.map fun pfd => { pfd with revents := 0 }

/-- A poll that finds nothing clears the entries. -/
theorem zipWith_cleared (fds : List PollFd) (revents : List Int16)
    (hlen : revents.length = fds.length) (hzero : ∀ x ∈ revents, x = 0) :
    fds.zipWith (fun pfd revents => { pfd with revents := revents }) revents = cleared fds := by
  induction fds generalizing revents with
  | nil => rfl
  | cons pfd fds ih =>
      cases revents with
      | nil => cases hlen
      | cons x revents =>
          rw [List.zipWith_cons_cons, ih revents (Nat.succ.inj hlen)
            fun y hy => hzero y (List.mem_cons_of_mem x hy), hzero x List.mem_cons_self]
          rfl

/-- An entry is entered under its index. -/
def UnderIndex (fds : List PollFd) (first : Nat) : Call → Prop
  | .epollCtl _ fd data _ => ∃ i pfd, fds[i]? = some pfd ∧ pfd.fd = fd ∧ data = first + i
  | _ => False

/-- The loop enters nothing but the entries, each under its index. -/
theorem enlist_under (epfd : Int) (fds : List PollFd) (first : Nat) :
    (enlist epfd fds first).Only (UnderIndex fds first) := by
  induction fds generalizing first with
  | nil => exact trivial
  | cons pfd fds ih =>
      have hhead : UnderIndex (pfd :: fds) first
          (.epollCtl epfd pfd.fd first pfd.events.toInt32.toUInt32) :=
        ⟨0, pfd, rfl, rfl, rfl⟩
      refine only_bind _ _ (only_perform _ hhead) (fun _ => only_mono ?_ _ (ih (first + 1)))
      -- Seen from the whole list the others are one further on.
      intro c hc
      cases c with
      | epollCtl epfd fd data events =>
          rcases hc with ⟨i, pfd', hget, hfd, hdata⟩
          exact ⟨i + 1, pfd', hget, hfd, by omega⟩
      | _ => exact hc

/-- Every entry is entered, under its index and for its own events. -/
theorem enlist_enters (epfd : Int) (fds : List PollFd) (first : Nat) (t : List Ev) (u : Unit)
    (hr : Runs (enlist epfd fds first) t u) : ∀ i pfd, fds[i]? = some pfd →
      ∃ failed : Bool,
        (⟨.epollCtl epfd pfd.fd (first + i) pfd.events.toInt32.toUInt32, failed⟩ : Ev) ∈ t := by
  induction fds generalizing first t with
  | nil =>
      intro i pfd hget
      cases hget
  | cons pfd fds ih =>
      intro i pfd' hget
      unfold enlist at hr
      rcases runs_ask _ _ _ _ hr with ⟨failed, t', rfl, hrest⟩
      cases i with
      | zero =>
          cases hget
          exact ⟨failed, List.mem_cons_self⟩
      | succ i =>
          -- The numbers go on counting behind the first entry.
          rcases ih (first + 1) t' hrest i pfd' hget with ⟨failed', hmem⟩
          rw [show first + 1 + i = first + (i + 1) by omega] at hmem
          exact ⟨failed', List.mem_cons_of_mem _ hmem⟩

/-- Every entry with a descriptor has been entered into an `epoll`, under its index and for
    its own events, and behind them a timer. -/
def Enlisted (epfd timerfd : Int) (fds : List PollFd) (t : List Ev) : Prop :=
  (∀ i pfd, fds[i]? = some pfd → 0 ≤ pfd.fd →
    (⟨.epollCtl epfd pfd.fd i pfd.events.toInt32.toUInt32, false⟩ : Ev) ∈ t) ∧
  (⟨.epollCtl epfd timerfd fds.length EventType.read.newEvent, false⟩ : Ev) ∈ t

/-- All that is asked of the kernel before reports are taken: every entry and a timer that
    is set to the timeout. There is room for a report on each of them. -/
def EntersAll (fds : List PollFd) (timeout : Int) (t : List Ev) : Prop :=
  ∃ epfd timerfd n es t1 t2, n = fds.length + 1 ∧ t = t1 ++ ⟨.epollWait epfd n, es⟩ :: t2 ∧
    (⟨.timerfdSettime timerfd (timeout.tdiv 1000) (timeout.tmod 1000 * 1000000), false⟩ : Ev) ∈ t1 ∧
    Enlisted epfd timerfd fds t1

/-- The number a descriptor has been entered with is the index of its entry, or that of the
    timer. -/
def Indexed (fds : List PollFd) (timerfd fd : Int) (data : Nat) : Prop :=
  (∃ pfd, fds[data]? = some pfd ∧ pfd.fd = fd) ∨ data = fds.length ∧ fd = timerfd

/-- The part of a run from where the timer runs. -/
theorem pollWait_waits (epfd timerfd : Int) (fds all : List PollFd) (t : List Ev)
    (x : Except Fault (Int × List PollFd)) (htimer : 0 ≤ timerfd)
    (hr : Runs (pollWait epfd timerfd fds) t x) (ha : ∀ e ∈ t, Answers all e) :
    (∀ fd data, AddedAs t fd data → Indexed fds timerfd fd data) ∧
    ∃ es t1 t2, t = t1 ++ ⟨.epollWait epfd (fds.length + 1), es⟩ :: t2 ∧
      Enlisted epfd timerfd fds t1 ∧ ∀ es', es = some es' →
        x = collect timerfd (fds.map PollFd.fd ++ [timerfd]) es'.1 es'.1.length fds := by
  unfold pollWait at hr
  rcases (runs_bind_iff ..).mp hr with ⟨t1, t2, _, rfl, henlist, hctl⟩
  rcases runs_ask _ _ _ _ hctl with ⟨failed, t3, rfl, hadd⟩
  -- The kernel accepts the timer, as its descriptor is not negative.
  have hfailed : failed = decide (timerfd < 0) :=
    ha _ (List.mem_append_right t1 List.mem_cons_self)
  rw [decide_eq_false (by omega)] at hfailed
  subst hfailed
  rw [if_neg Bool.false_ne_true] at hadd
  rcases runs_ask _ _ _ _ hadd with ⟨iter, t4, rfl, hyield⟩
  rcases runs_ask _ _ _ _ hyield with ⟨_, t5, rfl, hwait⟩
  rcases runs_ask _ _ _ _ hwait with ⟨es, t6, rfl, hcollect⟩
  have ht6 : t6 = [] := by
    cases es with
    | none => exact ((runs_ret_iff ..).mp hcollect).1
    | some es => exact ((runs_ret_iff ..).mp hcollect).1
  have hunder := runs_only _ t1 _ (enlist_under epfd fds 0) henlist
  constructor
  · rintro fd data ⟨epfd', events, hmem⟩
    -- Descriptors are entered by `enlist`, and the timer behind that.
    rcases List.mem_append.mp hmem with hmem | hmem
    · rcases hunder _ hmem with ⟨i, pfd, hget, hfd, hdata⟩
      rw [Nat.zero_add] at hdata
      exact Or.inl ⟨pfd, hdata ▸ hget, hfd⟩
    · rcases List.mem_cons.mp hmem with h | hmem
      · cases h
        exact Or.inr ⟨rfl, rfl⟩
      · rw [ht6] at hmem
        rcases List.mem_cons.mp hmem with h | hmem
        · cases h
        rcases List.mem_cons.mp hmem with h | hmem
        · cases h
        rcases List.mem_cons.mp hmem with h | hmem
        · cases h
        exact absurd hmem List.not_mem_nil
  · refine ⟨es, t1 ++ [⟨.epollCtl epfd timerfd fds.length EventType.read.newEvent, false⟩,
      ⟨.addEvent .poll epfd .read, iter⟩, ⟨.yield epfd .read, ()⟩], t6, ?_,
      ⟨fun i pfd hget hpos => ?_, List.mem_append_right t1 List.mem_cons_self⟩,
      fun es' hes => ?_⟩
    · rw [List.append_assoc]
      rfl
    · rcases enlist_enters epfd fds 0 t1 _ henlist i pfd hget with ⟨failed, hmem⟩
      rw [Nat.zero_add] at hmem
      -- A descriptor that is not negative is accepted.
      have hfailed : failed = decide (pfd.fd < 0) := ha _ (List.mem_append_left _ hmem)
      rw [decide_eq_false (by omega)] at hfailed
      subst hfailed
      exact List.mem_append_left _ hmem
    · subst hes
      exact ((runs_ret_iff ..).mp hcollect).2

/-- A call that enters no descriptor. -/
def NoCtl : Call → Prop
  | .epollCtl _ _ _ _ => False
  | _ => True

/-- A run that comes to wait: what is in front, the wait, and what is behind. -/
theorem poll_starts (fds : List PollFd) (timeout : Int) (t : List Ev)
    (x : Except Fault (Int × List PollFd)) (htimeout : timeout ≠ 0)
    (hr : Runs (poll fds timeout) t x) (ha : ∀ e ∈ t, Answers fds e) :
    ∃ epfd timerfd t1 t2 t3, t = t1 ++ (t2 ++ t3) ∧ (∀ e ∈ t1 ++ t3, NoCtl e.1) ∧ 0 ≤ timerfd ∧
      (⟨.timerfdSettime timerfd (timeout.tdiv 1000) (timeout.tmod 1000 * 1000000), false⟩ : Ev)
        ∈ t1 ∧
      (∀ pfd ∈ fds, pfd.fd ≠ timerfd) ∧ Runs (pollWait epfd timerfd (cleared fds)) t2 x := by
  unfold poll at hr
  rcases runs_ask _ _ _ _ hr with ⟨polled, t1, rfl, hcreate⟩
  -- Nothing was ready, so the wait is not skipped.
  have hpolled : polled.1 = 0 ∧ ∀ y ∈ polled.2.1, y = 0 := ha _ List.mem_cons_self
  have hwait : ¬ (polled.1 ≠ 0 ∨ timeout = 0) := by
    rintro (h | h)
    · exact h hpolled.1
    · exact htimeout h
  rw [zipWith_cleared fds polled.2.1 polled.2.2 hpolled.2] at hcreate
  simp only [if_neg hwait] at hcreate
  rcases runs_ask _ _ _ _ hcreate with ⟨(epfd : Int), t2, rfl, htimer⟩
  have hepfd : 0 ≤ epfd := ha _ (List.mem_cons_of_mem _ List.mem_cons_self)
  rw [if_neg (show ¬ epfd < 0 by omega)] at htimer
  rcases runs_ask _ _ _ _ htimer with ⟨(timerfd : Int), t3, rfl, hset⟩
  have htimerfd : 0 ≤ timerfd ∧ ∀ pfd ∈ fds, pfd.fd ≠ timerfd :=
    ha _ (List.mem_cons_of_mem _ (List.mem_cons_of_mem _ List.mem_cons_self))
  rw [if_neg (show ¬ timerfd < 0 by omega)] at hset
  rcases runs_ask _ _ _ _ hset with ⟨(failed : Bool), t4, rfl, hrun⟩
  have hfailed : failed = false :=
    ha _ (List.mem_cons_of_mem _ (List.mem_cons_of_mem _ (List.mem_cons_of_mem _
      List.mem_cons_self)))
  subst hfailed
  rw [if_neg Bool.false_ne_true] at hrun
  -- With all set up, the wait runs, and then both descriptors are closed.
  rcases (runs_bind_iff ..).mp hrun with ⟨t5, t6, y, rfl, hpollWait, hclose⟩
  rcases runs_ask _ _ _ _ hclose with ⟨_, t7, rfl, hclose'⟩
  rcases runs_ask _ _ _ _ hclose' with ⟨_, t8, rfl, hret⟩
  rcases (runs_ret_iff ..).mp hret with ⟨rfl, rfl⟩
  refine ⟨epfd, timerfd, [⟨.poll fds, polled⟩, ⟨.epollCreate1, epfd⟩, ⟨.timerfdCreate, timerfd⟩,
    ⟨.timerfdSettime timerfd (timeout.tdiv 1000) (timeout.tmod 1000 * 1000000), false⟩], t5, _,
    rfl, ?_, htimerfd.1, List.mem_of_mem_getLast? rfl, htimerfd.2, hpollWait⟩
  simp only [List.cons_append, List.nil_append, List.forall_mem_cons, NoCtl, true_and]
  exact fun e he => absurd he List.not_mem_nil

theorem cleared_get (fds : List PollFd) (i : Nat) :
    (cleared fds)[i]? = fds[i]?.map fun pfd => { pfd with revents := 0 } := List.getElem?_map

theorem length_cleared (fds : List PollFd) : (cleared fds).length = fds.length := List.length_map _

/-- A run that waits, up to what is made of the reports. -/
theorem poll_waits (fds : List PollFd) (timeout : Int) (t : List Ev)
    (x : Except Fault (Int × List PollFd)) (htimeout : timeout ≠ 0)
    (hr : Runs (poll fds timeout) t x) (ha : ∀ e ∈ t, Answers fds e) :
    ∃ timerfd, (∀ pfd ∈ fds, pfd.fd ≠ timerfd) ∧
      (∀ fd data, AddedAs t fd data → Indexed (cleared fds) timerfd fd data) ∧
      EntersAll fds timeout t ∧
      ∃ epfd es, (⟨.epollWait epfd ((cleared fds).length + 1), es⟩ : Ev) ∈ t ∧
        ∀ es', es = some es' → x = collect timerfd ((cleared fds).map PollFd.fd ++ [timerfd]) es'.1
          es'.1.length (cleared fds) := by
  rcases poll_starts fds timeout t x htimeout hr ha with
    ⟨epfd, timerfd, t1, t2, t3, rfl, houter, htimer, hset, hfresh, hrun⟩
  rcases pollWait_waits epfd timerfd (cleared fds) fds t2 x htimer hrun
    (fun e he => ha e (List.mem_append_right t1 (List.mem_append_left t3 he))) with
    ⟨hindexed, es, t4, t5, rfl, henters, hcollect⟩
  refine ⟨timerfd, hfresh, fun fd data hentered => ?_, ⟨epfd, timerfd, _, es, t1 ++ t4,
    t5 ++ t3, by rw [length_cleared], ?_, List.mem_append_left t4 hset,
    fun i pfd hget hpos => ?_, ?_⟩, epfd, es, ?_, hcollect⟩
  rotate_left
  · simp only [List.append_assoc, List.cons_append]
  · have hcleared : (cleared fds)[i]? = some { pfd with revents := 0 } := by
      rw [cleared_get, hget]
      rfl
    exact List.mem_append_right t1 (henters.1 i { pfd with revents := 0 } hcleared hpos)
  · rw [← length_cleared fds]
    exact List.mem_append_right t1 henters.2
  · exact List.mem_append_right t1 (List.mem_append_left t3
      (List.mem_append_right t4 List.mem_cons_self))
  -- Whatever was entered was entered inside the wait.
  rcases hentered with ⟨epfd', events, hmem⟩
  rcases List.mem_append.mp hmem with hmem | hmem
  · exact absurd (houter _ (List.mem_append_left t3 hmem)) id
  rcases List.mem_append.mp hmem with hmem | hmem
  · exact hindexed fd data ⟨epfd', events, hmem⟩
  · exact absurd (houter _ (List.mem_append_right t1 hmem)) id

theorem cleared_revents (fds : List PollFd) (pfd : PollFd) (h : pfd ∈ cleared fds) :
    pfd.revents = 0 := by
  rcases List.mem_map.mp h with ⟨_, _, rfl⟩
  rfl

theorem nonzero_cleared (fds : List PollFd) : nonzero (cleared fds) = 0 := by
  refine List.countP_eq_zero.mpr fun pfd hpfd => ?_
  rw [cleared_revents fds pfd hpfd]
  decide

/-- Events that there are do not get lost in a `short`. -/
theorem events_ne_zero (events : UInt32) (hne : events ≠ 0) (hlt : events.toNat < 32768) :
    Int16.ofNat events.toNat ≠ 0 := by
  intro h
  have hval := Int16.toInt_ofNat_of_lt hlt
  rw [h] at hval
  -- Fifteen bits fit a `short` as they are.
  have hzero : events.toNat = 0 := by
    have hint : (0 : Int16).toInt = 0 := rfl
    omega
  exact hne (UInt32.toNat_inj.mp hzero)

/-- A report, and the descriptor it is about. -/
def Reported (fds : List PollFd) (timerfd : Int) (x : Int × UInt32) (e : Nat × UInt32) : Prop :=
  e.2 = x.2 ∧ 0 ≤ x.1 ∧ Indexed (cleared fds) timerfd x.1 e.1

theorem Reported.le {fds : List PollFd} {timerfd : Int} {x : Int × UInt32} {e : Nat × UInt32}
    (h : Reported fds timerfd x e) : e.1 ≤ (cleared fds).length := by
  rcases h.2.2 with ⟨pfd, hget, _⟩ | ⟨hdata, _⟩
  · exact Nat.le_of_lt (List.getElem?_eq_some_iff.mp hget).1
  · exact Nat.le_of_eq hdata

/-- The index decides the descriptor. -/
theorem Reported.key {fds : List PollFd} {timerfd : Int} {x x' : Int × UInt32}
    {e e' : Nat × UInt32} (h : Reported fds timerfd x e) (h' : Reported fds timerfd x' e')
    (heq : e.1 = e'.1) : x.1 = x'.1 := by
  rcases h.2.2 with ⟨pfd, hget, hfd⟩ | ⟨hdata, hfd⟩ <;>
    rcases h'.2.2 with ⟨pfd', hget', hfd'⟩ | ⟨hdata', hfd'⟩
  · rw [heq, hget'] at hget
    rw [← hfd, ← hfd', Option.some.inj hget]
  · have hlt := (List.getElem?_eq_some_iff.mp hget).1
    omega
  · have hlt := (List.getElem?_eq_some_iff.mp hget').1
    omega
  · rw [hfd, hfd']

/-- With distinct descriptors, a report is about an entry's descriptor exactly when it comes
    under the entry's index. -/
theorem Reported.index {fds : List PollFd} {timerfd : Int} {x : Int × UInt32} {e : Nat × UInt32}
    (h : Reported fds timerfd x e) (hfresh : ∀ pfd ∈ fds, pfd.fd ≠ timerfd)
    (hdistinct : fds.Pairwise fun a b => a.fd = b.fd → a.fd < 0) (i : Nat) (pfd : PollFd)
    (hpfd : fds[i]? = some pfd) : x.1 = pfd.fd ↔ e.1 = i := by
  have hmem : pfd ∈ fds := List.mem_of_getElem? hpfd
  have hi := (List.getElem?_eq_some_iff.mp hpfd).1
  rcases h.2.2 with ⟨pfd', hget, hfd⟩ | ⟨hdata, hfd⟩
  · rw [cleared_get, Option.map_eq_some_iff] at hget
    rcases hget with ⟨pfd0, hget, rfl⟩
    constructor
    · intro heq
      by_contra hne
      -- Two entries with one descriptor, which is not negative.
      have hpair := List.pairwise_iff_getElem.mp hdistinct
      rcases List.getElem?_eq_some_iff.mp hget with ⟨hlt, rfl⟩
      rcases List.getElem?_eq_some_iff.mp hpfd with ⟨_, rfl⟩
      have hsame : fds[e.1].fd = fds[i].fd := hfd.trans heq
      have hnonneg : 0 ≤ fds[e.1].fd := by
        rw [show fds[e.1].fd = x.1 from hfd]
        exact h.2.1
      rcases Nat.lt_or_gt_of_ne hne with hlt' | hlt'
      · have hneg := hpair e.1 i hlt hi hlt' hsame
        omega
      · have hneg := hpair i e.1 hi hlt hlt' hsame.symm
        omega
    · intro heq
      rw [heq, hpfd] at hget
      rw [← hfd, ← Option.some.inj hget]
  · rw [hfd, hdata, length_cleared]
    constructor
    · intro heq
      exact absurd heq.symm (hfresh pfd hmem)
    · intro heq
      omega

theorem le_reventsCapacity (realNfds : Nat) : realNfds ≤ reventsCapacity realNfds := by
  unfold reventsCapacity
  split <;> omega

/-- On its waiting path `co::poll` says what `::poll` says. It asks for the events of every
    entry; each entry is left with the events of its descriptor, if it is ready, and none
    otherwise, and the entries with events are counted. The reports fit where they are put. -/
theorem poll_agrees (fds : List PollFd) (timeout : Int) (ready : List (Int × UInt32))
    (t : List Ev) (x : Except Fault (Int × List PollFd)) (htimeout : 0 < timeout)
    (hdistinct : fds.Pairwise fun a b => a.fd = b.fd → a.fd < 0)
    (hr : Runs (poll fds timeout) t x) (hw : Waits fds ready t) :
    x = .ok (nonzero (polledEntries ready fds), polledEntries ready fds) ∧ EntersAll fds timeout t ∧
      ∀ epfd n (es : { es : List (Nat × UInt32) // es.length ≤ n }),
        (⟨.epollWait epfd n, some es⟩ : Ev) ∈ t → es.1.length ≤ reventsCapacity n := by
  rcases poll_waits fds timeout t x (by omega) hr hw.answers with
    ⟨timerfd, hfresh, hindexed, henters, epfd, es, hmem, hx⟩
  refine ⟨?_, henters, fun _ n es _ => Nat.le_trans es.2 (le_reventsCapacity n)⟩
  rcases hw.reports _ hmem with ⟨es', rfl, hreports⟩
  -- Every report is about a descriptor that was entered, under its number.
  have hall : List.Forall₂ (Reported fds timerfd) ready es'.1 := by
    refine hreports.imp fun y e hye => ?_
    rcases hye with ⟨hvalue, hentered⟩
    refine ⟨hvalue, ?_, hindexed _ _ hentered⟩
    rcases hentered with ⟨epfd', events, hin⟩
    have hanswer : false = decide (y.1 < 0) := hw.answers _ hin
    have hnot := of_decide_eq_false hanswer.symm
    omega
  have hfresh' : ∀ pfd ∈ cleared fds, pfd.fd ≠ timerfd := by
    intro pfd hpfd
    rcases List.mem_map.mp hpfd with ⟨pfd0, hpfd0, rfl⟩
    exact hfresh pfd0 hpfd0
  have hle : ∀ e ∈ es'.1, e.1 ≤ (cleared fds).length := fun e he =>
    (forall₂_left hall e he).elim fun y hy => hy.2.le
  have hnodup := nodup_keys hall (fun _ _ _ _ => Reported.key) hw.once
  -- What is written is what `::poll` writes.
  have hentries : es'.1.foldl put (cleared fds) = polledEntries ready fds := by
    apply List.ext_getElem?
    intro i
    rw [foldl_put_get es'.1 hnodup i, cleared_get, polledEntries, List.getElem?_map,
      Option.map_map]
    cases hpfd : fds[i]? with
    | none => rfl
    | some pfd =>
        have hlookup := lookup_keys hall pfd.fd i (fun _ _ h => h.1)
          fun y e h => h.index hfresh hdistinct i pfd hpfd
        simp only [Option.map_some, Function.comp, reported, hlookup]
        cases ready.lookup pfd.fd <;> rfl
  -- What is counted is what is written.
  have hcount : nonzero (polledEntries ready fds)
      = es'.1.countP fun e => e.1 < (cleared fds).length := by
    rw [← hentries, nonzero_foldl_put es'.1 hnodup ?_ _ ?_, nonzero_cleared, Nat.zero_add]
    · intro e he
      rcases forall₂_left hall e he with ⟨y, hy, hye⟩
      rw [hye.1]
      exact events_ne_zero y.2 (hw.events y hy).1 (hw.events y hy).2
    · intro e _ pfd hpfd
      exact cleared_revents fds pfd (List.mem_of_getElem? hpfd)
  -- The reports are those for entries and those of the timer, which are not counted.
  have hlength := List.length_eq_countP_add_countP (fun e => decide (e.1 = (cleared fds).length))
    (l := es'.1)
  have hothers : es'.1.countP (fun e => decide ¬ decide (e.1 = (cleared fds).length) = true)
      = es'.1.countP fun e => e.1 < (cleared fds).length := by
    refine List.countP_congr fun e he => ?_
    have hbound := hle e he
    simp only [decide_eq_true_eq]
    omega
  rw [hx es' rfl, collect_entries timerfd (cleared fds) hfresh' es'.1 hle _ _ rfl, hentries, hcount]
  -- The return value is the number of reports less those of the timer.
  congr 2
  omega

/-- Two descriptors and a negative number. -/
def three : List PollFd := [⟨5, 1, 0⟩, ⟨-1, 1, 0⟩, ⟨7, 4, 0⟩]

/-- The second descriptor becomes ready just before the timer. -/
def threeTrace : List Ev :=
  [⟨.poll three, ((0, ⟨[0, 0, 0], rfl⟩) :
      Int × { revents : List Int16 // revents.length = three.length })⟩,
    ⟨.epollCreate1, (8 : Int)⟩, ⟨.timerfdCreate, (9 : Int)⟩,
    ⟨.timerfdSettime 9 0 100000000, false⟩, ⟨.epollCtl 8 5 0 1, false⟩,
    ⟨.epollCtl 8 (-1) 1 1, true⟩, ⟨.epollCtl 8 7 2 4, false⟩, ⟨.epollCtl 8 9 3 1, false⟩,
    ⟨.addEvent .poll 8 .read, true⟩, ⟨.yield 8 .read, ()⟩,
    ⟨.epollWait 8 4, some ⟨[(2, 4), (3, 1)], by decide⟩⟩, ⟨.close 8, ()⟩, ⟨.close 9, ()⟩]

theorem three_runs : Runs (poll three 100) threeTrace
    (.ok (1, [⟨5, 1, 0⟩, ⟨-1, 1, 0⟩, ⟨7, 4, 4⟩])) := by
  unfold threeTrace
  repeat refine Runs.call _ _ _ _ _ ?_
  exact Runs.ret _

/-- The kernel does its part in that run. -/
theorem three_waits : Waits three [(7, 4), (9, 1)] threeTrace := by
  have hseven : AddedAs threeTrace 7 2 :=
    ⟨8, 4, .tail _ (.tail _ (.tail _ (.tail _ (.tail _ (.tail _ (.head _))))))⟩
  have htimer : AddedAs threeTrace 9 3 :=
    ⟨8, 1, .tail _ (.tail _ (.tail _ (.tail _ (.tail _ (.tail _ (.tail _ (.head _)))))))⟩
  refine ⟨?_, ?_, by decide, by decide⟩
  · have hpositive : (0 : Int) ≤ 8 ∧ (0 : Int) ≤ 9 := by decide
    have hzero : ∀ x ∈ ([0, 0, 0] : List Int16), x = 0 := by simp
    have hfresh : ∀ pfd ∈ three, pfd.fd ≠ 9 := by decide
    simp only [threeTrace, List.forall_mem_cons]
    exact ⟨⟨rfl, hzero⟩, hpositive.1, ⟨hpositive.2, hfresh⟩, rfl, rfl, rfl, rfl, rfl, trivial,
      trivial, trivial, trivial, trivial, fun e he => absurd he List.not_mem_nil⟩
  · have hreports : Reports threeTrace [(7, 4), (9, 1)]
        ⟨.epollWait 8 4, some ⟨[(2, 4), (3, 1)], by decide⟩⟩ :=
      ⟨_, rfl, .cons ⟨rfl, hseven⟩ (.cons ⟨rfl, htimer⟩ .nil)⟩
    have hall : ∀ e ∈ threeTrace, Reports threeTrace [(7, 4), (9, 1)] e := by
      unfold threeTrace at hreports ⊢
      simp only [List.forall_mem_cons]
      exact ⟨trivial, trivial, trivial, trivial, trivial, trivial, trivial, trivial, trivial,
        trivial, hreports, trivial, trivial, fun e he => absurd he List.not_mem_nil⟩
    exact hall

/-- The one that is ready is found, and the timer is not counted. -/
theorem poll_agrees_three :
    (.ok (1, [⟨5, 1, 0⟩, ⟨-1, 1, 0⟩, ⟨7, 4, 4⟩]) : Except Fault (Int × List PollFd))
        = .ok (nonzero (polledEntries [(7, 4), (9, 1)] three),
            polledEntries [(7, 4), (9, 1)] three) ∧
      EntersAll three 100 threeTrace ∧
      ∀ epfd n (es : { es : List (Nat × UInt32) // es.length ≤ n }),
        (⟨.epollWait epfd n, some es⟩ : Ev) ∈ threeTrace → es.1.length ≤ reventsCapacity n :=
  poll_agrees three 100 [(7, 4), (9, 1)] threeTrace _ (by decide) (by decide) three_runs three_waits

end Co
