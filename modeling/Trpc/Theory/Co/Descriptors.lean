import Trpc.Theory.Co.Registry
import Trpc.Theory.Co.Polling
import Trpc.Lib.Monitor
import Trpc.Lib.Exclusive

/-!
# Descriptors of the Waiting Calls

`co::sleep` and `co::usleep` wait for a timer of their own, `co::poll` for an `epoll` of its
own with a timer in it, and `co::connect` pauses with `co::poll`. A guard closes what has
been made, but that of `co::poll` comes late: it is not there yet when the timer cannot be
made, and not when it cannot be set. What the call has made is left open then, and nobody
has its number any more.

The descriptors of a thread are divided: those that are the coroutines' own business, which
they have opened or accepted, those of the calls in progress, and those that were left
behind. `descriptors_divided` says that in every state of every run each open descriptor is
in exactly one of these, that no call has more than two of its own, none when it has
returned, and that a call closes nothing but these, although numbers come again. It is
assumed that the coroutines close what they have opened.

A timer cannot be set for a negative time. So `co::poll` with a negative timeout, which is
to wait for ever with `::poll`, does not wait and leaves what it has made: `poll_negative`.

## Main definitions

* `Kept`: The descriptors that the calls of a coroutine have made.
* `clerk`: A call closes what it has made, and has at most two descriptors.
* `Accounts`, `Move`: The thread, and who has which descriptor.

## Theorems

* `body_sound`: The calls one by one.
* `balanced_move`: What a step of the thread keeps.
* `descriptors_divided`: Who has what.
* `poll_negative`: Negative timeouts.
-/

namespace Co

open Trpc Interaction Transition Holding

/-- What the calls of a coroutine have made: what the call in progress is going to close,
    and what was left open. -/
structure Kept where
  held : List Int
  left : List Int

/-- What a call of the system has to do with it. -/
def Kept.next (x : Kept) : (c : Call) → Reply c → Kept
  | .epollCreate1, (ret : Int) => if ret ≥ 0 then { x with held := ret :: x.held } else x
  | .timerfdCreate, (ret : Int) =>
    if ret ≥ 0 then { x with held := ret :: x.held }
    -- Without a timer, the `epoll` that `co::poll` has made for it stays.
    else ⟨[], x.held ++ x.left⟩
  | .timerfdSettime _ _ _, (failed : Bool) =>
    -- So do both when the timer is not set. One that has no `epoll` is closed all the same.
    if failed && x.held.length == 2 then ⟨[], x.held ++ x.left⟩ else x
  | .close fd, _ => { x with held := x.held.erase fd }
  | _, _ => x

/-- A call has at most two descriptors and closes no others. -/
def clerk : Monitor Call Reply Kept where
  Allowed := fun x c => x.held.length ≤ 2 ∧ ∀ fd, c = .close fd → fd ∈ x.held
  next := Kept.next

/-- What a call has made by itself, it does not have any more when it returns. -/
def Emptied {α : Type} (_ : α) (x : Kept) : Prop := x.held = []

/-! ## The calls -/

/-- The calls that make, close and lose no descriptor. -/
def Call.Neutral : Call → Prop
  | .timerfdCreate => False
  | .epollCreate1 => False
  | .timerfdSettime _ _ _ => False
  | .close _ => False
  | _ => True

/-- A neutral call is allowed, and leaves everything with whoever has it. -/
theorem neutral_clerk (x : Kept) (hx : x.held.length ≤ 2) (c : Call) (hc : c.Neutral) :
    clerk.Allowed x c ∧ ∀ r, clerk.next x c r = x := by
  cases c with
  | timerfdCreate => exact hc.elim
  | epollCreate1 => exact hc.elim
  | timerfdSettime timerfd sec nsec => exact hc.elim
  | close fd => exact hc.elim
  | _ => exact ⟨⟨hx, fun _ h => by cases h⟩, fun _ => rfl⟩

theorem sound_ask {α : Type} {Q : α → Kept → Prop} (c : Call) (f : Reply c → Proc α) (x : Kept)
    (hx : x.held.length ≤ 2) (hc : ∀ fd, c = .close fd → fd ∈ x.held)
    (hf : ∀ r, (f r).Sound clerk Q (x.next c r)) : (ask c >>= f).Sound clerk Q x :=
  sound_perform_bind c f x ⟨hx, hc⟩ hf

/-- A program of neutral calls and one behind it. -/
theorem sound_neutral {α β : Type} {Q : β → Kept → Prop} (p : Proc α) (f : α → Proc β) (x : Kept)
    (hp : p.Only Call.Neutral) (hx : x.held.length ≤ 2) (hf : ∀ a, (f a).Sound clerk Q x) :
    (p.bind f).Sound clerk Q x := by
  refine sound_bind p f x (sound_mono p x (sound_skip p x hp (neutral_clerk x hx)) ?_)
  rintro a x' rfl
  exact hf a

/-- A program of neutral calls, with nothing behind it. -/
theorem sound_neutral_end {α : Type} {Q : α → Kept → Prop} (p : Proc α) (x : Kept)
    (hp : p.Only Call.Neutral) (hx : x.held.length ≤ 2) (hQ : ∀ a, Q a x) : p.Sound clerk Q x := by
  refine sound_mono p x (sound_skip p x hp (neutral_clerk x hx)) ?_
  rintro a x' rfl
  exact hQ a

theorem fail_neutral (e : Errno) : (fail e).Only Call.Neutral := ⟨trivial, fun _ => trivial⟩

theorem delta_neutral (seconds start : Int) : (delta seconds start).Only Call.Neutral :=
  ⟨trivial, fun _ => trivial⟩

/-- Whichever way a program goes. -/
theorem ite_neutral (c : Prop) [Decidable c] (p q : Proc Int) (hp : p.Only Call.Neutral)
    (hq : q.Only Call.Neutral) : (if c then p else q).Only Call.Neutral := by
  by_cases hc : c
  · rw [if_pos hc]
    exact hp
  · rw [if_neg hc]
    exact hq

/-- Wait for an entry, and ask once more. -/
theorem retry_neutral (caller : Api) (fd : Int) (type : EventType) (p : Proc Int)
    (hp : p.Only Call.Neutral) :
    (Prog.call (.addEvent caller fd type) fun iter : Bool =>
      if iter then .call (.yield fd type) fun _ : Unit => p else .ret 0 : Proc Int).Only
      Call.Neutral :=
  ⟨trivial, fun (iter : Bool) => ite_neutral (iter = true) _ _ ⟨trivial, fun _ => hp⟩ trivial⟩

theorem read_neutral (fd : Int) (size : Nat) : (read fd size).Only Call.Neutral :=
  ⟨trivial, fun (_ : Int) => ite_neutral _ _ _ trivial
    (retry_neutral .read fd .read (ask (.read fd size)) ⟨trivial, fun _ => trivial⟩)⟩

theorem write_neutral (fd : Int) (size : Nat) : (write fd size).Only Call.Neutral :=
  ⟨trivial, fun (_ : Int) => ite_neutral _ _ _ trivial
    (retry_neutral .write fd .write (ask (.write fd size)) ⟨trivial, fun _ => trivial⟩)⟩

theorem accept4_neutral (fd : Int) : (accept4 fd).Only Call.Neutral :=
  ⟨trivial, fun (_ : Int) => ite_neutral _ _ _ trivial
    (retry_neutral .accept4 fd .read (ask (.accept4 fd)) ⟨trivial, fun _ => trivial⟩)⟩

/-- A call that sets its only timer, and makes nothing more, still has it. -/
theorem settime_sound (timerfd sec nsec : Int) (k : Bool → Proc Int) (left : List Int)
    (hk : ∀ failed, (k failed).Only Call.Neutral) :
    (Prog.call (.timerfdSettime timerfd sec nsec) k : Proc Int).Sound clerk
      (fun _ x => x = ⟨[timerfd], left⟩) ⟨[timerfd], left⟩ := by
  have hone : [timerfd].length ≤ 2 := Nat.le_succ 1
  refine ⟨⟨hone, fun _ h => by cases h⟩, fun (failed : Bool) => ?_⟩
  have hnext : clerk.next ⟨[timerfd], left⟩ (.timerfdSettime timerfd sec nsec) failed
      = ⟨[timerfd], left⟩ := by cases failed <;> rfl
  rw [hnext]
  exact sound_neutral_end _ _ (hk failed) hone fun _ => rfl

/-- `co::sleep` while it has its timer. -/
theorem sleepWait_sound (seconds start timerfd : Int) (left : List Int) :
    (sleepWait seconds start timerfd).Sound clerk (fun _ x => x = ⟨[timerfd], left⟩)
      ⟨[timerfd], left⟩ := by
  refine settime_sound timerfd seconds 0 _ left fun failed => ?_
  cases failed with
  | true => exact delta_neutral seconds start
  | false =>
      refine ⟨trivial, fun _ => ⟨trivial, fun _ => ⟨trivial, fun value => ?_⟩⟩⟩
      cases value with
      | none => exact delta_neutral seconds start
      | some value => exact trivial

/-- `co::usleep` while it has its timer, which it sets in nanoseconds. -/
theorem usleepWait_sound (usec timerfd : Int) (left : List Int) :
    (usleepWait usec timerfd).Sound clerk (fun _ x => x = ⟨[timerfd], left⟩)
      ⟨[timerfd], left⟩ := by
  refine settime_sound timerfd 0 (usec * 1000) _ left fun failed => ?_
  cases failed with
  -- The timer could not be set. It is still there to be closed.
  | true => exact fail_neutral _
  | false =>
      refine ⟨trivial, fun _ => ⟨trivial, fun _ => ⟨trivial, fun value => ?_⟩⟩⟩
      cases value with
      | none => exact fail_neutral _
      | some value => exact trivial

/-- A wait for a timer, with the timer made in front of it and closed behind it. -/
theorem timer_sound (wait : Int → Proc Int) (failed : Proc Int) (left : List Int)
    (hwait : ∀ timerfd, (wait timerfd).Sound clerk (fun _ x => x = ⟨[timerfd], left⟩)
      ⟨[timerfd], left⟩)
    (hfailed : failed.Only Call.Neutral) :
    (do
      let timerfd : Int ← ask .timerfdCreate
      if timerfd < 0 then failed
      else
        let ret ← wait timerfd
        ask (.close timerfd)
        return ret : Proc Int).Sound clerk Emptied ⟨[], left⟩ := by
  have hnone : ([] : List Int).length ≤ 2 := Nat.zero_le 2
  refine ⟨⟨hnone, fun _ h => by cases h⟩, fun (timerfd : Int) => ?_⟩
  change (if timerfd < 0 then failed else (wait timerfd).bind fun ret =>
    (ask (.close timerfd)).bind fun _ => .ret ret).Sound clerk Emptied _
  by_cases hfd : timerfd < 0
  · have hnext : clerk.next ⟨[], left⟩ .timerfdCreate timerfd = ⟨[], left⟩ := if_neg (by omega)
    rw [hnext, if_pos hfd]
    exact sound_neutral_end _ _ hfailed hnone fun _ => rfl
  · have hnext : clerk.next ⟨[], left⟩ .timerfdCreate timerfd = ⟨[timerfd], left⟩ :=
      if_pos (by omega)
    rw [hnext, if_neg hfd]
    refine sound_bind _ _ _ (sound_mono _ _ (hwait timerfd) ?_)
    rintro ret x rfl
    -- Only the timer is closed, and then there is nothing left.
    refine ⟨⟨Nat.le_succ 1, fun fd h => ?_⟩, fun _ => List.erase_cons_head ..⟩
    cases h
    exact List.mem_cons_self

theorem sleep_sound (seconds : Nat) (left : List Int) :
    (sleep seconds).Sound clerk Emptied ⟨[], left⟩ :=
  ⟨⟨Nat.zero_le 2, fun _ h => by cases h⟩, fun (start : Int) =>
    timer_sound _ _ left (sleepWait_sound seconds start · left) (delta_neutral seconds start)⟩

/-- `co::usleep`, which refuses to wait for a second or more. -/
theorem usleep_sound (usec : Nat) (left : List Int) :
    (usleep usec).Sound clerk Emptied ⟨[], left⟩ := by
  unfold usleep
  split
  · exact sound_neutral_end _ _ (fail_neutral _) (Nat.zero_le 2) fun _ => rfl
  · exact timer_sound _ _ left (usleepWait_sound usec · left) (fail_neutral _)

/-- The entries are put on the list of the `epoll`, by the same call for each. -/
theorem enlist_neutral (epfd : Int) (fds : List PollFd) (id : Nat) :
    (enlist epfd fds id).Only Call.Neutral := by
  induction fds generalizing id with
  | nil => exact trivial
  | cons pfd fds ih => exact only_bind _ _ (only_perform _ trivial) (fun _ => ih (id + 1))

/-- While `co::poll` waits it makes nothing more. -/
theorem pollWait_neutral (epfd timerfd : Int) (fds : List PollFd) :
    (pollWait epfd timerfd fds).Only Call.Neutral := by
  refine only_bind _ _ (enlist_neutral epfd fds 0) (fun _ => ?_)
  refine only_bind _ _ (only_perform _ trivial) (fun (failed : Bool) => ?_)
  cases failed with
  | true => exact trivial
  | false =>
      refine ⟨trivial, fun _ => ⟨trivial, fun _ => ⟨trivial, fun es => ?_⟩⟩⟩
      cases es <;> exact trivial

/-- A descriptor is taken out, even if it is the same as the one in front of it. -/
theorem erase_second (a b : Int) : [a, b].erase b = [a] := by
  by_cases h : a = b
  · rw [h, List.erase_cons_head]
  · rw [List.erase_cons_tail (beq_eq_false_iff_ne.mpr h ▸ Bool.false_ne_true),
      List.erase_cons_head]

/-- `co::poll` while it has both, and how the guard closes them. -/
theorem pollGuard_sound (epfd timerfd : Int) (fds : List PollFd) (left : List Int) :
    (do
      let ret ← pollWait epfd timerfd fds
      ask (.close epfd)
      ask (.close timerfd)
      return ret : Proc (Except Fault (Int × List PollFd))).Sound clerk Emptied
      ⟨[timerfd, epfd], left⟩ := by
  have htwo : [timerfd, epfd].length ≤ 2 := Nat.le_refl 2
  refine sound_neutral _ _ _ (pollWait_neutral epfd timerfd fds) htwo fun ret => ?_
  refine sound_ask _ _ _ htwo (fun fd h => ?_) fun _ => ?_
  · cases h
    exact List.mem_cons_of_mem _ List.mem_cons_self
  -- The `epoll` is closed first, and then the timer.
  have hclose : ∀ r, Kept.next ⟨[timerfd, epfd], left⟩ (.close epfd) r = ⟨[timerfd], left⟩ :=
    fun _ => congrArg (Kept.mk · left) (erase_second timerfd epfd)
  refine hclose _ ▸ sound_ask _ _ _ (Nat.le_succ 1) (fun fd h => ?_) fun _ =>
    List.erase_cons_head ..
  cases h
  exact List.mem_cons_self

/-- `co::poll` closes what it has made, or leaves it behind. -/
theorem poll_sound (fds : List PollFd) (timeout : Int) (left : List Int) :
    (poll fds timeout).Sound clerk Emptied ⟨[], left⟩ := by
  unfold poll
  refine sound_ask _ _ _ (Nat.zero_le 2) (fun _ h => by cases h) fun polled => ?_
  by_cases hready : polled.1 ≠ 0 ∨ timeout = 0
  · -- Something is ready, or nobody wants to wait. Nothing has been made.
    rw [if_pos hready]
    exact rfl
  rw [if_neg hready]
  refine sound_ask _ _ _ (Nat.zero_le 2) (fun _ h => by cases h) fun (epfd : Int) => ?_
  by_cases hep : epfd < 0
  · have hnext : Kept.next ⟨[], left⟩ .epollCreate1 epfd = ⟨[], left⟩ := if_neg (by omega)
    rw [if_pos hep]
    exact congrArg Kept.held hnext
  have hnext : Kept.next ⟨[], left⟩ .epollCreate1 epfd = ⟨[epfd], left⟩ := if_pos (by omega)
  rw [if_neg hep]
  refine hnext ▸ sound_ask _ _ _ (Nat.le_succ 1) (fun _ h => by cases h) fun (timerfd : Int) => ?_
  by_cases htimer : timerfd < 0
  · -- The `epoll` goes to what is left behind.
    have hlost : Kept.next ⟨[epfd], left⟩ .timerfdCreate timerfd = ⟨[], epfd :: left⟩ :=
      if_neg (by omega)
    rw [if_pos htimer]
    exact congrArg Kept.held hlost
  have hboth : Kept.next ⟨[epfd], left⟩ .timerfdCreate timerfd = ⟨[timerfd, epfd], left⟩ :=
    if_pos (by omega)
  rw [if_neg htimer]
  refine hboth ▸ sound_ask _ _ _ (Nat.le_refl 2) (fun _ h => by cases h) fun (failed : Bool) => ?_
  cases failed with
  | true =>
      -- So do both.
      exact sound_ask _ _ _ (Nat.zero_le 2) (fun _ h => by cases h) fun _ => rfl
  | false => exact pollGuard_sound epfd timerfd _ left

/-- An attempt of `co::connect` makes nothing itself. -/
theorem connectAttempt_sound (fd : Int) (retry : Proc Int) (left : List Int)
    (hretry : retry.Sound clerk Emptied ⟨[], left⟩) :
    (connectAttempt fd retry).Sound clerk Emptied ⟨[], left⟩ := by
  have hnone : ([] : List Int).length ≤ 2 := Nat.zero_le 2
  have hfail : ∀ e, (fail e).Sound clerk Emptied ⟨[], left⟩ := fun e =>
    sound_neutral_end _ _ (fail_neutral e) hnone fun _ => rfl
  unfold connectAttempt
  refine sound_ask _ _ _ hnone (fun _ h => by cases h) fun _ => ?_
  -- The wait for the connection, if there is an entry for it.
  refine sound_ask _ _ _ hnone (fun _ h => by cases h) fun (iter : Bool) => ?_
  cases iter with
  | false => exact hfail _
  | true =>
      refine sound_ask _ _ _ hnone (fun _ h => by cases h) fun _ => ?_
      refine sound_ask _ _ _ hnone (fun _ h => by cases h) fun soerr => ?_
      cases soerr with
      | none => exact hfail _
      | some soerr =>
          simp only []
          split
          · refine sound_ask _ _ _ hnone (fun _ h => by cases h) fun (failed : Bool) => ?_
            cases failed with
            | false => exact rfl
            | true => exact hretry
          split
          · exact hretry
          · exact hfail _

/-- Nor do all the attempts, but for the pauses between them. -/
theorem connectLoop_sound (fd : Int) (n : Nat) : ∀ (retries : Nat) (left : List Int),
    (connectLoop fd n retries).Sound clerk Emptied ⟨[], left⟩ := by
  induction n with
  | zero =>
      exact fun _ left => sound_neutral_end _ _ (fail_neutral _) (Nat.zero_le 2) fun _ => rfl
  | succ n ih =>
      intro retries left
      unfold connectLoop
      split
      · -- What the pause has left behind stays so.
        refine sound_bind _ _ _ (sound_mono _ _ (poll_sound [] _ left) ?_)
        rintro _ ⟨held, left'⟩ rfl
        exact connectAttempt_sound fd _ left' (ih (retries + 1) left')
      · exact connectAttempt_sound fd _ left (ih (retries + 1) left)

/-- Every call keeps to its own descriptors. -/
theorem body_sound (call : Invocation) (left : List Int) :
    call.body.Sound clerk Emptied ⟨[], left⟩ := by
  have hnone : ([] : List Int).length ≤ 2 := Nat.zero_le 2
  cases call with
  | read fd size => exact sound_neutral_end _ _ (read_neutral fd size) hnone fun _ => rfl
  | write fd size => exact sound_neutral_end _ _ (write_neutral fd size) hnone fun _ => rfl
  | connect connectRetries fd => exact connectLoop_sound fd connectRetries 0 left
  | accept4 fd => exact sound_neutral_end _ _ (accept4_neutral fd) hnone fun _ => rfl
  | sleep seconds => exact sleep_sound seconds left
  | usleep usec => exact usleep_sound usec left
  | poll fds timeout =>
      exact sound_bind _ _ _ (sound_mono _ _ (poll_sound fds timeout left) fun _ _ h => h)

/-! ## The thread -/

/-- Who may have a descriptor. -/
inductive Party where
  /-- The coroutines' own code. -/
  | code
  /-- A call in progress. -/
  | call (c : Coroutine)
  /-- Nobody any more: the calls of a coroutine have left it behind. -/
  | lost (c : Coroutine)
  deriving DecidableEq

/-- The thread, and next to it who has which descriptor. -/
structure Accounts where
  world : World
  own : List Int
  kept : Coroutine → Kept

def Accounts.holds (x : Accounts) : Party → List Int
  | .code => x.own
  | .call c => (x.kept c).held
  | .lost c => (x.kept c).left

def Accounts.initial : Accounts := ⟨World.initial, [], fun _ => ⟨[], []⟩⟩

/-- What a call hands to its caller. -/
def handed : (c : Call) → Reply c → List Int
  | .accept4 _, (ret : Int) => if ret ≥ 0 then [ret] else []
  | _, _ => []

/-- A step of the thread, in which the coroutines close what is their own. -/
inductive Move : Accounts → Act → Accounts → Prop where
  | opens (x : Accounts) (fd : Int) (w' : World) : Step x.world (.opens fd) w' →
      Move x (.opens fd) { x with world := w', own := fd :: x.own }
  | closes (x : Accounts) (fd : Int) (w' : World) : Step x.world (.closes fd) w' → fd ∈ x.own →
      Move x (.closes fd) { x with world := w', own := x.own.erase fd }
  | asks (x : Accounts) (c : Coroutine) (cs : List Coroutine) (call : Call)
      (k : Reply call → Proc Int) (reply : Reply call) :
      x.world.stack = c :: cs → x.world.status c = .calling (.call call k) → call.Plain →
      (∀ fd, created call reply = some fd → x.world.registry.opened fd = false) →
      Move x (.asks c)
        ⟨{ x.world.setStatus c (.calling (k reply)) with
            registry := effect call reply x.world.registry },
          handed call reply ++ x.own,
          Function.update x.kept c ((x.kept c).next call reply)⟩
  | other (x : Accounts) (a : Act) (w' : World) : Step x.world a w' →
      (∀ fd, a ≠ .opens fd) → (∀ fd, a ≠ .closes fd) → (∀ c, a ≠ .asks c) →
      Move x a { x with world := w' }

/-- What is left of the call that a coroutine is in. -/
def Status.program : Status → Option (Proc Int)
  | .calling p => some p
  | .parked _ _ p => some p
  | _ => none

structure Balanced (x : Accounts) : Prop where
  /-- The open descriptors are divided. -/
  divided : Divided (fun fd => x.world.registry.opened fd = true) x.holds
  inside : ∀ c p, (x.world.status c).program = some p → p.Sound clerk Emptied (x.kept c)
  outside : ∀ c, (x.world.status c).program = none → (x.kept c).held = []

/-- At first nothing is open. -/
theorem balanced_initial : Balanced Accounts.initial := by
  refine ⟨⟨fun fd => ⟨nofun, ?_⟩, ?_, ?_⟩, nofun, fun _ _ => rfl⟩
  · rintro ⟨p, hp⟩
    cases p <;> exact absurd hp List.not_mem_nil
  · intro p q fd hp
    cases p <;> exact absurd hp List.not_mem_nil
  · intro p
    cases p <;> exact List.nodup_nil

/-- A coroutine goes on, with what its calls have. -/
theorem Balanced.setStatus {x : Accounts} (h : Balanced x) (c : Coroutine) (st : Status)
    (hin : ∀ p, st.program = some p → p.Sound clerk Emptied (x.kept c))
    (hout : st.program = none → (x.kept c).held = []) :
    Balanced { x with world := x.world.setStatus c st } := by
  refine ⟨h.divided, fun c' p hp => ?_, fun c' hp => ?_⟩
  · -- The coroutine in question, and all the others.
    by_cases hc : c' = c
    · subst hc
      exact hin p ((congrArg Status.program (Function.update_self ..)).symm.trans hp)
    · exact h.inside c' p ((congrArg Status.program (Function.update_of_ne hc ..)).symm.trans hp)
  · by_cases hc : c' = c
    · subst hc
      exact hout ((congrArg Status.program (Function.update_self ..)).symm.trans hp)
    · exact h.outside c' ((congrArg Status.program (Function.update_of_ne hc ..)).symm.trans hp)

/-- The thread changes, but no call goes on and nothing is opened or closed. -/
theorem Balanced.setWorld {x : Accounts} (h : Balanced x) (w' : World)
    (hopened : w'.registry.opened = x.world.registry.opened)
    (hstatus : ∀ c, (w'.status c).program = (x.world.status c).program) :
    Balanced { x with world := w' } := by
  refine ⟨?_, fun c p hp => h.inside c p ((hstatus c).symm.trans hp),
    fun c hp => h.outside c ((hstatus c).symm.trans hp)⟩
  rw [hopened]
  exact h.divided

/-- Whoever is resumed goes on with what was left of its call. -/
theorem resume_program (w : World) (c c' : Coroutine) :
    ((w.resume c).status c').program = (w.status c').program := by
  unfold World.resume
  cases hc : w.status c with
  | exited => rfl
  | active => rfl
  | calling p => rfl
  | fresh =>
      change (Function.update w.status c .active c').program = _
      by_cases hne : c' = c
      · rw [hne, Function.update_self, hc]
        rfl
      · rw [Function.update_of_ne hne]
  | parked fd type p =>
      change (Function.update w.status c (.calling p) c').program = _
      by_cases hne : c' = c
      · rw [hne, Function.update_self, hc]
        rfl
      · rw [Function.update_of_ne hne]

/-- The table of the waiting coroutines is not that of the open descriptors. -/
theorem addEvent_opened (c : Coroutine) (fd : Int) (type : EventType) (accepts : Bool)
    (r : Registry) : (addEvent c fd type accepts r).1.opened = r.opened := by
  have hadded := addEvent_added c fd type accepts r
  generalize (addEvent c fd type accepts r).1 = r' at hadded ⊢
  generalize (addEvent c fd type accepts r).2 = ok at hadded
  cases hadded with
  | duplicate e he hdup => rfl
  | entered hnone => rw [epollCtl_opened, setEntry_opened]
  | widened e e' he hnew hroutines => rw [epollCtl_opened, setEntry_opened]

/-- Nor is it for the loop. -/
theorem dispatch_opened (fd : Int) (r : Registry) : (dispatch fd r).2.opened = r.opened := by
  unfold dispatch
  cases r.events fd with
  | none => rfl
  | some e => exact epollCtl_opened ..

/-- Opening a descriptor opens just that one. -/
theorem opened_open (fd fd' : Int) (r : Registry) :
    (r.open fd).opened fd' = true ↔ fd' = fd ∨ r.opened fd' = true := by
  by_cases hfd : fd' = fd
  · simp only [hfd, Registry.open, Function.update_self, true_or]
  · simp only [hfd, Registry.open, Function.update_of_ne hfd, false_or]

/-- And closing closes just that one. -/
theorem opened_close (fd fd' : Int) (r : Registry) :
    (r.close fd).opened fd' = true ↔ fd' ≠ fd ∧ r.opened fd' = true := by
  by_cases hfd : fd' = fd
  · simp only [hfd, Registry.close, Function.update_self, Bool.false_eq_true, ne_eq,
      not_true_eq_false, false_and]
  · simp only [Registry.close, Function.update_of_ne hfd, ne_eq, hfd, not_false_eq_true, true_and]

/-! ## Who gets what -/

section Asked

variable (w' : World) (own : List Int) (kept : Coroutine → Kept) (c : Coroutine) (k : Kept)

theorem holds_call : Accounts.holds ⟨w', own, Function.update kept c k⟩ (.call c) = k.held :=
  congrArg Kept.held (Function.update_self c k kept)

theorem holds_lost : Accounts.holds ⟨w', own, Function.update kept c k⟩ (.lost c) = k.left :=
  congrArg Kept.left (Function.update_self c k kept)

/-- The parties other than the call have what they had. -/
theorem holds_other (w : World) (j : Party) (hcall : j ≠ .call c) (hlost : j ≠ .lost c) :
    Accounts.holds ⟨w', own, Function.update kept c k⟩ j = Accounts.holds ⟨w, own, kept⟩ j := by
  cases j with
  | code => rfl
  | call c' =>
      have hne : c' ≠ c := fun heq => hcall (congrArg Party.call heq)
      simp only [Accounts.holds, Function.update_of_ne hne]
  | lost c' =>
      have hne : c' ≠ c := fun heq => hlost (congrArg Party.lost heq)
      simp only [Accounts.holds, Function.update_of_ne hne]

/-- The coroutines' own descriptors are nothing to the calls. -/
theorem holds_own (w : World) (own' : List Int) (j : Party) (hj : j ≠ .code) :
    Accounts.holds ⟨w', own', kept⟩ j = Accounts.holds ⟨w, own, kept⟩ j := by
  cases j with
  | code => exact absurd rfl hj
  | call c => rfl
  | lost c => rfl

end Asked

section Divide

variable (x : Accounts) (h : Divided (fun fd => x.world.registry.opened fd = true) x.holds)
  (w' : World) (c : Coroutine)

include h

/-- A call that brings nothing new. -/
theorem asked_same (hopened : w'.registry.opened = x.world.registry.opened) :
    Divided (fun fd => w'.registry.opened fd = true)
      (Accounts.holds ⟨w', x.own, Function.update x.kept c (x.kept c)⟩) := by
  rw [Function.update_eq_self, hopened]
  exact h

/-- One that brings a descriptor for itself. -/
theorem asked_make (fd : Int) (hfd : x.world.registry.opened fd = false)
    (hopened : w'.registry.opened = (x.world.registry.open fd).opened) :
    Divided (fun fd => w'.registry.opened fd = true) (Accounts.holds ⟨w', x.own,
      Function.update x.kept c ⟨fd :: (x.kept c).held, (x.kept c).left⟩⟩) := by
  refine divided_take h (.call c) fd (by rw [hfd]; exact Bool.false_ne_true)
    (fun b => by rw [hopened, opened_open]) (holds_call ..) fun j hj => ?_
  by_cases hlost : j = .lost c
  · rw [hlost, holds_lost]
    rfl
  · exact holds_other _ _ _ _ _ _ j hj hlost

/-- One that brings a descriptor for its caller. -/
theorem asked_hand (fd : Int) (hfd : x.world.registry.opened fd = false)
    (hopened : w'.registry.opened = (x.world.registry.open fd).opened) :
    Divided (fun fd => w'.registry.opened fd = true) (Accounts.holds ⟨w', fd :: x.own,
      Function.update x.kept c (x.kept c)⟩) := by
  rw [Function.update_eq_self]
  refine divided_take h .code fd (by rw [hfd]; exact Bool.false_ne_true)
    (fun b => by rw [hopened, opened_open]) rfl (holds_own _ _ _ _ _)

/-- One that closes a descriptor. -/
theorem asked_drop (fd : Int) (hfd : fd ∈ (x.kept c).held)
    (hopened : w'.registry.opened = (x.world.registry.close fd).opened) :
    Divided (fun fd => w'.registry.opened fd = true) (Accounts.holds ⟨w', x.own,
      Function.update x.kept c ⟨(x.kept c).held.erase fd, (x.kept c).left⟩⟩) := by
  refine divided_drop h (.call c) fd hfd (fun b => by rw [hopened, opened_close]) (holds_call ..)
    fun j hj => ?_
  by_cases hlost : j = .lost c
  · rw [hlost, holds_lost]
    rfl
  · exact holds_other _ _ _ _ _ _ j hj hlost

/-- One whose failure leaves behind what the call has made. -/
theorem asked_pass (hopened : w'.registry.opened = x.world.registry.opened) :
    Divided (fun fd => w'.registry.opened fd = true) (Accounts.holds ⟨w', x.own,
      Function.update x.kept c ⟨[], (x.kept c).held ++ (x.kept c).left⟩⟩) := by
  rw [hopened]
  exact divided_pass h (.call c) (.lost c) nofun (holds_call ..) (holds_lost ..)
    (holds_other _ _ _ _ _ _)

/-- What any call brings and takes. -/
theorem asked_divided (call : Call) (reply : Reply call)
    (hfd : ∀ fd, created call reply = some fd → x.world.registry.opened fd = false)
    (hclose : ∀ fd, call = .close fd → fd ∈ (x.kept c).held)
    (hopened : w'.registry.opened = (effect call reply x.world.registry).opened) :
    Divided (fun fd => w'.registry.opened fd = true) (Accounts.holds ⟨w',
      handed call reply ++ x.own, Function.update x.kept c ((x.kept c).next call reply)⟩) := by
  -- Most calls at most open what they bring.
  have hnew : ∀ new, (effect call reply x.world.registry = x.world.registry.openNew new) →
      w'.registry.opened = (x.world.registry.openNew new).opened := fun new heq => by
    rw [hopened, heq]
  cases call with
  | close fd => exact asked_drop x h w' c fd (hclose fd rfl) hopened
  | accept4 fd =>
      change Int at reply
      by_cases hret : reply ≥ 0
      · have hcreated : created (.accept4 fd) reply = some reply := if_pos hret
        rw [show handed (.accept4 fd) reply = [reply] from if_pos hret]
        exact asked_hand x h w' c reply (hfd reply hcreated)
          (hnew (some reply) (congrArg x.world.registry.openNew hcreated))
      · have hcreated : created (.accept4 fd) reply = none := if_neg hret
        rw [show handed (.accept4 fd) reply = [] from if_neg hret]
        exact asked_same x h w' c (hnew none (congrArg x.world.registry.openNew hcreated))
  | epollCreate1 =>
      change Int at reply
      by_cases hret : reply ≥ 0
      · have hcreated : created .epollCreate1 reply = some reply := if_pos hret
        rw [Kept.next, if_pos hret]
        exact asked_make x h w' c reply (hfd reply hcreated)
          (hnew (some reply) (congrArg x.world.registry.openNew hcreated))
      · have hcreated : created .epollCreate1 reply = none := if_neg hret
        rw [Kept.next, if_neg hret]
        exact asked_same x h w' c (hnew none (congrArg x.world.registry.openNew hcreated))
  | timerfdCreate =>
      change Int at reply
      by_cases hret : reply ≥ 0
      · have hcreated : created .timerfdCreate reply = some reply := if_pos hret
        rw [Kept.next, if_pos hret]
        exact asked_make x h w' c reply (hfd reply hcreated)
          (hnew (some reply) (congrArg x.world.registry.openNew hcreated))
      · have hcreated : created .timerfdCreate reply = none := if_neg hret
        rw [Kept.next, if_neg hret]
        exact asked_pass x h w' c (hnew none (congrArg x.world.registry.openNew hcreated))
  | timerfdSettime timerfd sec nsec =>
      change Bool at reply
      -- Two descriptors and a timer that is not set: the guard is not there yet.
      by_cases hlost : (reply && (x.kept c).held.length == 2) = true
      · rw [Kept.next, if_pos hlost]
        exact asked_pass x h w' c hopened
      · rw [Kept.next, if_neg hlost]
        exact asked_same x h w' c hopened
  | _ => exact asked_same x h w' c hopened

end Divide

/-- What a coroutine has that is in no call. -/
theorem Balanced.empty {x : Accounts} (h : Balanced x) (c : Coroutine)
    (hc : (x.world.status c).program = none) : x.kept c = ⟨[], (x.kept c).left⟩ := by
  have hheld := h.outside c hc
  cases hk : x.kept c with
  | mk held left =>
      rw [hk] at hheld
      exact congrArg (Kept.mk · left) hheld

/-- What is left of a call behind a neutral one. -/
theorem Balanced.behind {x : Accounts} (h : Balanced x) (c : Coroutine) (call : Call)
    (k : Reply call → Proc Int) (hc : (x.world.status c).program = some (.call call k))
    (hcall : call.Neutral) (r : Reply call) : (k r).Sound clerk Emptied (x.kept c) := by
  rcases h.inside c _ hc with ⟨hallowed, hk⟩
  have hnext := (neutral_clerk (x.kept c) hallowed.1 call hcall).2 r
  exact hnext ▸ hk r

/-- A call gets its reply. -/
theorem Balanced.asks {x : Accounts} (h : Balanced x) (c : Coroutine) (call : Call)
    (k : Reply call → Proc Int) (reply : Reply call)
    (hc : x.world.status c = .calling (.call call k))
    (hfd : ∀ fd, created call reply = some fd → x.world.registry.opened fd = false) :
    Balanced ⟨{ x.world.setStatus c (.calling (k reply)) with
        registry := effect call reply x.world.registry },
      handed call reply ++ x.own, Function.update x.kept c ((x.kept c).next call reply)⟩ := by
  have hprogram : (x.world.status c).program = some (.call call k) := by
    rw [hc]
    rfl
  rcases h.inside c _ hprogram with ⟨hallowed, hk⟩
  refine ⟨asked_divided x h.divided _ c call reply hfd hallowed.2 rfl, ?_, ?_⟩
  · -- The call that got the reply goes on soundly, since its program is sound for every
    -- reply.
    intro c' p hp
    by_cases hne : c' = c
    · subst hne
      cases (congrArg Status.program (Function.update_self ..)).symm.trans hp
      simp only [Function.update_self]
      exact hk reply
    · simp only [Function.update_of_ne hne]
      exact h.inside c' p ((congrArg Status.program (Function.update_of_ne hne ..)).symm.trans hp)
  · intro c' hp
    by_cases hne : c' = c
    · subst hne
      cases (congrArg Status.program (Function.update_self ..)).symm.trans hp
    · simp only [Function.update_of_ne hne]
      exact h.outside c' ((congrArg Status.program (Function.update_of_ne hne ..)).symm.trans hp)

/-- The steps that open and close nothing. -/
theorem Balanced.step {x : Accounts} (h : Balanced x) (a : Act) (w' : World)
    (hstep : Step x.world a w') (hopens : ∀ fd, a ≠ .opens fd) (hcloses : ∀ fd, a ≠ .closes fd)
    (hasks : ∀ c, a ≠ .asks c) : Balanced { x with world := w' } := by
  cases hstep with
  | opens fd => exact absurd rfl (hopens fd)
  | closes fd => exact absurd rfl (hcloses fd)
  | asks c => exact absurd rfl (hasks c)
  | spawns c hfree hfresh =>
      refine h.setWorld _ ?_ (resume_program _ c)
      simp only [World.resume, hfresh, World.push, World.setStatus]
  | invokes c cs call hstack hc =>
      refine h.setStatus c _ (fun p hp => ?_) fun hp => absurd hp (Option.some_ne_none _)
      cases hp
      -- A new call begins with nothing of its own.
      rw [h.empty c (by rw [hc]; rfl)]
      exact body_sound call _
  | adds c cs caller fd type accepts k hstack hc =>
      have hset := h.setStatus c (.calling (k (addEvent c fd type accepts x.world.registry).2))
        (fun p hp => by
          cases hp
          exact h.behind c (.addEvent caller fd type) k (by rw [hc]; rfl) trivial _)
        fun hp => absurd hp (Option.some_ne_none _)
      exact hset.setWorld _ (addEvent_opened ..) fun _ => rfl
  -- Waiting changes nothing: what the call has, it keeps.
  | yields c cs fd type k hstack hc =>
      have hset := h.setStatus c (.parked fd type (k ()))
        (fun p hp => by
          cases hp
          exact h.behind c (.yield fd type) k (by rw [hc]; rfl) trivial _)
        fun hp => absurd hp (Option.some_ne_none _)
      exact hset.setWorld _ rfl fun _ => rfl
  | returns c cs ret hstack hc =>
      -- A call that is at its end has nothing left.
      have hret := h.inside c (.ret ret) (by rw [hc]; rfl)
      exact h.setStatus c .active (fun p hp => absurd hp.symm (Option.some_ne_none p))
        fun _ => hret
  | exits c cs hstack hc =>
      have hset := h.setStatus c .exited (fun p hp => absurd hp.symm (Option.some_ne_none p))
        fun _ => h.outside c (by rw [hc]; rfl)
      exact hset.setWorld _ rfl fun _ => rfl
  | dispatches fd hstack hidle hready =>
      exact h.setWorld _ (dispatch_opened fd _) fun _ => rfl
  | resumes c cs hstack hdue =>
      refine h.setWorld _ ?_ (resume_program _ c)
      unfold World.resume
      split <;> rfl

/-- A step of the thread keeps the division. -/
theorem balanced_move (x y : Accounts) (a : Act) (h : Balanced x) (hmove : Move x a y) :
    Balanced y := by
  cases hmove with
  | opens fd w' hstep =>
      cases hstep with
      | opens _ hfree hclosed =>
          refine ⟨?_, h.inside, h.outside⟩
          exact divided_take h.divided .code fd (by rw [hclosed]; exact Bool.false_ne_true)
            (fun b => opened_open fd b _) rfl (holds_own _ _ _ _ _)
  -- What is closed here is the coroutines' own, by assumption.
  | closes fd w' hstep hown =>
      cases hstep with
      | closes _ hfree =>
          refine ⟨?_, h.inside, h.outside⟩
          exact divided_drop h.divided .code fd hown (fun b => opened_close fd b _) rfl
            (holds_own _ _ _ _ _)
  | asks c cs call k reply hstack hc hplain hfd => exact h.asks c call k reply hc hfd
  | other _ w' hstep hopens hcloses hasks => exact h.step a w' hstep hopens hcloses hasks

/-- A call in progress has two descriptors at most. -/
theorem Balanced.two {x : Accounts} (h : Balanced x) (c : Coroutine) :
    (x.kept c).held.length ≤ 2 := by
  cases hp : (x.world.status c).program with
  | none =>
      rw [h.outside c hp]
      exact Nat.zero_le 2
  | some p =>
      have hsound := h.inside c p hp
      cases p with
      | ret ret =>
          rw [show (x.kept c).held = [] from hsound]
          exact Nat.zero_le 2
      | call call k => exact hsound.1.1

/-- In every state of every run, the open descriptors are divided: each is the coroutines' own,
    or one of a call in progress, or one that a call has left behind. A call has at most two,
    and none when it has returned; and what it closes is one of these. -/
theorem descriptors_divided (acts : List Act) (x : Accounts)
    (hrun : Steps Move Accounts.initial acts x) :
    Divided (fun fd => x.world.registry.opened fd = true) x.holds ∧
      (∀ c, (x.kept c).held.length ≤ 2 ∧
        ((x.world.status c).program = none → (x.kept c).held = [])) ∧
      ∀ c fd k, x.world.status c = .calling (.call (.close fd) k) → fd ∈ (x.kept c).held := by
  have h : Balanced x := steps_invariant Balanced
    (fun x a y h hmove => balanced_move x y a h hmove) _ x acts hrun balanced_initial
  refine ⟨h.divided, fun c => ⟨h.two c, h.outside c⟩, fun c fd k hc => ?_⟩
  have hsound := h.inside c (.call (.close fd) k) (by rw [hc]; rfl)
  exact hsound.1.2 fd rfl

/-- A coroutine polls for ever, as it thinks. -/
theorem descriptors_divided_lost :
    ∃ acts x, Steps Move Accounts.initial acts x ∧ x.holds (.lost 0) = [6, 5] ∧
      x.world.status 0 = .active ∧ x.world.registry.opened 5 = true := by
  have hrun := Steps.cons _ _ _ _ _ (Move.other Accounts.initial _ _
      (Step.spawns World.initial 0 rfl rfl) nofun nofun nofun) <|
    Steps.cons _ _ _ _ _ (Move.other _ _ _
      (Step.invokes _ 0 [] (.poll [] (-1)) rfl rfl) nofun nofun nofun) <|
    Steps.cons _ _ _ _ _ (Move.asks _ 0 [] (.poll []) _
      ((0, ⟨[], rfl⟩) : Int × { revents : List Int16 // revents.length = 0 }) rfl rfl trivial
      nofun) <|
    Steps.cons _ _ _ _ _ (Move.asks _ 0 [] .epollCreate1 _ (5 : Int) rfl rfl trivial
      (fun _ h => by cases h; rfl)) <|
    Steps.cons _ _ _ _ _ (Move.asks _ 0 [] .timerfdCreate _ (6 : Int) rfl rfl trivial
      (fun _ h => by cases h; rfl)) <|
    Steps.cons _ _ _ _ _ (Move.asks _ 0 [] (.timerfdSettime 6 0 (-1000000)) _ true rfl rfl trivial
      nofun) <|
    Steps.cons _ _ _ _ _ (Move.asks _ 0 [] (.setErrno Errno.EINTR) _ () rfl rfl trivial nofun) <|
    Steps.cons _ _ _ _ _ (Move.other _ _ _ (Step.returns _ 0 [] (-1) rfl rfl) nofun nofun nofun) <|
    Steps.refl _
  exact ⟨_, _, hrun, rfl, rfl, ((descriptors_divided _ _ hrun).1.held 5).mpr
    ⟨.lost 0, List.mem_cons_of_mem _ List.mem_cons_self⟩⟩

/-! ## Negative timeouts -/

/-- The kernel refuses times that are negative. -/
def Refuses : Ev → Prop
  | ⟨.timerfdSettime _ sec nsec, (failed : Bool)⟩ => sec < 0 ∨ nsec < 0 → failed = true
  | _ => True

/-- The descriptors that a run has made. -/
def made (t : List Ev) : List Int := t.filterMap fun e => created e.1 e.2

theorem made_none (c : Call) (r : Reply c) (t : List Ev) (h : created c r = none) :
    made (⟨c, r⟩ :: t) = made t := List.filterMap_cons_none h

theorem made_some (c : Call) (r : Reply c) (t : List Ev) (fd : Int) (h : created c r = some fd) :
    made (⟨c, r⟩ :: t) = fd :: made t := List.filterMap_cons_some h

theorem negative_time (timeout : Int) (h : timeout < 0) :
    timeout.tdiv 1000 < 0 ∨ timeout.tmod 1000 * 1000000 < 0 := by
  have hdiv := Int.mul_tdiv_add_tmod timeout 1000
  omega

/-- With a negative timeout `co::poll` never waits and never says that nothing has happened,
    and it leaves open whatever it has made. -/
theorem poll_negative (fds : List PollFd) (timeout : Int) (t : List Ev)
    (x : Except Fault (Int × List PollFd)) (left : List Int) (htimeout : timeout < 0)
    (hr : Runs (poll fds timeout) t x) (hkernel : ∀ e ∈ t, Refuses e) :
    (∀ e ∈ t, ∀ fd type, e.1 ≠ .yield fd type) ∧ (∃ ret pfds, x = .ok (ret, pfds) ∧ ret ≠ 0) ∧
      clerk.follow ⟨[], left⟩ t = ⟨[], (made t).reverse ++ left⟩ := by
  unfold poll at hr
  rcases runs_ask _ _ _ _ hr with ⟨polled, t1, rfl, hcreate⟩
  by_cases hready : polled.1 ≠ 0 ∨ timeout = 0
  · rw [if_pos hready] at hcreate
    rcases (runs_ret_iff ..).mp hcreate with ⟨rfl, rfl⟩
    exact ⟨List.forall_mem_singleton.mpr nofun, ⟨_, _, rfl, hready.resolve_right (by omega)⟩, rfl⟩
  rw [if_neg hready] at hcreate
  rcases runs_ask _ _ _ _ hcreate with ⟨(epfd : Int), t2, rfl, htimer⟩
  by_cases hep : epfd < 0
  · rw [if_pos hep] at htimer
    rcases (runs_ret_iff ..).mp htimer with ⟨rfl, rfl⟩
    have hnext : Kept.next ⟨[], left⟩ .epollCreate1 epfd = ⟨[], left⟩ := if_neg (by omega)
    have hnone : created .epollCreate1 epfd = none := if_neg (by omega)
    refine ⟨?_, ⟨_, _, rfl, by decide⟩, hnext.trans ?_⟩
    · simp only [List.forall_mem_cons, ne_eq, reduceCtorEq, not_false_eq_true, implies_true,
        true_and, List.not_mem_nil, false_implies]
    · rw [made_none _ _ _ rfl, made_none _ _ _ hnone]
      rfl
  have hnext : Kept.next ⟨[], left⟩ .epollCreate1 epfd = ⟨[epfd], left⟩ := if_pos (by omega)
  have hsome : created .epollCreate1 epfd = some epfd := if_pos (by omega)
  rw [if_neg hep] at htimer
  rcases runs_ask _ _ _ _ htimer with ⟨(timerfd : Int), t3, rfl, hset⟩
  by_cases htimer : timerfd < 0
  · rw [if_pos htimer] at hset
    rcases (runs_ret_iff ..).mp hset with ⟨rfl, rfl⟩
    have hlost : Kept.next ⟨[epfd], left⟩ .timerfdCreate timerfd = ⟨[], epfd :: left⟩ :=
      if_neg (by omega)
    have hnone : created .timerfdCreate timerfd = none := if_neg (by omega)
    refine ⟨?_, ⟨_, _, rfl, by decide⟩, ?_⟩
    · simp only [List.forall_mem_cons, ne_eq, reduceCtorEq, not_false_eq_true, implies_true,
        true_and, List.not_mem_nil, false_implies]
    · refine (congrArg (Kept.next · .timerfdCreate timerfd) hnext).trans (hlost.trans ?_)
      rw [made_none _ _ _ rfl, made_some _ _ _ _ hsome, made_none _ _ _ hnone]
      rfl
  have hboth : Kept.next ⟨[epfd], left⟩ .timerfdCreate timerfd = ⟨[timerfd, epfd], left⟩ :=
    if_pos (by omega)
  have hsome' : created .timerfdCreate timerfd = some timerfd := if_pos (by omega)
  rw [if_neg htimer] at hset
  rcases runs_ask _ _ _ _ hset with ⟨(failed : Bool), t4, rfl, hend⟩
  -- The time to be set is negative.
  have hfailed : failed = true := hkernel _ (List.mem_cons_of_mem _ (List.mem_cons_of_mem _
    (List.mem_cons_of_mem _ List.mem_cons_self))) (negative_time timeout htimeout)
  subst hfailed
  rw [if_pos rfl] at hend
  rcases runs_ask _ _ _ _ hend with ⟨_, t5, rfl, hret⟩
  rcases (runs_ret_iff ..).mp hret with ⟨rfl, rfl⟩
  refine ⟨?_, ⟨_, _, rfl, by decide⟩, ?_⟩
  · simp only [List.forall_mem_cons, ne_eq, reduceCtorEq, not_false_eq_true, implies_true,
      true_and, List.not_mem_nil, false_implies]
  · have hmade := (congrArg (Kept.next · .timerfdCreate timerfd) hnext).trans hboth
    refine (congrArg (fun k => Kept.next k (.timerfdSettime timerfd (timeout.tdiv 1000)
      (timeout.tmod 1000 * 1000000)) true) hmade).trans ?_
    rw [made_none _ _ _ rfl, made_some _ _ _ _ hsome, made_some _ _ _ _ hsome']
    rfl

/-- The kernel has made both, and refuses to set the timer. -/
def refusedTrace : List Ev :=
  [⟨.poll [], ((0, ⟨[], List.length_nil⟩) :
      Int × { revents : List Int16 // revents.length = 0 })⟩,
    ⟨.epollCreate1, (5 : Int)⟩, ⟨.timerfdCreate, (6 : Int)⟩,
    ⟨.timerfdSettime 6 0 (-1000000), true⟩, ⟨.setErrno Errno.EINTR, ()⟩]

/-- The one way this can go, with the numbers the kernel has given out. -/
theorem poll_negative_refused :
    (∀ e ∈ refusedTrace, ∀ fd type, e.1 ≠ .yield fd type) ∧
      (∃ ret pfds, (.ok (-1, []) : Except Fault (Int × List PollFd)) = .ok (ret, pfds) ∧ ret ≠ 0) ∧
      clerk.follow ⟨[], []⟩ refusedTrace = ⟨[], [6, 5] ++ []⟩ := by
  refine poll_negative [] (-1) refusedTrace _ [] (by decide) ?_ ?_
  · unfold refusedTrace
    repeat refine Runs.call _ _ _ _ _ ?_
    exact Runs.ret _
  · simp only [refusedTrace, List.forall_mem_cons]
    exact ⟨trivial, trivial, trivial, fun _ => rfl, trivial, nofun⟩

end Co
