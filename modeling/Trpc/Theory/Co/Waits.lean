import Trpc.Core.Loop

/-!
# How the Calls Wait

All the waiting calls are alike in how they wait: a yield comes right after
`addEvent`, for the same descriptor and event, and nowhere else. They differ in
what they do when `addEvent` returns no entry: `poll`, `sleep` and `usleep` yield
all the same, `read`, `write` and `accept4` return 0, and only `connect` returns an
error.

`Disciplined` says this of a program, and `proper_body` says it of every call.
Nothing else about the calls is needed later on.

## Main definitions

* `awaits`: What a program that is about to yield is going to wait for.
* `Fails`: A program that is going to return an error, and does not wait.
* `Disciplined`: A program that waits as described.

## Theorems

* `proper_body`: The calls wait as described.
-/

namespace Co

open Trpc Interaction

variable {α β : Type}

/-- What a program that is about to yield is going to wait for. -/
def awaits : Proc α → Option (Int × EventType)
  | .call (.yield fd type) _ => some (fd, type)
  | _ => none

/-- The program is going to return an error, and does not wait before. -/
def Fails : Proc Int → Prop
  | .ret ret => ret < 0
  | .call c k => c.Plain ∧ ∀ r, Fails (k r)

/-- What can come after a call. -/
def Entered : (c : Call) → (Reply c → Proc Int) → Prop
  | .addEvent caller fd type, k =>
    awaits (k true) = some (fd, type) ∧
      (awaits (k false) = none ∨ awaits (k false) = some (fd, type)) ∧
      (Fails (k false) ↔ caller = .connect)
  | _, k => ∀ r, awaits (k r) = none

/-- Every yield of the program comes right after `addEvent`. -/
def Disciplined : Proc Int → Prop
  | .ret _ => True
  | .call c k => Entered c k ∧ ∀ r, Disciplined (k r)

/-- A whole call: it does not start with a yield either. -/
def Proper (p : Proc Int) : Prop := Disciplined p ∧ awaits p = none

@[simp] theorem proper_ret (ret : Int) : Proper (.ret ret) := ⟨trivial, rfl⟩

/-- A system call can be followed by whatever is proper. -/
theorem proper_plain (c : Call) (k : Reply c → Proc Int) (hc : c.Plain)
    (hk : ∀ r, Proper (k r)) : Proper (.call c k) := by
  cases c with
  | addEvent _ _ _ => exact absurd hc id
  | yield _ _ => exact absurd hc id
  | _ => exact ⟨⟨fun r => (hk r).2, fun r => (hk r).1⟩, rfl⟩

theorem disciplined_yield (fd : Int) (type : EventType) (k : Unit → Proc Int)
    (hk : Proper (k ())) : Disciplined (.call (.yield fd type) k) :=
  -- A call whose rest is proper does not start that rest with a yield.
  ⟨fun _ => hk.2, fun _ => hk.1⟩

/-- A call that looks at what `addEvent` returns. -/
theorem proper_wait (caller : Api) (fd : Int) (type : EventType) (k : Unit → Proc Int)
    (p : Proc Int) (hk : Proper (k ())) (hp : Proper p)
    (hfails : Fails p ↔ caller = .connect) :
    Proper (.call (.addEvent caller fd type) fun iter : Bool =>
      if iter then .call (.yield fd type) k else p) := by
  -- With an entry the yield comes next, without one the call goes on as `p`.
  refine ⟨⟨⟨rfl, Or.inl hp.2, hfails⟩, fun iter => ?_⟩, rfl⟩
  cases iter with
  | false => exact hp.1
  | true => exact disciplined_yield fd type k hk

/-- A call that does not. -/
theorem proper_blind (caller : Api) (fd : Int) (type : EventType) (k : Unit → Proc Int)
    (hk : Proper (k ())) (hcaller : caller ≠ .connect) :
    Proper (.call (.addEvent caller fd type) fun _ : Bool => .call (.yield fd type) k) :=
  -- The result of `addEvent` is dropped, so the yield comes in both cases.
  ⟨⟨⟨rfl, Or.inr rfl, fun h => absurd h.1 id, fun h => absurd h hcaller⟩,
    fun _ => disciplined_yield fd type k hk⟩, rfl⟩

/-- Return 0 without an entry, and make one last call otherwise. -/
theorem proper_retry (caller : Api) (fd : Int) (type : EventType) (p : Proc Int) (hp : Proper p)
    (hcaller : caller ≠ .connect) :
    Proper (.call (.addEvent caller fd type) fun iter : Bool =>
      if iter then .call (.yield fd type) fun _ : Unit => p else .ret 0) :=
  proper_wait caller fd type (fun _ => p) (.ret 0) hp (proper_ret 0)
    ⟨fun h => absurd h (by simp only [Fails, lt_irrefl, not_false_eq_true]),
      fun h => absurd h hcaller⟩

theorem fails_fail (e : Errno) : Fails (fail e) :=
  ⟨trivial, fun _ => (show (-1 : Int) < 0 by decide)⟩

theorem proper_fail (e : Errno) : Proper (fail e) :=
  proper_plain _ _ trivial fun _ => proper_ret (-1)

/-- Both ways of a branch have to be proper. -/
theorem proper_ite (c : Prop) [Decidable c] (p q : Proc Int) (hp : Proper p) (hq : Proper q) :
    Proper (if c then p else q) := by
  by_cases hc : c
  · rw [if_pos hc]
    exact hp
  · rw [if_neg hc]
    exact hq

/-! ## The calls -/

theorem proper_read (fd : Int) (size : Nat) : Proper (read fd size) := by
  unfold read
  refine proper_plain _ _ trivial fun (ret : Int) => ?_
  refine proper_ite _ _ _ (proper_ret _) ?_
  -- Only `EAGAIN` leads here: nothing was there to be read.
  exact proper_retry .read fd .read _ (proper_plain _ _ trivial proper_ret) (by decide)

theorem proper_write (fd : Int) (size : Nat) : Proper (write fd size) := by
  unfold write
  refine proper_plain _ _ trivial fun (ret : Int) => ?_
  refine proper_ite _ _ _ (proper_ret _) ?_
  exact proper_retry .write fd .write _ (proper_plain _ _ trivial proper_ret) (by decide)

theorem proper_accept4 (fd : Int) : Proper (accept4 fd) := by
  unfold accept4
  refine proper_plain _ _ trivial fun (ret : Int) => ?_
  refine proper_ite _ _ _ (proper_ret _) ?_
  exact proper_retry .accept4 fd .read _ (proper_plain _ _ trivial proper_ret) (by decide)

theorem proper_delta (seconds start : Int) (f : Int → Proc Int) (hf : ∀ ret, Proper (f ret)) :
    Proper ((delta seconds start).bind f) := proper_plain _ _ trivial fun _ => hf _

theorem proper_fail_bind (e : Errno) (f : Int → Proc Int) (hf : ∀ ret, Proper (f ret)) :
    Proper ((fail e).bind f) := proper_plain _ _ trivial fun _ => hf _

/-- Close a descriptor and return. -/
theorem proper_close (fd ret : Int) :
    Proper ((ask (.close fd)).bind fun _ => (.ret ret : Proc Int)) :=
  proper_plain _ _ trivial fun _ => proper_ret ret

/-- `sleep` yields even when it has no entry. -/
theorem proper_sleepWait (seconds start timerfd : Int) (f : Int → Proc Int)
    (hf : ∀ ret, Proper (f ret)) : Proper ((sleepWait seconds start timerfd).bind f) := by
  unfold sleepWait
  refine proper_plain _ _ trivial fun failed => ?_
  cases failed with
  -- The timer could not be set, so there is no wait at all.
  | true => exact proper_delta _ _ _ hf
  | false =>
      refine proper_blind .sleep timerfd .read _ ?_ (by decide)
      refine proper_plain _ _ trivial fun value => ?_
      cases value with
      -- The timer was not read, and the clock says how long it was.
      | none => exact proper_delta _ _ _ hf
      | some value => exact hf _

theorem proper_sleep (seconds : Nat) : Proper (sleep seconds) := by
  unfold sleep
  refine proper_plain _ _ trivial fun start => ?_
  refine proper_plain _ _ trivial fun (timerfd : Int) => ?_
  refine proper_ite _ _ _ (proper_plain _ _ trivial fun _ => proper_ret _) ?_
  exact proper_sleepWait _ _ _ _ (proper_close timerfd)

/-- `usleep` yields without an entry as well, and fails where `sleep` looks at the clock. -/
theorem proper_usleepWait (usec timerfd : Int) (f : Int → Proc Int)
    (hf : ∀ ret, Proper (f ret)) : Proper ((usleepWait usec timerfd).bind f) := by
  unfold usleepWait
  refine proper_plain _ _ trivial fun failed => ?_
  cases failed with
  | true => exact proper_fail_bind _ _ hf
  | false =>
      refine proper_blind .usleep timerfd .read _ ?_ (by decide)
      refine proper_plain _ _ trivial fun value => ?_
      cases value with
      | none => exact proper_fail_bind _ _ hf
      | some value => exact hf _

theorem proper_usleep (usec : Nat) : Proper (usleep usec) := by
  unfold usleep
  refine proper_ite _ _ _ (proper_fail _) ?_
  refine proper_plain _ _ trivial fun (timerfd : Int) => ?_
  refine proper_ite _ _ _ (proper_fail _) ?_
  exact proper_usleepWait _ _ _ (proper_close timerfd)

theorem proper_enlist (epfd : Int) (f : Unit → Proc Int) (hf : Proper (f ())) (fds : List PollFd) :
    ∀ id, Proper ((enlist epfd fds id).bind f) := by
  induction fds with
  | nil => exact fun _ => hf
  | cons pfd fds ih => exact fun id => proper_plain _ _ trivial fun _ => ih (id + 1)

theorem bind_assoc {γ : Type} (p : Proc α) (f : α → Proc β) (g : β → Proc γ) :
    (p.bind f).bind g = p.bind fun a => (f a).bind g := by
  induction p with
  | ret a => rfl
  | call c k ih => exact congrArg _ (funext ih)

/-- The wait of `poll` is a single yield, for the `epoll` descriptor. -/
theorem proper_pollWait (epfd timerfd : Int) (fds : List PollFd)
    (f : Except Fault (Int × List PollFd) → Proc Int) (hf : ∀ r, Proper (f r)) :
    Proper ((pollWait epfd timerfd fds).bind f) := by
  simp only [pollWait, Prog.bind_def, bind_assoc]
  refine proper_enlist epfd _ ?_ fds 0
  refine proper_plain _ _ trivial fun failed => ?_
  cases failed with
  | true => exact hf _
  | false =>
      -- One wait covers all descriptors: they are registered with `epfd`, not with the
      -- loop.
      refine proper_blind .poll epfd .read _ ?_ (by decide)
      refine proper_plain _ _ trivial fun es => ?_
      cases es with
      | none => exact hf _
      | some es => exact hf _

theorem proper_ite_bind (c : Prop) [Decidable c] (p q : Proc α) (f : α → Proc Int)
    (hp : Proper (p.bind f)) (hq : Proper (q.bind f)) :
    Proper ((if c then p else q).bind f) := by
  rw [apply_ite (Prog.bind · f)]
  exact proper_ite c _ _ hp hq

/-- A whole `poll`, in front of whatever comes behind it. `connect` uses it to wait between
    two attempts. -/
theorem proper_poll (fds : List PollFd) (timeout : Int)
    (f : Except Fault (Int × List PollFd) → Proc Int) (hf : ∀ r, Proper (f r)) :
    Proper ((poll fds timeout).bind f) := by
  unfold poll
  refine proper_plain _ _ trivial fun polled => ?_
  refine proper_ite_bind _ _ _ f (hf _) ?_
  refine proper_plain _ _ trivial fun (epfd : Int) => ?_
  refine proper_ite_bind _ _ _ f (hf _) ?_
  refine proper_plain _ _ trivial fun (timerfd : Int) => ?_
  refine proper_ite_bind _ _ _ f (hf _) ?_
  refine proper_plain _ _ trivial fun (failed : Bool) => ?_
  -- The early returns close what has been opened so far, and none of them waits.
  refine proper_ite_bind _ _ _ f (proper_plain _ _ trivial fun _ => hf _) ?_
  rw [Prog.bind_def, bind_assoc]
  refine proper_pollWait epfd timerfd _ _ fun ret => ?_
  exact proper_plain _ _ trivial fun _ => proper_plain _ _ trivial fun _ => hf ret

/-- One attempt of `connect`. It is the only call that fails without an entry. -/
theorem proper_connectAttempt (fd : Int) (retry : Proc Int) (hretry : Proper retry) :
    Proper (connectAttempt fd retry) := by
  unfold connectAttempt
  refine proper_plain _ _ trivial fun ret => ?_
  -- This is the third clause of `Entered`: the program behind a missing entry returns an
  -- error.
  refine proper_wait .connect fd .write _ _ ?_ (proper_fail _)
    ⟨fun _ => rfl, fun _ => fails_fail _⟩
  refine proper_plain _ _ trivial fun soerr => ?_
  cases soerr with
  | none => exact proper_fail _
  | some soerr =>
      refine proper_ite _ _ _ ?_ (proper_ite _ _ _ hretry (proper_fail _))
      exact proper_plain _ _ trivial fun (failed : Bool) => proper_ite _ _ _ hretry (proper_ret 0)

/-- All attempts. The wait between two of them is that of `poll`, and is over before the
    next attempt starts. -/
theorem proper_connectLoop (fd : Int) (left : Nat) :
    ∀ retries, Proper (connectLoop fd left retries) := by
  induction left with
  | zero => exact fun _ => proper_fail _
  | succ left ih =>
      -- The induction is on the attempts left. The number of attempts made decides only
      -- how long the wait in front is.
      intro retries
      have hattempt := proper_connectAttempt fd _ (ih (retries + 1))
      exact proper_ite _ _ _ (proper_poll _ _ _ fun _ => hattempt) hattempt

/-- Every call a coroutine can be in waits as described. -/
theorem proper_body (call : Invocation) : Proper call.body := by
  cases call with
  | read fd size => exact proper_read fd size
  | write fd size => exact proper_write fd size
  | connect connectRetries fd => exact proper_connectLoop fd connectRetries 0
  | accept4 fd => exact proper_accept4 fd
  | sleep seconds => exact proper_sleep seconds
  | usleep usec => exact proper_usleep usec
  | poll fds timeout => exact proper_poll fds timeout _ fun _ => proper_ret _

end Co
