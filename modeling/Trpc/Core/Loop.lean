import Trpc.Core.Posix
import Trpc.Lib.Transition

/-!
# Coroutines and the Event Loop

One thread: its coroutines, of which one runs at a time, and `co::loop`, which runs
when none does. A coroutine that yields gives way to the one that resumed it, so the
coroutines that have been resumed and have not yielded stand on a stack; what is at
its bottom, the main coroutine, is left out here.

What a coroutine does on its own is anything: it starts others, opens and closes
descriptors, any at any time, and makes the calls of this library in any order.
Inside a call it does what the call does. The kernel's replies are arbitrary but for
the numbers of new descriptors, which are not in use.

The loop takes a descriptor that is ready, drops its entry, and resumes the coroutines
that were in it one after the other; each of them runs, with all that it resumes
itself, until the stack is empty again.

## Main definitions

* `Status`, `World`: The state.
* `World.resume`: `Coroutine::resume`.
* `Invocation`: A call with its arguments.
* `Step`: What can happen next.
-/

namespace Co

open Trpc Interaction Transition

/-- What a coroutine is about. -/
inductive Status where
  /-- It has not been started. -/
  | fresh
  /-- It is running code of its own, or has resumed another that is running. -/
  | active
  /-- It is inside a call, with this left to do. -/
  | calling (p : Proc Int)
  /-- It has yielded inside a call, waiting for a descriptor. -/
  | parked (fd : Int) (type : EventType) (p : Proc Int)
  /-- Its entry has returned. -/
  | exited

/-- The thread: the table and the kernel, the coroutines, `_cStack` from its top, and
    the array of `loop` as far as it is still to be resumed. -/
structure World where
  registry : Registry
  status : Coroutine → Status
  stack : List Coroutine
  routines : List Coroutine

/-- Nothing has happened yet. -/
def World.initial : World :=
  ⟨⟨fun _ => none, fun _ => none, fun _ => false⟩, fun _ => .fresh, [], []⟩

def World.setStatus (c : Coroutine) (x : Status) (w : World) : World :=
  { w with status := Function.update w.status c x }

def World.push (c : Coroutine) (w : World) : World := { w with stack := c :: w.stack }

def World.pop (w : World) : World := { w with stack := w.stack.tail }

/-- `Coroutine::resume`. -/
def World.resume (c : Coroutine) (w : World) : World :=
  match w.status c with
  | .exited => w
  | .fresh => (w.setStatus c .active).push c
  | .parked _ _ p => (w.setStatus c (.calling p)).push c
  | .active | .calling _ => w.push c

/-- A call with its arguments. -/
inductive Invocation where
  | read (fd : Int) (size : Nat)
  | write (fd : Int) (size : Nat)
  | connect (connectRetries : Nat) (fd : Int)
  | accept4 (fd : Int)
  | sleep (seconds : Nat)
  | usleep (usec : Nat)
  | poll (fds : List PollFd) (timeout : Int)

/-- The return value of `poll`. -/
def polled : Except Fault (Int × List PollFd) → Int
  | .ok (ret, _) => ret
  | .error _ => -1

def Invocation.body : Invocation → Proc Int
  | .read fd size => Co.read fd size
  | .write fd size => Co.write fd size
  | .connect connectRetries fd => Co.connect connectRetries fd
  | .accept4 fd => Co.accept4 fd
  | .sleep seconds => Co.sleep seconds
  | .usleep usec => Co.usleep usec
  | .poll fds timeout => do return polled (← Co.poll fds timeout)

/-- A system call proper, not one of the two that are the table's and the scheduler's. -/
def Call.Plain : Call → Prop
  | .addEvent _ _ _ => False
  | .yield _ _ => False
  | _ => True

/-- The new descriptor of a reply. -/
def created : (c : Call) → Reply c → Option Int
  | .accept4 _, (ret : Int) => if ret ≥ 0 then some ret else none
  | .timerfdCreate, (ret : Int) => if ret ≥ 0 then some ret else none
  | .epollCreate1, (ret : Int) => if ret ≥ 0 then some ret else none
  | _, _ => none

def Registry.openNew (new : Option Int) (r : Registry) : Registry :=
  match new with
  | some fd => r.open fd
  | none => r

/-- What a system call does to the descriptors. -/
def effect : (c : Call) → Reply c → Registry → Registry
  | .close fd, _, r => r.close fd
  | c, reply, r => r.openNew (created c reply)

/-- It is the turn of code outside this library: of the running coroutine, or, when
    the loop is not in the middle of its array, of the main one. -/
def World.Free (w : World) : Prop :=
  match w.stack with
  | [] => w.routines = []
  | c :: _ => w.status c = .active

/-- What has happened. -/
inductive Act where
  | opens (fd : Int)
  | closes (fd : Int)
  | spawns (c : Coroutine)
  | invokes (c : Coroutine) (call : Invocation)
  | asks (c : Coroutine)
  | adds (c : Coroutine) (caller : Api) (fd : Int) (type : EventType) (accepts : Bool)
  | yields (c : Coroutine)
  | returns (c : Coroutine)
  | exits (c : Coroutine)
  | dispatches (fd : Int)
  | resumes (c : Coroutine)

/-- What can happen next. -/
inductive Step : World → Act → World → Prop where
  | opens (w : World) (fd : Int) : w.Free → w.registry.opened fd = false →
      Step w (.opens fd) { w with registry := w.registry.open fd }
  | closes (w : World) (fd : Int) : w.Free →
      Step w (.closes fd) { w with registry := w.registry.close fd }
  | spawns (w : World) (c : Coroutine) : w.Free → w.status c = .fresh →
      Step w (.spawns c) (w.resume c)
  | invokes (w : World) (c : Coroutine) (cs : List Coroutine) (call : Invocation) :
      w.stack = c :: cs → w.status c = .active →
      Step w (.invokes c call) (w.setStatus c (.calling call.body))
  | asks (w : World) (c : Coroutine) (cs : List Coroutine) (call : Call)
      (k : Reply call → Proc Int) (reply : Reply call) :
      w.stack = c :: cs → w.status c = .calling (.call call k) → call.Plain →
      (∀ fd, created call reply = some fd → w.registry.opened fd = false) →
      Step w (.asks c)
        { w.setStatus c (.calling (k reply)) with registry := effect call reply w.registry }
  | adds (w : World) (c : Coroutine) (cs : List Coroutine) (caller : Api) (fd : Int)
      (type : EventType) (accepts : Bool) (k : Bool → Proc Int) :
      w.stack = c :: cs → w.status c = .calling (.call (.addEvent caller fd type) k) →
      Step w (.adds c caller fd type accepts)
        { w.setStatus c (.calling (k (addEvent c fd type accepts w.registry).2)) with
          registry := (addEvent c fd type accepts w.registry).1 }
  | yields (w : World) (c : Coroutine) (cs : List Coroutine) (fd : Int) (type : EventType)
      (k : Unit → Proc Int) :
      w.stack = c :: cs → w.status c = .calling (.call (.yield fd type) k) →
      Step w (.yields c) (w.setStatus c (.parked fd type (k ()))).pop
  | returns (w : World) (c : Coroutine) (cs : List Coroutine) (ret : Int) :
      w.stack = c :: cs → w.status c = .calling (.ret ret) →
      Step w (.returns c) (w.setStatus c .active)
  | exits (w : World) (c : Coroutine) (cs : List Coroutine) :
      w.stack = c :: cs → w.status c = .active →
      Step w (.exits c) (w.setStatus c .exited).pop
  | dispatches (w : World) (fd : Int) :
      w.stack = [] → w.routines = [] → (w.registry.interest fd).isSome →
      Step w (.dispatches fd)
        { w with registry := (dispatch fd w.registry).2, routines := (dispatch fd w.registry).1 }
  | resumes (w : World) (c : Coroutine) (cs : List Coroutine) :
      w.stack = [] → w.routines = c :: cs →
      Step w (.resumes c) ({ w with routines := cs }.resume c)

/-- A run of the thread. -/
abbrev Run : World → List Act → World → Prop := Steps Step

end Co
