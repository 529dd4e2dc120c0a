import Trpc.Core.Sys
import Mathlib.Logic.Function.Basic

/-!
# Waiting Calls

`co::read`, `co::write` and the other versions of system calls that put a coroutine
to sleep instead of the thread. Each of them tries first; then it enters the
descriptor in a table, together with the coroutine that will wait for it, and
yields; and when the event loop has resumed it, it tries once more.

The table is `PollConfig::events`. The kernel keeps a list of its own, of the
descriptors that `epoll_wait` is to report. The two are changed together, in
`addEvent` and in the loop, but the kernel forgets a descriptor when it is closed
and the table does not.

The calls are programs over the system calls they make. `addEvent` is one of these
as well: what it answers is up to the table, not to the kernel, so it is given its
meaning where the table is. Likewise `yield`, which notes what the coroutine is
waiting for. Buffers and addresses are left out, a call is told by its return value.

## Main definitions

* `Event`, `Registry`: The table, and the kernel's side of it.
* `addEvent`: An entry in both.
* `dispatch`: What the loop does about a descriptor that is ready.
* `Call`, `Reply`: What the waiting calls ask for.
* `read`, `write`, `connect`, `accept4`, `sleep`, `usleep`, `poll`: The waiting calls.
-/

namespace Trpc

namespace Errno

def EPERM : Errno := 1
def EADDRINUSE : Errno := 98
def EADDRNOTAVAIL : Errno := 99
def ENETUNREACH : Errno := 101
def EISCONN : Errno := 106
def ECONNREFUSED : Errno := 111
def EALREADY : Errno := 114
def EINPROGRESS : Errno := 115

end Errno

end Trpc

namespace Co

open Trpc Interaction

/-- A coroutine, as what tells it from the others. -/
abbrev Coroutine := Nat

/-! ## The table -/

/-- `Event::Type`. -/
inductive EventType where
  | read
  | write
  | error
  deriving DecidableEq

/-- `EPOLLIN`, `EPOLLOUT` and `EPOLLERR`. -/
def EventType.newEvent : EventType → UInt32
  | .read => 1
  | .write => 4
  | .error => 8

/-- `Event`: who waits for what on a descriptor. -/
structure Event where
  routines : EventType → Option Coroutine
  events : UInt32
  fd : Int

/-- `PollConfig::events`, and what the kernel knows: the interest list with its masks,
    and the descriptors that are open. -/
structure Registry where
  events : Int → Option Event
  interest : Int → Option UInt32
  opened : Int → Bool

/-- The commands of `epoll_ctl`. -/
inductive CtlOp where
  | add
  | mod
  | del
  deriving DecidableEq

/-- `::epoll_ctl`, and whether it fails. It always does on a descriptor that is closed
    or not in the list, or in it already; otherwise it does unless the kernel `accepts`. -/
def epollCtl (op : CtlOp) (fd : Int) (mask : UInt32) (accepts : Bool) (r : Registry) :
    Registry × Bool :=
  match op with
  | .add =>
    if r.opened fd && (r.interest fd).isNone && accepts then
      ({ r with interest := Function.update r.interest fd (some mask) }, false)
    else (r, true)
  | .mod =>
    if r.opened fd && (r.interest fd).isSome && accepts then
      ({ r with interest := Function.update r.interest fd (some mask) }, false)
    else (r, true)
  | .del =>
    if r.opened fd && (r.interest fd).isSome then
      ({ r with interest := Function.update r.interest fd none }, false)
    else (r, true)

/-- The second half of `addEvent`, on the entry `e` that is there or was just made. -/
def setEvent (op : CtlOp) (newAdd : Bool) (fd : Int) (type : EventType) (accepts : Bool) (e : Event)
    (r : Registry) : Registry × Bool :=
  if e.events &&& type.newEvent ≠ 0 then
    -- There already. An entry that was made for this is taken out again.
    (if newAdd then { r with events := Function.update r.events fd none } else r, false)
  else
    let e := { e with events := e.events ||| type.newEvent }
    let r := { r with events := Function.update r.events fd (some e) }
    ((epollCtl op fd e.events accepts r).1, true)

/-- `addEvent`, called by `current`, and whether it returns an entry. What `epoll_ctl`
    returns is not looked at. -/
def addEvent (current : Coroutine) (fd : Int) (type : EventType) (accepts : Bool) (r : Registry) :
    Registry × Bool :=
  match r.events fd with
  | none =>
    let e : Event := ⟨fun slot => if slot = type then some current else none, 0, fd⟩
    setEvent .add true fd type accepts e { r with events := Function.update r.events fd (some e) }
  -- The entry's slot for the new event stays as it is.
  | some e => setEvent .mod false fd type accepts e r

/-- What `loop` does about a descriptor that is ready: the coroutines to resume, if it
    has an entry. -/
def dispatch (fd : Int) (r : Registry) : List Coroutine × Registry :=
  match r.events fd with
  | none => ([], r)
  | some e =>
    -- The entry is dropped as a whole, whichever of its events came.
    let r := (epollCtl .del fd 0 true r).1
    ([EventType.read, .write, .error].filterMap e.routines,
      { r with events := Function.update r.events fd none })

/-- The kernel hands out a number. -/
def Registry.open (fd : Int) (r : Registry) : Registry :=
  { r with opened := Function.update r.opened fd true }

/-- `::close`, which takes the descriptor off the kernel's list as well. -/
def Registry.close (fd : Int) (r : Registry) : Registry :=
  { r with
    opened := Function.update r.opened fd false
    interest := Function.update r.interest fd none }

/-! ## System calls -/

/-- The calls that wait. -/
inductive Api where
  | read
  | write
  | connect
  | accept4
  | sleep
  | usleep
  | poll
  deriving DecidableEq

/-- `pollfd`. -/
structure PollFd where
  fd : Int
  events : Int16
  revents : Int16

inductive Call where
  | read (fd : Int) (size : Nat)
  | write (fd : Int) (size : Nat)
  | connect (fd : Int)
  | accept4 (fd : Int)
  | getsockopt (fd : Int)
  | getpeername (fd : Int)
  | poll (fds : List PollFd)
  | timerfdCreate
  | timerfdSettime (timerfd sec nsec : Int)
  | timerfdGettime (timerfd : Int)
  | epollCreate1
  /-- `EPOLL_CTL_ADD` on a descriptor other than that of the table. -/
  | epollCtl (epfd fd : Int) (data : Nat) (events : UInt32)
  | epollWait (epfd : Int) (maxevents : Nat)
  /-- `steady_clock::now()`, in nanoseconds. -/
  | now
  | close (fd : Int)
  | setErrno (e : Errno)
  /-- `addEvent`, and which of the calls calls it. -/
  | addEvent (caller : Api) (fd : Int) (type : EventType)
  /-- `this_coroutine::yield()`, and what for. -/
  | yield (fd : Int) (type : EventType)

/-- What a call may be answered. `none` and `true` stand for a failure where the return
    value means nothing else; `addEvent` answers whether it returned an entry. -/
def Reply : Call → Type
  | .read _ _ => Int
  | .write _ _ => Int
  | .connect _ => Int
  | .accept4 _ => Int
  | .getsockopt _ => Option Errno
  | .getpeername _ => Bool
  | .poll fds => Int × { revents : List Int16 // revents.length = fds.length }
  | .timerfdCreate => Int
  | .timerfdSettime _ _ _ => Bool
  | .timerfdGettime _ => Option (Int × Int)
  | .epollCreate1 => Int
  | .epollCtl _ _ _ _ => Bool
  | .epollWait _ maxevents => Option { es : List (Nat × UInt32) // es.length ≤ maxevents }
  | .now => Int
  | .close _ => Unit
  | .setErrno _ => Unit
  | .addEvent _ _ _ => Bool
  | .yield _ _ => Unit

/-- A program over these calls. -/
abbrev Proc (α : Type) : Type := Prog Call Reply α

def ask (c : Call) : Proc (Reply c) := Prog.perform c

/-! ## The waiting calls -/

/-- `co::read`. -/
def read (fd : Int) (size : Nat) : Proc Int := do
  let ret : Int ← ask (.read fd size)
  if ret > 0 then return ret
  else
    -- An error and the end of the stream wait as well.
    let iter : Bool ← ask (.addEvent .read fd .read)
    if iter then
      ask (.yield fd .read)
      ask (.read fd size)
    -- Somebody waits for this already.
    else return 0

/-- `co::write`. -/
def write (fd : Int) (size : Nat) : Proc Int := do
  let ret : Int ← ask (.write fd size)
  if ret > 0 then return ret
  else
    let iter : Bool ← ask (.addEvent .write fd .write)
    if iter then
      ask (.yield fd .write)
      ask (.write fd size)
    else return 0

/-- `co::accept4`. -/
def accept4 (fd : Int) : Proc Int := do
  let ret : Int ← ask (.accept4 fd)
  if ret ≥ 0 then return ret
  else
    let iter : Bool ← ask (.addEvent .accept4 fd .read)
    if iter then
      ask (.yield fd .read)
      ask (.accept4 fd)
    else return 0

/-- The `delta` of `co::sleep`. -/
def delta (seconds start : Int) : Proc Int := do
  let now : Int ← ask .now
  return max 0 (seconds - (now - start).tdiv 1000000000)

/-- `co::sleep`, from the point where the timer is there to be closed in the end; what
    `addEvent` returns is not looked at. -/
def sleepWait (seconds start timerfd : Int) : Proc Int := do
  let failed : Bool ← ask (.timerfdSettime timerfd seconds 0)
  if failed then delta seconds start
  else
    let _ : Bool ← ask (.addEvent .sleep timerfd .read)
    ask (.yield timerfd .read)
    let value : Option (Int × Int) ← ask (.timerfdGettime timerfd)
    match value with
    | none => delta seconds start
    -- Only whole seconds are left over.
    | some (sec, _) => return sec

/-- `co::sleep`. -/
def sleep (seconds : Nat) : Proc Int := do
  let start : Int ← ask .now
  let timerfd : Int ← ask .timerfdCreate
  if timerfd < 0 then delta seconds start
  else
    let ret ← sleepWait seconds start timerfd
    ask (.close timerfd)
    return ret

/-- `errno = e; return -1;` -/
def fail (e : Errno) : Proc Int := do
  ask (.setErrno e)
  return -1

/-- `co::usleep`, from the point where the timer is there to be closed in the end; what
    `addEvent` returns is not looked at. -/
def usleepWait (usec timerfd : Int) : Proc Int := do
  let failed : Bool ← ask (.timerfdSettime timerfd 0 (usec * 1000))
  if failed then fail Errno.EINTR
  else
    let _ : Bool ← ask (.addEvent .usleep timerfd .read)
    ask (.yield timerfd .read)
    let value : Option (Int × Int) ← ask (.timerfdGettime timerfd)
    match value with
    | none => fail Errno.EINTR
    -- A timer of less than a second has no whole seconds.
    | some (_, nsec) => return nsec.tdiv 1000

/-- `co::usleep`. -/
def usleep (usec : Nat) : Proc Int :=
  if usec ≥ 1000000 then fail Errno.EINVAL
  else do
    let timerfd : Int ← ask .timerfdCreate
    if timerfd < 0 then fail Errno.EINTR
    else
      let ret ← usleepWait usec timerfd
      ask (.close timerfd)
      return ret

/-- `EVENTS_USE_STACK`. -/
def eventsUseStack : Nat := 1024

/-- The room behind `revents` for the events of `epoll_wait`: the array on the stack, or
    what was reserved. -/
def reventsCapacity (realNfds : Nat) : Nat :=
  if realNfds < eventsUseStack then eventsUseStack else realNfds

/-- The events of `epoll_wait` go to the entries they are for; `fds[index]` is not
    checked. -/
def collect (timerfd : Int) (indices2fd : List Int) :
    List (Nat × UInt32) → Int → List PollFd → Except Fault (Int × List PollFd)
  | [], ret, fds => .ok (ret, fds)
  | (index, events) :: es, ret, fds =>
    -- A key that `indices2fd` does not have is given the value 0.
    if indices2fd.getD index 0 = timerfd then collect timerfd indices2fd es (ret - 1) fds
    else if index < fds.length then
      collect timerfd indices2fd es ret
        (fds.modify index fun pfd => { pfd with revents := events.toInt32.toInt16 })
    else .error .overflow

/-- The descriptors are entered in an `epoll` of their own; failures are ignored. -/
def enlist (epfd : Int) : List PollFd → Nat → Proc Unit
  | [], _ => return
  | pfd :: fds, id => do
    let _ : Bool ← ask (.epollCtl epfd pfd.fd id pfd.events.toInt32.toUInt32)
    enlist epfd fds (id + 1)

/-- `co::poll`, from the point where the timer runs; what `addEvent` returns is not
    looked at. -/
def pollWait (epfd timerfd : Int) (fds : List PollFd) :
    Proc (Except Fault (Int × List PollFd)) := do
  enlist epfd fds 0
  let failed : Bool ← ask (.epollCtl epfd timerfd fds.length EventType.read.newEvent)
  if failed then return .ok (-1, fds)
  else
    let _ : Bool ← ask (.addEvent .poll epfd .read)
    ask (.yield epfd .read)
    let es : Option { es : List (Nat × UInt32) // es.length ≤ fds.length + 1 } ←
      ask (.epollWait epfd (fds.length + 1))
    match es with
    | none => return .ok (-1, fds)
    | some es =>
      return collect timerfd (fds.map PollFd.fd ++ [timerfd]) es.1 es.1.length fds

/-- `co::poll`, with a timeout in milliseconds: the return value, and the entries with
    their `revents`. -/
def poll (fds : List PollFd) (timeout : Int) : Proc (Except Fault (Int × List PollFd)) := do
  let polled : Int × { revents : List Int16 // revents.length = fds.length } ← ask (.poll fds)
  let ret := polled.1
  let fds := fds.zipWith (fun pfd revents => { pfd with revents := revents }) polled.2.1
  if ret ≠ 0 ∨ timeout = 0 then return .ok (ret, fds)
  else
    let epfd : Int ← ask .epollCreate1
    if epfd < 0 then return .ok (-1, fds)
    else
      let timerfd : Int ← ask .timerfdCreate
      -- The `epoll` stays open here, and both of them below.
      if timerfd < 0 then return .ok (-1, fds)
      else
        let failed : Bool ← ask (.timerfdSettime timerfd (timeout.tdiv 1000)
          (timeout.tmod 1000 * 1000000))
        if failed then
          ask (.setErrno Errno.EINTR)
          return .ok (-1, fds)
        else
          let ret ← pollWait epfd timerfd fds
          ask (.close epfd)
          ask (.close timerfd)
          return ret

/-- `1024 << (retries - 3)`, an `int`. -/
def backOff (retries : Nat) : Int := ((1024 : Int32) <<< Int32.ofNat (retries - 3)).toInt

/-- One attempt of `co::connect` after its wait, and how it goes on if there is to be
    another. -/
def connectAttempt (fd : Int) (retry : Proc Int) : Proc Int := do
  -- What `::connect` returns is not looked at, only what becomes of the socket.
  let _ : Int ← ask (.connect fd)
  let iter : Bool ← ask (.addEvent .connect fd .write)
  if iter then
    ask (.yield fd .write)
    let soerr : Option Errno ← ask (.getsockopt fd)
    match soerr with
    | none => fail Errno.EPERM
    | some soerr =>
      if soerr = 0 ∨ soerr = Errno.EINTR ∨ soerr = Errno.EINPROGRESS ∨ soerr = Errno.EALREADY
          ∨ soerr = Errno.EISCONN then
        let failed : Bool ← ask (.getpeername fd)
        if failed then retry else return 0
      else if soerr = Errno.EAGAIN ∨ soerr = Errno.EADDRINUSE ∨ soerr = Errno.EADDRNOTAVAIL
          ∨ soerr = Errno.ENETUNREACH ∨ soerr = Errno.ECONNREFUSED then retry
      else fail soerr
  else fail Errno.EPERM

/-- The `while` loop of `co::connect`, with the attempts left and those made. -/
def connectLoop (fd : Int) : Nat → Nat → Proc Int
  | 0, _ => fail Errno.ETIMEDOUT
  | left + 1, retries =>
    -- The first three attempts come one after the other.
    if retries > 2 then do
      let _ ← poll [] (backOff (retries + 1))
      connectAttempt fd (connectLoop fd left (retries + 1))
    else connectAttempt fd (connectLoop fd left (retries + 1))

/-- `co::connect`, with the configured number of attempts. -/
def connect (connectRetries : Nat) (fd : Int) : Proc Int := connectLoop fd connectRetries 0

end Co
