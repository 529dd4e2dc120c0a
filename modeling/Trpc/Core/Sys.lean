import Trpc.Core.Protocol
import Trpc.Lib.Prog

/-!
# System Calls

What the two endpoints ask of their surroundings: the clock, the coroutine
versions of `poll`, `read` and `write`, the plain `::read` of the health check,
and the user's functions. The endpoints are programs over these calls, and
whatever the replies are is whatever the kernel, the network, the scheduler
and the user may do. A reply type says what a reply can be at all: a read of
`size` bytes yields at most `size`, a write takes at most what it was given, and
both may fail. `errno` comes with every reply that can set it.

A local array that the source leaves uninitialised is a call as well (`stack`):
its contents are not the program's to choose.

The two last calls do nothing. `netCall` marks the entry of the function of that
name, and `report` tells how the transfer of a header or a content has ended.
They are there so that statements about a run can speak of them.

## Main definitions

* `Signature`, `Args`: The type of a bound function and its arguments.
* `Call`, `Reply`: The calls and what they may be answered.
* `received`, `sent`: The bytes a run has moved over a descriptor.
* `netCalls`, `reports`, `requestCalls`, `responseCalls`, `invocations`: What
  else a run has done, in order.
-/

namespace Trpc

open Vsjson Interaction

/-- `errno`. -/
abbrev Errno := Int32

namespace Errno

def EINTR : Errno := 4
def EAGAIN : Errno := 11
def ENOMEM : Errno := 12
def EINVAL : Errno := 22
def EPROTO : Errno := 71
def ETIMEDOUT : Errno := 110

end Errno

/-- The type of a bound function: its parameters, and its result unless it
    returns `void`. -/
structure Signature where
  params : List Ty
  ret : Option Ty
  deriving DecidableEq

/-- `ArgsTuple`. -/
def Args (D : Type) : List Ty → Type
  | [] => Unit
  | T :: Ts => T.denote D × Args D Ts

/-- What a bound function returns. -/
def Signature.Result (D : Type) (sig : Signature) : Type :=
  match sig.ret with
  | none => Unit
  | some T => T.denote D

/-- The events `poll` waits for. -/
inductive PollEvent where
  | pollin
  | pollout
  deriving DecidableEq

/-- The transfers a `report` is about. -/
inductive Phase where
  | readHeader
  | readContent
  | writeHeader
  | writeContent
  | drainHeader
  | drainContent
  deriving DecidableEq

/-- How a transfer ended: of `size` bytes `moved` were moved, and `ret` was
    returned. -/
structure Report where
  phase : Phase
  size : Nat
  moved : Nat
  ret : Int
  deriving DecidableEq

/-- What the endpoints call. -/
inductive Call (D : Type) where
  /-- `steady_clock::now()`, in nanoseconds. -/
  | tick
  /-- `co::poll` on one descriptor. -/
  | poll (fd : Int) (event : PollEvent) (timeout : Int32)
  /-- `co::read(fd, buf + offset, size)`. -/
  | read (fd : Int) (offset size : Nat)
  /-- `co::write(fd, data, data.length())`. -/
  | write (fd : Int) (data : Str)
  /-- `co::usleep(usec)`. -/
  | usleep (usec : Nat)
  /-- `::read(fd, buf, size)`. -/
  | sysRead (fd : Int) (size : Nat)
  /-- `::close(fd)`. -/
  | close (fd : Int)
  /-- An uninitialised local array. -/
  | stack (size : Nat)
  /-- `Server::_errno = e`, in memory that all workers share. -/
  | setErrno (e : Errno)
  /-- `_requestCallback(request)`. -/
  | requestCallback (request : Json D)
  /-- `_responseCallback(response)`. -/
  | responseCallback (response : Json D)
  /-- A call of the function bound under `method`. -/
  | invoke (method : Str) (sig : Signature) (args : Args D sig.params)
  /-- The entry of `netCall`. -/
  | netCall (method : Str) (args : Json D)
  /-- The end of a transfer. -/
  | report (r : Report)

/-- What a call may be answered. `none` stands for a return value of `-1`. -/
def Reply (D : Type) : Call D → Type
  | .tick => Int
  | .poll _ _ _ => Int × Errno
  | .read _ _ size => Option { bs : Str // bs.length ≤ size } × Errno
  | .write _ data => Option { n : Nat // n ≤ data.length } × Errno
  | .usleep _ => Errno
  | .sysRead _ size => Option { bs : Str // bs.length ≤ size }
  | .close _ => Unit
  | .stack size => { bs : Str // bs.length = size }
  | .setErrno _ => Unit
  | .requestCallback _ => Bool × Json D
  | .responseCallback _ => Bool × Json D
  | .invoke _ sig _ => Except Exn (sig.Result D)
  | .netCall _ _ => Unit
  | .report _ => Unit

/-- A program over these calls. -/
abbrev Proc (D α : Type) : Type := Prog (Call D) (Reply D) α

/-- A call and its reply. -/
abbrev Ev (D : Type) : Type := Event (Call D) (Reply D)

/-- What a run did, in order. -/
abbrev Trace (D : Type) : Type := List (Ev D)

variable {D : Type}

/-! ## Single calls -/

def tick : Proc D Int := Prog.perform (Call.tick : Call D)

def poll (fd : Int) (event : PollEvent) (timeout : Int32) : Proc D (Int × Errno) :=
  Prog.perform (Call.poll fd event timeout : Call D)

def read (fd : Int) (offset size : Nat) :
    Proc D (Option { bs : Str // bs.length ≤ size } × Errno) :=
  Prog.perform (Call.read fd offset size : Call D)

def write (fd : Int) (data : Str) : Proc D (Option { n : Nat // n ≤ data.length } × Errno) :=
  Prog.perform (Call.write fd data : Call D)

def usleep (usec : Nat) : Proc D Errno := Prog.perform (Call.usleep usec : Call D)

def sysRead (fd : Int) (size : Nat) : Proc D (Option { bs : Str // bs.length ≤ size }) :=
  Prog.perform (Call.sysRead fd size : Call D)

def sysClose (fd : Int) : Proc D Unit := Prog.perform (Call.close fd : Call D)

def stack (size : Nat) : Proc D ({ bs : Str // bs.length = size }) :=
  Prog.perform (Call.stack size : Call D)

def setErrno (e : Errno) : Proc D Unit := Prog.perform (Call.setErrno e : Call D)

def requestCallback (request : Json D) : Proc D (Bool × Json D) :=
  Prog.perform (Call.requestCallback request : Call D)

def responseCallback (response : Json D) : Proc D (Bool × Json D) :=
  Prog.perform (Call.responseCallback response : Call D)

def invoke (method : Str) (sig : Signature) (args : Args D sig.params) :
    Proc D (Except Exn (sig.Result D)) :=
  Prog.perform (Call.invoke method sig args : Call D)

def enterNetCall (method : Str) (args : Json D) : Proc D Unit :=
  Prog.perform (Call.netCall method args : Call D)

def report (r : Report) : Proc D Unit := Prog.perform (Call.report r : Call D)

section Runs

variable {β : Type}

theorem runs_tick_bind (f : Int → Proc D β) (t : Trace D) (b : β) :
    Runs (tick.bind f) t b ↔ ∃ r t', t = ⟨Call.tick, r⟩ :: t' ∧ Runs (f r) t' b :=
  runs_perform_bind_iff (R := Reply D) Call.tick f t b

theorem runs_poll_bind (fd : Int) (event : PollEvent) (timeout : Int32)
    (f : Int × Errno → Proc D β) (t : Trace D) (b : β) :
    Runs ((poll fd event timeout).bind f) t b ↔
      ∃ r t', t = ⟨Call.poll fd event timeout, r⟩ :: t' ∧ Runs (f r) t' b :=
  runs_perform_bind_iff (R := Reply D) (Call.poll fd event timeout) f t b

theorem runs_read_bind (fd : Int) (offset size : Nat)
    (f : Option { bs : Str // bs.length ≤ size } × Errno → Proc D β) (t : Trace D) (b : β) :
    Runs ((read fd offset size).bind f) t b ↔
      ∃ r t', t = ⟨Call.read fd offset size, r⟩ :: t' ∧ Runs (f r) t' b :=
  runs_perform_bind_iff (R := Reply D) (Call.read fd offset size) f t b

theorem runs_write_bind (fd : Int) (data : Str)
    (f : Option { n : Nat // n ≤ data.length } × Errno → Proc D β) (t : Trace D) (b : β) :
    Runs ((write fd data).bind f) t b ↔
      ∃ r t', t = ⟨Call.write fd data, r⟩ :: t' ∧ Runs (f r) t' b :=
  runs_perform_bind_iff (R := Reply D) (Call.write fd data) f t b

theorem runs_usleep_bind (usec : Nat) (f : Errno → Proc D β) (t : Trace D) (b : β) :
    Runs ((usleep usec).bind f) t b ↔ ∃ r t', t = ⟨Call.usleep usec, r⟩ :: t' ∧ Runs (f r) t' b :=
  runs_perform_bind_iff (R := Reply D) (Call.usleep usec) f t b

theorem runs_sysRead_bind (fd : Int) (size : Nat)
    (f : Option { bs : Str // bs.length ≤ size } → Proc D β) (t : Trace D) (b : β) :
    Runs ((sysRead fd size).bind f) t b ↔
      ∃ r t', t = ⟨Call.sysRead fd size, r⟩ :: t' ∧ Runs (f r) t' b :=
  runs_perform_bind_iff (R := Reply D) (Call.sysRead fd size) f t b

theorem runs_sysClose_bind (fd : Int) (f : Unit → Proc D β) (t : Trace D) (b : β) :
    Runs ((sysClose fd).bind f) t b ↔ ∃ r t', t = ⟨Call.close fd, r⟩ :: t' ∧ Runs (f r) t' b :=
  runs_perform_bind_iff (R := Reply D) (Call.close fd) f t b

theorem runs_stack_bind (size : Nat)
    (f : { bs : Str // bs.length = size } → Proc D β) (t : Trace D) (b : β) :
    Runs ((stack size).bind f) t b ↔ ∃ r t', t = ⟨Call.stack size, r⟩ :: t' ∧ Runs (f r) t' b :=
  runs_perform_bind_iff (R := Reply D) (Call.stack size) f t b

theorem runs_setErrno_bind (e : Errno) (f : Unit → Proc D β) (t : Trace D) (b : β) :
    Runs ((setErrno e).bind f) t b ↔ ∃ r t', t = ⟨Call.setErrno e, r⟩ :: t' ∧ Runs (f r) t' b :=
  runs_perform_bind_iff (R := Reply D) (Call.setErrno e) f t b

theorem runs_invoke_bind (method : Str) (sig : Signature) (args : Args D sig.params)
    (f : Except Exn (sig.Result D) → Proc D β) (t : Trace D) (b : β) :
    Runs ((invoke method sig args).bind f) t b ↔
      ∃ r t', t = ⟨Call.invoke method sig args, r⟩ :: t' ∧ Runs (f r) t' b :=
  runs_perform_bind_iff (R := Reply D) (Call.invoke method sig args) f t b

theorem runs_enterNetCall_bind (method : Str) (args : Json D)
    (f : Unit → Proc D β) (t : Trace D) (b : β) :
    Runs ((enterNetCall method args).bind f) t b ↔
      ∃ r t', t = ⟨Call.netCall method args, r⟩ :: t' ∧ Runs (f r) t' b :=
  runs_perform_bind_iff (R := Reply D) (Call.netCall method args) f t b

theorem runs_report_bind (x : Report) (f : Unit → Proc D β) (t : Trace D) (b : β) :
    Runs ((report x).bind f) t b ↔ ∃ r t', t = ⟨Call.report x, r⟩ :: t' ∧ Runs (f r) t' b :=
  runs_perform_bind_iff (R := Reply D) (Call.report x) f t b

end Runs

/-! ## What a trace shows -/

/-- The bytes one event read from `fd`. -/
def Ev.received (fd : Int) : Ev D → Str
  | ⟨.read f _ _, (some bs, _)⟩ => if f = fd then bs.1 else []
  | ⟨.sysRead f _, some bs⟩ => if f = fd then bs.1 else []
  | _ => []

/-- The bytes one event put on `fd`. -/
def Ev.sent (fd : Int) : Ev D → Str
  | ⟨.write f data, (some n, _)⟩ => if f = fd then data.take n.1 else []
  | _ => []

/-- A call of `netCall`. -/
def Ev.netCalls : Ev D → List (Str × Json D)
  | ⟨.netCall method args, _⟩ => [(method, args)]
  | _ => []

/-- The report of a transfer. -/
def Ev.reports : Ev D → List Report
  | ⟨.report r, _⟩ => [r]
  | _ => []

/-- A request handed to the callback, with the answer. -/
def Ev.requestCalls : Ev D → List (Json D × Bool × Json D)
  | ⟨.requestCallback j, r⟩ => [(j, r)]
  | _ => []

/-- A response handed to the callback, with the answer. -/
def Ev.responseCalls : Ev D → List (Json D × Bool × Json D)
  | ⟨.responseCallback j, r⟩ => [(j, r)]
  | _ => []

/-- A call of a bound function, with what came of it. -/
structure Invocation (D : Type) where
  method : Str
  sig : Signature
  args : Args D sig.params
  reply : Except Exn (sig.Result D)

def Ev.invocations : Ev D → List (Invocation D)
  | ⟨.invoke method sig args, r⟩ => [⟨method, sig, args, r⟩]
  | _ => []

/-- The bytes a run has read from `fd`. -/
def received (fd : Int) (t : Trace D) : Str := t.flatMap (Ev.received fd)

/-- The bytes a run has put on `fd`. -/
def sent (fd : Int) (t : Trace D) : Str := t.flatMap (Ev.sent fd)

/-- The calls of `netCall` in a run. -/
def netCalls (t : Trace D) : List (Str × Json D) := t.flatMap Ev.netCalls

/-- The transfers of a run. -/
def reports (t : Trace D) : List Report := t.flatMap Ev.reports

/-- The requests a run has shown the callback. -/
def requestCalls (t : Trace D) : List (Json D × Bool × Json D) := t.flatMap Ev.requestCalls

/-- The responses a run has shown the callback. -/
def responseCalls (t : Trace D) : List (Json D × Bool × Json D) := t.flatMap Ev.responseCalls

/-- The calls of bound functions in a run. -/
def invocations (t : Trace D) : List (Invocation D) := t.flatMap Ev.invocations

end Trpc
