import Trpc.Core.Server
import Trpc.Core.Clients
import Trpc.Core.Posix

/-!
# The Listening Server

A `Server` object at work: `start`, which accepts connections and makes a coroutine
for each, the workers it has made, and what else the process does meanwhile with the
object and with descriptors of its own. `start` and the workers proceed one call at a
time, in any order. `_errno` is one field for all of them.

`start` hands `co::accept4` the descriptor of the object as it is at that time, and
the worker for whatever comes back is entered at once. A worker that is done stays in
the list with nothing left to do. What ends the process (an exception that leaves a
worker, or undefined behaviour) is not followed by anything.

Next to these, the state counts how often each descriptor has been opened and closed,
and keeps what each worker has done. The program does not see these.

## Main definitions

* `Worker`: A coroutine that `start` has made.
* `Listener`: The object, `start`, the workers, and the descriptors.
* `Listener.Step`: What happens next.
-/

namespace Trpc

open Vsjson Interaction

variable {D : Type}

/-- A coroutine that `start` has made: the descriptor it is for, what it has done, and
    what is left of it. -/
structure Worker (D : Type) where
  peer : Int
  done : Trace D
  left : Proc D (Str ⊕ Exit)

/-- Where `start` is. -/
inductive Stage where
  /-- Not entered yet, or left because `::listen` has failed. -/
  | idle
  /-- At the head of the loop. -/
  | looping
  /-- In `co::accept4`, with what is left of it. -/
  | accepting (left : Co.Proc Int)

structure Listener (D : Type) where
  _fd : Int
  _errno : Errno
  stage : Stage
  workers : List (Worker D)
  /-- The descriptors that other parts of the process have open. -/
  others : List Int
  opens : Int → Nat
  closes : Int → Nat

namespace Listener

/-- `Server::SOCKET_INVALID`. -/
def socketInvalid : Int := -1

/-- The object behind `init`, with the descriptor that this has left there. -/
def initial (fd : Int) (others : List Int) : Listener D :=
  ⟨fd, 0, .idle, [], others,
    fun d => others.count d + (if fd = socketInvalid then [] else [fd]).count d, fun _ => 0⟩

/-- `fd` was opened. -/
def opened (fd : Int) (x : Listener D) : Listener D :=
  { x with opens := Function.update x.opens fd (x.opens fd + 1) }

/-- `fd` was closed. -/
def shut (fd : Int) (x : Listener D) : Listener D :=
  { x with closes := Function.update x.closes fd (x.closes fd + 1) }

/-- `close()`. -/
def close (x : Listener D) : Listener D :=
  if x._fd ≠ socketInvalid then { x.shut x._fd with _fd := socketInvalid } else x

/-- `error()`: the code, which is forgotten. -/
def error (x : Listener D) : Errno × Listener D := (x._errno, { x with _errno := 0 })

/-- A number under which nothing is open. -/
def Free (x : Listener D) (fd : Int) : Prop := 0 ≤ fd ∧ x.opens fd = x.closes fd

/-- The descriptor that a call inside `co::accept4` has brought, if any. -/
def accepted : Event Co.Call Co.Reply → Option Int
  | ⟨.accept4 _, ret⟩ =>
    let ret : Int := ret
    if ret < 0 then none else some ret
  | _ => none

/-- What the kernel may answer: an error, or a descriptor that is not open. -/
def MayAnswer (x : Listener D) (e : Event Co.Call Co.Reply) : Prop :=
  ∀ fd, accepted e = some fd → x.Free fd

/-- What the answer does to the table of descriptors. -/
def answered (x : Listener D) (e : Event Co.Call Co.Reply) : Listener D :=
  match accepted e with
  | some fd => x.opened fd
  | none => x

/-- The rest of a turn of the loop in `start`, with what is left of `co::accept4`. The
    worker may take up to `n` turns of its own loop. -/
def proceed [DecimalImpl D] (s : Server) (n : Nat) (left : Co.Proc Int) (x : Listener D) :
    Listener D :=
  match left with
  | .ret peerFd =>
    if peerFd < 0 then { x with stage := .looping }
    else { x with
      stage := .looping
      workers := x.workers ++ [⟨peerFd, [], s.worker peerFd n⟩] }
  | left => { x with stage := .accepting left }

/-- What the call of a worker does to the object and to the table of descriptors. -/
def worked (x : Listener D) : Ev D → Listener D
  | ⟨.close fd, _⟩ => x.shut fd
  | ⟨.setErrno e, _⟩ => { x with _errno := e }
  | _ => x

/-- What happens. -/
inductive Act (D : Type) where
  | listenFails
  | listens
  | enters
  | asks (e : Event Co.Call Co.Reply)
  | works (k : Nat) (e : Ev D)
  | closes
  | errors
  | othersOpen (fd : Int)
  | othersClose (fd : Int)

/-- One thing that happens. -/
inductive Step [DecimalImpl D] (s : Server) : Listener D → Act D → Listener D → Prop where
  /-- `::listen` fails, and `start` returns. -/
  | listenFails (x : Listener D) (errno : Errno) : x.stage = .idle → errno ≠ 0 →
      Step s x .listenFails { x with _errno := errno }
  | listens (x : Listener D) : x.stage = .idle → Step s x .listens { x with stage := .looping }
  | enters (x : Listener D) : x.stage = .looping →
      Step s x .enters { x with stage := .accepting (Co.accept4 x._fd) }
  | asks (x : Listener D) (c : Co.Call) (k : Co.Reply c → Co.Proc Int) (r : Co.Reply c) (n : Nat) :
      x.stage = .accepting (.call c k) → x.MayAnswer ⟨c, r⟩ →
      Step s x (.asks ⟨c, r⟩) ((x.answered ⟨c, r⟩).proceed s n (k r))
  /-- A worker makes its next call, and the process lives. -/
  | works (x : Listener D) (before after : List (Worker D)) (w : Worker D) (c : Call D)
      (k : Reply D c → Proc D (Str ⊕ Exit)) (r : Reply D c) :
      x.workers = before ++ w :: after → w.left = .call c k →
      (∀ exit, k r = .ret (.inr exit) → exit = .broke) →
      Step s x (.works before.length ⟨c, r⟩)
        { x.worked ⟨c, r⟩ with
          workers := before ++ ⟨w.peer, w.done ++ [⟨c, r⟩], k r⟩ :: after }
  /-- Somebody calls `close()`. -/
  | closes (x : Listener D) : Step s x .closes x.close
  /-- Somebody calls `error()`. -/
  | errors (x : Listener D) : Step s x .errors x.error.2
  | othersOpen (x : Listener D) (fd : Int) : x.Free fd →
      Step s x (.othersOpen fd) { x.opened fd with others := fd :: x.others }
  | othersClose (x : Listener D) (fd : Int) : fd ∈ x.others →
      Step s x (.othersClose fd) { x.shut fd with others := x.others.erase fd }

end Listener

end Trpc
