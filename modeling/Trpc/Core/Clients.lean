import Trpc.Core.Client
import Trpc.Lib.Transition

/-!
# Clients and Descriptors

A program with any number of `Client` objects: it makes them, connects them, calls
through them, moves, assigns and swaps them, closes and destroys them, in any order.
The kernel hands out a descriptor that is not in use, possibly a number that was in
use before.

Next to the objects, the state counts how often each descriptor has been opened and
closed, and keeps the traces of the calls made on it since it was opened last. The
program does not see these; they are there to speak of the stream behind a
descriptor.

## Main definitions

* `Clients`: The objects, and what has become of the descriptors.
* `Clients.Op`: What the program does.
* `Clients.Step`: One operation.
-/

namespace Trpc

open Vsjson Interaction Transition

variable {D : Type}

/-- The descriptors that an event closes. -/
def Ev.closed : Ev D → List Int
  | ⟨.close fd, _⟩ => [fd]
  | _ => []

/-- The descriptors that a run closes, in order. -/
def closed (t : Trace D) : List Int := t.flatMap Ev.closed

/-- The live clients, by the names of their objects, and for each descriptor how often
    it was opened and closed, and the calls made on it since it was opened last. -/
structure Clients (ι D : Type) where
  client : ι → Option Client
  opens : Int → Nat
  closes : Int → Nat
  calls : Int → List (Trace D)

namespace Clients

variable {ι : Type} [DecidableEq ι]

/-- Nothing has happened yet. -/
def initial : Clients ι D := ⟨fun _ => none, fun _ => 0, fun _ => 0, fun _ => []⟩

/-- The object `i` holds `x` now, or is gone. -/
def put (i : ι) (x : Option Client) (w : Clients ι D) : Clients ι D :=
  { w with client := Function.update w.client i x }

/-- The descriptors of `fds` were closed. -/
def shut (fds : List Int) (w : Clients ι D) : Clients ι D :=
  { w with closes := fun fd => w.closes fd + fds.count fd }

/-- `::socket` has returned `ret`. -/
def socket (ret : Int) (w : Clients ι D) : Clients ι D :=
  if ret = -1 then w
  else { w with
    opens := Function.update w.opens ret (w.opens ret + 1)
    calls := Function.update w.calls ret [] }

/-- A call was made on a descriptor. -/
def called (fd : Int) (t : Trace D) (w : Clients ι D) : Clients ι D :=
  { w with calls := Function.update w.calls fd (w.calls fd ++ [t]) }

/-- What `::socket` may return: an error, or a descriptor that is not open. -/
def MaySocket (w : Clients ι D) (ret : Int) : Prop :=
  ret = -1 ∨ 0 ≤ ret ∧ w.opens ret = w.closes ret

/-- The operations, with the objects they are about. -/
inductive Op (ι : Type) where
  | construct (i : ι)
  | make (i : ι)
  | makeConnected (i : ι)
  | init (i : ι)
  | connect (i : ι)
  | setTimeout (i : ι)
  | error (i : ι)
  | call (i : ι)
  | close (i : ι)
  | move (i j : ι)
  | assign (i j : ι)
  | swap (i j : ι)
  | destroy (i : ι)

/-- One operation. Only what lives is operated on, and only what does not live is
    constructed. A call that leaves defined behaviour is not followed by anything. -/
inductive Step [DecimalImpl D] : Clients ι D → Op ι → Clients ι D → Prop where
  | construct (w : Clients ι D) (i : ι) (token : Int32) : w.client i = none →
      Step w (.construct i) (w.put i (some (Client.new token)))
  | make (w : Clients ι D) (i : ι) (token token' : Int32) (ret : Int) (errno : Errno) (t : Trace D)
      (x : Option Client) : w.client i = none → w.MaySocket ret →
      Runs (Client.make token token' ret errno) t x →
      Step w (.make i) (((w.socket ret).shut (closed t)).put i x)
  | makeConnected (w : Clients ι D) (i : ι) (test : Bool) (token token' : Int32) (ret : Int)
      (errno : Errno) (ret' : Int) (errno' : Errno) (t : Trace D) (x : Option Client) :
      w.client i = none → w.MaySocket ret →
      Runs (Client.makeConnected test token token' ret errno ret' errno') t x →
      Step w (.makeConnected i)
        (((if test then w.socket ret else w).shut (closed t)).put i x)
  | init (w : Clients ι D) (i : ι) (c : Client) (ret : Int) (errno : Errno) :
      w.client i = some c → w.MaySocket ret →
      Step w (.init i) ((w.socket ret).put i (some (c.init ret errno)))
  | connect (w : Clients ι D) (i : ι) (c : Client) (ret : Int) (errno : Errno) :
      w.client i = some c → Step w (.connect i) (w.put i (some (c.connect ret errno).1))
  | setTimeout (w : Clients ι D) (i : ι) (c : Client) (timeout : Int) :
      w.client i = some c → Step w (.setTimeout i) (w.put i (some (c.setTimeout timeout)))
  | error (w : Clients ι D) (i : ι) (c : Client) :
      w.client i = some c → Step w (.error i) (w.put i (some c.error.2))
  | call (w : Clients ι D) (i : ι) (c c' : Client) (T : Ty) (function : Str)
      (arguments : List (Json D)) (t : Trace D) (r : Res (Option (T.denote D))) :
      w.client i = some c → Runs (c.call T function arguments) t (c', r) → (∀ f, r ≠ .fault f) →
      Step w (.call i) (((w.called c._socket t).shut (closed t)).put i (some c'))
  | close (w : Clients ι D) (i : ι) (c c' : Client) (t : Trace D) :
      w.client i = some c → Runs c.close t c' →
      Step w (.close i) ((w.shut (closed t)).put i (some c'))
  | move (w : Clients ι D) (i j : ι) (rhs : Client) (token : Int32) :
      w.client i = none → w.client j = some rhs →
      Step w (.move i j) ((w.put i (some (rhs.move token).1)).put j (some (rhs.move token).2))
  | assign (w : Clients ι D) (i j : ι) (c rhs c' rhs' : Client) (token : Int32) (t : Trace D) :
      i ≠ j → w.client i = some c → w.client j = some rhs →
      Runs (c.assign rhs token) t (c', rhs') →
      Step w (.assign i j) (((w.shut (closed t)).put i (some c')).put j (some rhs'))
  | assignSelf (w : Clients ι D) (i : ι) (c c' : Client) (token : Int32) (t : Trace D) :
      w.client i = some c → Runs (c.assignSelf token) t c' →
      Step w (.assign i i) ((w.shut (closed t)).put i (some c'))
  | swap (w : Clients ι D) (i j : ι) (c that : Client) :
      w.client i = some c → w.client j = some that →
      Step w (.swap i j) ((w.put i (some (c.swap that).1)).put j (some (c.swap that).2))
  | destroy (w : Clients ι D) (i : ι) (c : Client) (t : Trace D) (u : Unit) :
      w.client i = some c → Runs c.destroy t u →
      Step w (.destroy i) ((w.shut (closed t)).put i none)

end Clients

end Trpc
