import Trpc.Core.Client
import Trpc.Core.Server

/-!
# A Given Network

One environment to run the programs against, so that a single run can be
computed: reads hand out bytes that are there from the start, polls are answered
from a list and then all alike, a transfer moves a bounded number of bytes, and
everything else succeeds.

## Main definitions

* `Network`: What the environment answers with.
* `Network.reply`: Its answer to each call.
* `refuse`: The answers with which nothing is moved any more.
* `bareServer`, `bareClient`: A server without callbacks, and a new client.
-/

namespace Trpc

open Vsjson Interaction

/-- What the environment answers with: the bytes still to be read, the answers
    to the next polls and to all later ones, how many bytes one transfer moves
    at most, and what the bound functions do. -/
structure Network where
  incoming : Str
  polls : List Int
  later : Int
  piece : Nat
  bound : (sig : Signature) → Args Unit sig.params → Except Exn (sig.Result Unit)

namespace Network

/-- A network on which everything arrives at once and no function returns. -/
def carrying (incoming : Str) : Network :=
  ⟨incoming, [], 1, 16384, fun _ _ => .error (.std "none")⟩

def reply (n : Network) : (c : Call Unit) → Reply Unit c × Network
  | .tick => ((0 : Int), n)
  | .poll _ _ _ =>
    ((n.polls.headD n.later, (0 : Errno)), { n with polls := n.polls.tail })
  | .read _ _ size =>
    ((some ⟨n.incoming.take (min n.piece size),
        le_trans (List.length_take_le _ _) (min_le_right _ _)⟩, (0 : Errno)),
      { n with incoming := n.incoming.drop (min n.piece size) })
  | .write _ data => ((some ⟨min n.piece data.length, min_le_right _ _⟩, (0 : Errno)), n)
  | .usleep _ => ((0 : Errno), n)
  | .sysRead _ size =>
    (some ⟨n.incoming.take size, List.length_take_le _ _⟩,
      { n with incoming := n.incoming.drop size })
  | .close _ => ((), n)
  | .stack size => (⟨List.replicate size 0, List.length_replicate⟩, n)
  | .setErrno _ => ((), n)
  | .requestCallback j => ((true, j), n)
  | .responseCallback j => ((true, j), n)
  | .invoke _ sig args => (n.bound sig args, n)
  | .netCall _ _ => ((), n)
  | .report _ => ((), n)

end Network

variable {D : Type}

/-- Replies with which nothing is moved any more. -/
def refuse : (c : Call D) → Reply D c
  | .tick => (0 : Int)
  | .poll _ _ _ => ((0 : Int), (0 : Errno))
  | .read _ _ _ => (none, (0 : Errno))
  | .write _ _ => (none, (0 : Errno))
  | .usleep _ => (0 : Errno)
  | .sysRead _ _ => none
  | .close _ => ()
  | .stack size => ⟨List.replicate size 0, List.length_replicate⟩
  | .setErrno _ => ()
  | .requestCallback j => (true, j)
  | .responseCallback j => (true, j)
  | .invoke _ _ _ => .error (.std "")
  | .netCall _ _ => ()
  | .report _ => ()

/-- A server with a table and no callbacks. -/
def bareServer (table : Table) : Server := ⟨table, 1000, 1000, false, false⟩

/-- A new client on descriptor 3. -/
def bareClient : Client := ⟨3, 1000, 0, 0, Health.fresh⟩

end Trpc
