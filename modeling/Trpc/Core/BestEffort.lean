import Trpc.Core.Sys

/-!
# Best Effort Transfers

`bestEffortTemplate`: move `size` bytes in as many pieces as they come, within
a number of attempts and a time limit. It has six ways out. It returns `-1` when
the time is up at the head of an attempt, when `poll` fails, when the transfer
fails with an error it does not retry, and when the attempts are used up before
a byte was moved; it returns the number of bytes moved when the peer is gone or
the attempts are used up later; and it returns `size` as soon as all bytes are
moved. A `-1` says nothing about how many bytes were moved before.

The function it is given makes one attempt at an offset. What an attempt moved
is handed back along with its return value, so a transfer ends with the bytes
it moved: what was stored into the buffer, or what has left it.

## Main definitions

* `CoPosixFunc`: One attempt: `co::read`, `co::write`, or the hook that only
  waits.
* `Transfer`: How a transfer ends.
* `expired`: The test of the clock.
* `bestEffortTemplate`: The loop over attempts.
* `bestEffortRead`, `bestEffortWrite`: Its instances.
* `store`: Bytes going into a buffer.
-/

namespace Trpc

open Interaction

variable {D : Type}

/-- One attempt at the bytes from `offset` on: the bytes moved and the return
    value if it is not negative, and `errno`. -/
abbrev CoPosixFunc (D : Type) : Type :=
  (offset size : Nat) → Proc D (Option (Nat × Str) × Errno)

/-- How a transfer ends: the return value, the bytes moved, and `errno`. -/
structure Transfer where
  ret : Int
  moved : Str
  errno : Errno

/-- `co::read`, into a buffer at `base`. -/
def coRead (fd : Int) (base : Nat) : CoPosixFunc D := fun offset size => do
  let r ← read fd (base + offset) size
  match r with
  | (some bs, errno) => return (some (bs.1.length, bs.1), errno)
  | (none, errno) => return (none, errno)

/-- `co::write`, of `data`. -/
def coWrite (fd : Int) (data : Str) : CoPosixFunc D := fun offset size => do
  let bytes := (data.drop offset).take size
  let r ← write fd bytes
  match r with
  | (some n, errno) => return (some (n.1, bytes.take n.1), errno)
  | (none, errno) => return (none, errno)

/-- The count of a `std::chrono::nanoseconds`, which is an `int64_t`. -/
def nanoseconds (x : Int) : Int := x.bmod 18446744073709551616

/-- `tick() - start > timeout`. The milliseconds become nanoseconds before the two are
    compared, and a timeout from 9223372036855 ms on does not fit. -/
def expired (start timeout now : Int) : Bool :=
  decide (nanoseconds (now - start) > nanoseconds (timeout * 1000000))

/-- The `while` loop, with the number of attempts left. -/
def attempts (func : CoPosixFunc D) (event : PollEvent) (fd : Int) (size : Nat) (timeout : Int)
    (interval : Int32) (start : Int) : Nat → Nat → Str → Errno → Proc D Transfer
  | 0, offset, moved, errno =>
    if offset = 0 then return ⟨-1, moved, Errno.ETIMEDOUT⟩
    else return ⟨offset, moved, errno⟩
  | retries + 1, offset, moved, _ => do
    let now ← tick
    -- Late: `-1`, even if bytes were moved before.
    if expired start timeout now then return ⟨-1, moved, Errno.ETIMEDOUT⟩
    else
      let pret ← poll fd event interval
      -- Nothing to do yet, or `poll` failed.
      if pret.1 ≤ 0 then
        if pret.1 < 0 then return ⟨-1, moved, pret.2⟩
        else attempts func event fd size timeout interval start retries offset moved pret.2
      else
        let ret ← func offset (size - offset)
        match ret with
        | (none, errno) =>
          if errno = Errno.EINTR then
            attempts func event fd size timeout interval start retries offset moved errno
          else if errno = Errno.EAGAIN then
            -- `errno` is whatever the sleep leaves.
            let errno ← usleep 1
            attempts func event fd size timeout interval start retries offset moved errno
          else return ⟨-1, moved, errno⟩
        | (some (n, bytes), errno) =>
          -- The peer is gone.
          if n = 0 then return ⟨offset, moved, errno⟩
          else if offset + n = size then return ⟨size, moved ++ bytes, errno⟩
          else
            attempts func event fd size timeout interval start retries (offset + n)
              (moved ++ bytes) errno

/-- `timeout.count() / maxRetries`, computed as a `size_t` and stored as an
    `int`. -/
def pollInterval (timeout : Int) (maxRetries : Nat) : Int32 :=
  Int32.ofNat ((timeout % 18446744073709551616).toNat / maxRetries)

/-- `bestEffortTemplate`, with a timeout in milliseconds. -/
def bestEffortTemplate (func : CoPosixFunc D) (event : PollEvent) (fd : Int) (size : Nat)
    (timeout : Int) (maxRetries : Nat) : Proc D Transfer := do
  let start ← tick
  attempts func event fd size timeout (pollInterval timeout maxRetries) start maxRetries 0 [] 0

/-- `bestEffortRead(fd, buf + base, size, timeout, maxRetries)`. -/
def bestEffortRead (fd : Int) (base size : Nat) (timeout : Int) (maxRetries : Nat) :
    Proc D Transfer :=
  bestEffortTemplate (coRead fd base) .pollin fd size timeout maxRetries

/-- `bestEffortWrite(fd, data, size, timeout, maxRetries)`. -/
def bestEffortWrite (fd : Int) (data : Str) (size : Nat) (timeout : Int) (maxRetries : Nat) :
    Proc D Transfer :=
  bestEffortTemplate (coWrite fd data) .pollout fd size timeout maxRetries

/-- What the callers leave in their `_errno` when not all bytes were moved. -/
def Transfer.lastErrno (x : Transfer) : Errno :=
  if x.errno = 0 then Errno.ETIMEDOUT else x.errno

/-- Bytes stored into `buf` from `offset` on; nothing when they do not fit. -/
def store (buf : Str) (offset : Nat) (bytes : Str) : Option Str :=
  if offset + bytes.length ≤ buf.length then
    some (buf.take offset ++ (bytes ++ buf.drop (offset + bytes.length)))
  else none

end Trpc
