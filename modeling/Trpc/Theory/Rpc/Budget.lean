import Trpc.Core.Client
import Trpc.Core.Server
import Trpc.Lib.Monitor
import Trpc.Theory.Rpc.Network
import Trpc.Theory.Rpc.Timeouts
import Trpc.Theory.Rpc.ClientRuns

/-!
# How Long a Call May Take

The timeout of a client is one for each of its transfers, not for the call: a call writes
two pieces and reads two, so it may wait four times as long. That is all, whatever the
peer does, and the calls of the system are bounded as well: `session_costs`.

A worker waits as long in each turn of its loop, and for the first byte before. So a peer
that stalls holds a worker for no more than `_pending` and four times `_timeout`, until it
has sent a whole request: `worker_costs`. What functions and callbacks do is their own.

Waiting is counted as it is asked for: `co::poll` is told for how long. `co::read` and
`co::write` wait without a timeout when what was announced is not there any more, and
`co::usleep` for a microsecond; these are among the calls. Everything is said of runs that
are cut at any point, so of calls that have not come back as well.

## Main definitions

* `Rates`: A price for each call of the system.
* `waited`, `asked`: What a run has asked to wait, and how often it has called the system.
* `Fits`: Timeouts whose shares are kept.

## Theorems

* `attempts_within`: The attempts of a transfer.
* `session_costs`: A client.
* `worker_costs`: A worker.
-/

namespace Trpc

open Vsjson Interaction

variable {D : Type}

/-- A price for `co::poll`, which may depend on its timeout, and one for each other call. -/
structure Rates where
  poll : Int32 → Nat
  other : Nat

namespace Rates

/-- The price of a call. The clock is free, and so is what is not a call of the system. -/
def cost (w : Rates) : (c : Call D) → Reply D c → Nat
  | .poll _ _ timeout, _ => w.poll timeout
  | .read _ _ _, _ => w.other
  | .write _ _, _ => w.other
  | .usleep _, _ => w.other
  | .sysRead _ _, _ => w.other
  | .close _, _ => w.other
  | _, _ => 0

/-- The price of an attempt: a poll, the attempt, and a sleep if it comes too early. -/
def attempt (w : Rates) (interval : Int32) : Nat := w.poll interval + (w.other + w.other)

/-- The price of a transfer. -/
def transfer (w : Rates) (timeout : Int) (maxRetries : Nat) : Nat :=
  maxRetries * w.attempt (pollInterval timeout maxRetries)

end Rates

section Transfers

variable (w : Rates) {func : CoPosixFunc D}

/-- So many attempts cost no more than so many times one of them. By induction on the
    attempts that are left. -/
theorem attempts_within (hfunc : ∀ off n, (func off n).Within w.cost w.other) (event : PollEvent)
    (fd : Int) (size : Nat) (timeout : Int) (interval : Int32) (start : Int) (retries : Nat) :
    ∀ (off : Nat) (moved : Str) (errno : Errno),
      (attempts func event fd size timeout interval start retries off moved errno).Within w.cost
        (retries * w.attempt interval) := by
  induction retries with
  | zero =>
      intro off moved errno
      rw [Nat.zero_mul]
      unfold attempts
      split <;> exact within_ret _
  | succ retries ih =>
      intro off moved errno
      have hsplit : (retries + 1) * w.attempt interval
          = w.poll interval + (w.other + (w.other + retries * w.attempt interval)) := by
        unfold Rates.attempt
        rw [Nat.succ_mul]
        omega
      rw [hsplit]
      simp only [attempts, Prog.bind_def]
      -- The clock is free. Late, there is no further attempt.
      refine within_free_bind _ _ (within_perform _ fun _ => Nat.le_refl 0) fun now => ?_
      split
      · exact within_ret _
      refine within_bind _ _ (within_perform _ fun _ => Nat.le_refl _) fun pret => ?_
      -- What comes next is at most another attempt, behind the one made.
      have hagain : ∀ (b : Nat) off moved errno, (attempts func event fd size timeout interval start
          retries off moved errno).Within w.cost (b + retries * w.attempt interval) :=
        fun b off moved errno => within_mono _ (ih off moved errno) (Nat.le_add_left _ b)
      split
      · split
        · exact within_ret _
        · rw [← Nat.add_assoc]
          exact hagain _ _ _ _
      -- The attempt itself, for which there was something ready.
      refine within_bind _ _ (hfunc off _) fun ret => ?_
      rcases ret with ⟨_ | ⟨n, bytes⟩, errno'⟩
      · simp only
        split
        · exact hagain _ _ _ _
        split
        · -- It has come too early, so there is a sleep as well.
          exact within_bind _ _ (within_perform _ fun _ => Nat.le_refl _) fun e => ih off moved e
        · exact within_ret _
      · simp only
        split
        · exact within_ret _
        split
        · exact within_ret _
        · exact hagain _ _ _ _

/-- A transfer costs its attempts. -/
theorem bestEffortTemplate_within (hfunc : ∀ off n, (func off n).Within w.cost w.other)
    (event : PollEvent) (fd : Int) (size : Nat) (timeout : Int) (maxRetries : Nat) :
    (bestEffortTemplate func event fd size timeout maxRetries).Within w.cost
      (w.transfer timeout maxRetries) := by
  simp only [bestEffortTemplate, Prog.bind_def]
  exact within_free_bind _ _ (within_perform _ fun _ => Nat.le_refl 0) fun start =>
    attempts_within w hfunc event fd size timeout _ start maxRetries 0 [] 0

/-- An attempt at reading is one call. -/
theorem coRead_within (fd : Int) (base off n : Nat) :
    (coRead (D := D) fd base off n).Within w.cost w.other := by
  simp only [coRead, Prog.bind_def]
  refine within_bind_free _ _ (within_perform _ fun _ => Nat.le_refl _) fun r => ?_
  rcases r with ⟨_ | bs, errno⟩ <;> exact within_ret _

/-- So is one at writing. -/
theorem coWrite_within (fd : Int) (data : Str) (off n : Nat) :
    (coWrite (D := D) fd data off n).Within w.cost w.other := by
  simp only [coWrite, Prog.bind_def]
  refine within_bind_free _ _ (within_perform _ fun _ => Nat.le_refl _) fun r => ?_
  rcases r with ⟨_ | k, errno⟩ <;> exact within_ret _

end Transfers

namespace Client

variable (w : Rates)

/-- The price of a transfer of a client. -/
def share (c : Client) : Nat := w.transfer c._timeout 10

/-- A client's read costs one transfer. -/
theorem bestEffortRead_within (c : Client) (phase : Phase) (base size : Nat) :
    (c.bestEffortRead (D := D) phase base size).Within w.cost (c.share w) := by
  simp only [bestEffortRead, Trpc.bestEffortRead, Prog.bind_def]
  refine within_bind_free _ _ (bestEffortTemplate_within w (coRead_within w _ base) _ _ _ _ _)
    fun x => ?_
  exact within_free_bind _ _ (within_perform _ fun _ => Nat.le_refl 0) fun _ => within_ret _

/-- So does its write. -/
theorem bestEffortWrite_within (c : Client) (phase : Phase) (data : Str) (size : Nat) :
    (c.bestEffortWrite (D := D) phase data size).Within w.cost (c.share w) := by
  simp only [bestEffortWrite, Trpc.bestEffortWrite, Prog.bind_def]
  refine within_bind_free _ _ (bestEffortTemplate_within w (coWrite_within w _ data) _ _ _ _ _)
    fun x => ?_
  exact within_free_bind _ _ (within_perform _ fun _ => Nat.le_refl 0) fun _ => within_ret _

/-- Closing is one call, or none. -/
theorem close_within (c : Client) : (c.close (D := D)).Within w.cost w.other := by
  unfold close
  split
  · exact within_bind_free _ _ (within_perform _ fun _ => Nat.le_refl _) fun _ => within_ret _
  · exact within_ret _

/-- The connection is given up. -/
theorem closing_within {α : Type} (c : Client) (f : Client → α) (b : Nat) (hb : w.other ≤ b) :
    (c.close.bind fun c => .ret (f c) : Proc D α).Within w.cost b :=
  within_bind_free _ _ (within_mono _ (close_within w c) hb) fun _ => within_ret _

theorem share_conclude (c : Client) (size : Nat) (x : Transfer) :
    (c.conclude size x).1.share w = c.share w := by
  unfold conclude
  split <;> rfl

/-- A request is two writes, and perhaps a close. -/
theorem writeRequest_within (c : Client) (d : Dumped) :
    (c.writeRequest (D := D) d).Within w.cost (c.share w + (c.share w + w.other)) := by
  simp only [writeRequest, Prog.bind_def]
  refine within_bind_runs _ _ (bestEffortWrite_within w c _ _ _) fun t r hr => ?_
  rcases r with ⟨⟨c', success⟩, x⟩
  -- The second write has the same timeout, so it costs as much.
  have hshare : c'.share w = c.share w := by
    rw [show c' = (c.conclude headerSize x).1 from
      congrArg Prod.fst (bestEffortWrite_reports c _ _ _ t _ hr).2.2.2]
    exact share_conclude w c _ x
  simp only
  split
  · split
    · exact closing_within w c' (fun c => (c, false)) _ (Nat.le_add_left _ _)
    · exact within_ret _
  rw [← hshare]
  refine within_bind _ _ (bestEffortWrite_within w c' _ _ _) fun y => ?_
  split
  · exact closing_within w _ (fun c => (c, false)) _ (Nat.le_refl _)
  · exact within_ret _

/-- The content of a response is one read, or a close. -/
theorem readContent_within [DecimalImpl D] (c : Client) (T : Ty) (buf : Str) :
    (c.readContent (D := D) T buf).Within w.cost (c.share w + w.other) := by
  simp only [readContent, Prog.bind_def]
  split
  · exact closing_within w _ (fun c => (c, Res.ok none)) _ (Nat.le_add_left _ _)
  refine within_bind _ _ (bestEffortRead_within w c _ _ _) fun x => ?_
  split
  · exact within_ret _
  split
  · exact within_ret _
  split <;> exact within_ret _

/-- A response is two reads, and perhaps a close. -/
theorem readResponse_within [DecimalImpl D] (c : Client) (T : Ty) :
    (c.readResponse (D := D) T).Within w.cost (c.share w + (c.share w + w.other)) := by
  simp only [readResponse, Prog.bind_def]
  refine within_free_bind _ _ (within_perform _ fun _ => Nat.le_refl 0) fun buf => ?_
  refine within_bind_runs _ _ (bestEffortRead_within w c _ _ _) fun t r hr => ?_
  rcases r with ⟨⟨c', success⟩, x⟩
  have hshare : c'.share w = c.share w := by
    rw [show c' = (c.conclude headerSize x).1 from
      congrArg Prod.fst (bestEffortRead_reports c _ _ _ t _ hr).2.2]
    exact share_conclude w c _ x
  split
  · exact within_ret _
  split
  · exact within_ret _
  · rw [← hshare]
    exact readContent_within w c' T _

end Client

namespace Health

variable (w : Rates)

/-- The state machine makes one read. -/
theorem stateMachine_within (h : Health) (fd : Int) (buf : Str) (boundary : Nat) (next : State) :
    (h.stateMachine (D := D) fd buf boundary next).Within w.cost w.other := by
  simp only [stateMachine, Prog.bind_def]
  refine within_bind_free _ _ (within_perform _ fun _ => Nat.le_refl _) fun ret => ?_
  split
  · exact within_free_bind _ _ (within_perform _ fun _ => Nat.le_refl 0) fun _ => within_ret _
  · refine within_free_bind _ _ (within_perform _ fun _ => Nat.le_refl 0) fun _ => ?_
    split
    · exact within_ret _
    split
    · exact within_ret _
    split <;> exact within_ret _

/-- Each round makes one read. -/
theorem drain_within (fd : Int) (n : Nat) : ∀ (h : Health) (buf : Str),
    (drain (D := D) fd n h buf).Within w.cost (n * w.other) := by
  induction n with
  | zero => exact fun h buf => within_ret _
  | succ n ih =>
      intro h buf
      -- A round and those behind it.
      have hround : ∀ (boundary : Nat) (next : State)
          (f : Except Fault (Health × Str) → Proc D (Except Fault (Health × Bool))),
          (∀ r, (f r).Within w.cost (n * w.other)) →
          ((h.stateMachine fd buf boundary next).bind f).Within w.cost ((n + 1) * w.other) := by
        intro boundary next f hf
        rw [Nat.succ_mul, Nat.add_comm]
        exact within_bind _ _ (stateMachine_within w h fd buf boundary next) hf
      unfold drain
      cases h._state with
      | noRead => exact within_ret _
      | headerReadSome =>
          refine hround _ _ _ fun r => ?_
          rcases r with f | ⟨h', buf'⟩
          · exact within_ret _
          · exact ih (h'.learn buf') buf'
      | contentReadSome =>
          refine hround _ _ _ fun r => ?_
          rcases r with f | ⟨h', buf'⟩
          · exact within_ret _
          · exact ih h' buf'
      | undefined =>
          -- This round reads nothing.
          refine within_mono _ (ih h buf) ?_
          rw [Nat.succ_mul]
          exact Nat.le_add_right _ _

/-- A health check has five rounds. -/
theorem check_within (h : Health) (fd : Int) :
    (h.check (D := D) fd).Within w.cost (5 * w.other) := by
  unfold check
  split
  · exact within_ret _
  split
  · exact within_ret _
  · exact within_free_bind _ _ (within_perform _ fun _ => Nat.le_refl 0) fun buf =>
      drain_within w fd 5 h buf.1

end Health

namespace Client

variable (w : Rates)

/-- The price of a call. -/
def budget (timeout : Int) : Nat := 4 * w.transfer timeout 10 + 7 * w.other

/-- A call is a check, a request and a response. -/
theorem call_within [DecimalImpl D] (c : Client) (T : Ty) (function : Str)
    (arguments : List (Json D)) : (c.call T function arguments).Within w.cost
      (budget w c._timeout) := by
  have hsum : budget w c._timeout = 5 * w.other + ((c.share w + (c.share w + w.other))
      + (c.share w + (c.share w + w.other))) := by
    unfold budget share
    omega
  rw [hsum]
  simp only [call, Prog.bind_def]
  refine within_bind _ _ (Health.check_within w _ _) fun checked => ?_
  rcases checked with f | ⟨health, healthy⟩
  · exact within_ret _
  simp only
  split
  · exact within_ret _
  split
  · exact within_ret _
  · exact within_ret _
  refine within_bind_runs _ _
    (writeRequest_within w { c with _health := health, _token := c._token + 1 } _)
    fun t r hr => ?_
  rcases r with ⟨c', ok⟩
  cases ok with
  | false => exact within_ret _
  | true =>
      rcases writeRequest_runs _ c' _ true t rfl hr with ⟨put, reps, _, hwrote⟩
      cases hwrote with
      -- The response is read with the same timeout as the request was written.
      | whole _ =>
          exact readResponse_within w { c with _health := health, _token := c._token + 1 } T

/-- The price of the calls of a session. -/
def budgets (tasks : List (Task D)) : Nat := (tasks.map fun task => budget w task.timeout).sum

/-- A session is its calls, one behind the other. -/
theorem session_within [DecimalImpl D] (tasks : List (Task D)) : ∀ c : Client,
    (session tasks c).Within w.cost (budgets w tasks) := by
  induction tasks with
  | nil => exact fun c => within_ret _
  | cons task tasks ih =>
      intro c
      rw [budgets, List.map_cons, List.sum_cons]
      simp only [session, Prog.bind_def]
      refine within_bind _ _ (call_within w (c.setTimeout task.timeout) task.T task.function
        task.arguments) fun r => ?_
      rcases r with ⟨c', result⟩
      -- Only a fault ends the session.
      cases (result : Res (Option (task.T.denote D))) with
      | fault f => exact within_ret _
      | ok v => exact ih c'
      | throw e => exact ih c'

end Client

namespace Server

variable (w : Rates)

/-- The price of a transfer of a worker. -/
def share (s : Server) : Nat := w.transfer s._timeout 6

/-- The price of a turn. -/
def budget (s : Server) : Nat := w.transfer s._pending 1 + 4 * s.share w

/-- A code that is left costs nothing. -/
theorem conclude_within (size : Nat) (x : Transfer) :
    (conclude (D := D) size x).Within w.cost 0 := by
  unfold conclude
  split
  · exact within_ret _
  · exact within_free_bind _ _ (within_perform _ fun _ => Nat.le_refl 0) fun _ => within_ret _

/-- A worker's read costs one transfer. -/
theorem bestEffortRead_within (s : Server) (peer : Int) (phase : Phase) (base size : Nat) :
    (s.bestEffortRead (D := D) peer phase base size).Within w.cost (s.share w) := by
  simp only [bestEffortRead, Trpc.bestEffortRead, Prog.bind_def]
  refine within_bind_free _ _ (bestEffortTemplate_within w (coRead_within w _ base) _ _ _ _ _)
    fun x => ?_
  refine within_free_bind _ _ (within_perform _ fun _ => Nat.le_refl 0) fun _ => ?_
  exact within_free_bind _ _ (conclude_within w _ _) fun _ => within_ret _

/-- So does its write. -/
theorem bestEffortWrite_within (s : Server) (peer : Int) (phase : Phase) (data : Str) (size : Nat) :
    (s.bestEffortWrite (D := D) peer phase data size).Within w.cost (s.share w) := by
  simp only [bestEffortWrite, Trpc.bestEffortWrite, Prog.bind_def]
  refine within_bind_free _ _ (bestEffortTemplate_within w (coWrite_within w _ data) _ _ _ _ _)
    fun x => ?_
  exact within_free_bind _ _ (within_perform _ fun _ => Nat.le_refl 0) fun _ =>
    conclude_within w _ _

/-- So does the wait for the first byte, with a timeout of its own. -/
theorem bestEffortPending_within (s : Server) (peer : Int) :
    (s.bestEffortPending (D := D) peer).Within w.cost (w.transfer s._pending 1) := by
  simp only [bestEffortPending, Prog.bind_def]
  refine within_bind_free _ _ (bestEffortTemplate_within w (fun off n => ?_) _ _ _ _ _) fun x =>
    conclude_within w _ _
  exact within_ret _

/-- The content of a frame is one read. -/
theorem receiveContent_within (s : Server) (peer : Int) (buf : Str) :
    (s.receiveContent (D := D) peer buf).Within w.cost (s.share w) := by
  have hset : ∀ {α : Type} (e : Errno) (a : α) (b : Nat),
      ((setErrno e).bind fun _ => .ret a : Proc D α).Within w.cost b := fun e a b =>
    within_free_bind _ _ (within_perform _ fun _ => Nat.le_refl 0) fun _ => within_ret _
  simp only [receiveContent, Prog.bind_def]
  split
  · exact hset _ _ _
  refine within_bind_free _ _ (bestEffortRead_within w s peer _ _ _) fun r => ?_
  split
  · exact within_ret _
  split
  · exact within_ret _
  split
  · exact hset _ _ _
  · exact within_ret _

/-- A frame is the wait and two reads. -/
theorem receive_within (s : Server) (peer : Int) (buf : Str) :
    (s.receive (D := D) peer buf).Within w.cost
      (w.transfer s._pending 1 + (s.share w + s.share w)) := by
  simp only [receive, Prog.bind_def]
  refine within_bind _ _ (bestEffortPending_within w s peer) fun pending => ?_
  split
  · exact within_ret _
  refine within_bind _ _ (bestEffortRead_within w s peer _ _ _) fun r => ?_
  split
  · exact within_ret _
  split
  · exact within_ret _
  · exact receiveContent_within w s peer _

/-- A response is two writes. -/
theorem reply_within [DecimalImpl D] (s : Server) (peer : Int) (response : Json D) :
    (s.reply peer response).Within w.cost (s.share w + s.share w) := by
  simp only [reply, Prog.bind_def]
  refine within_free_bind _ _ ?_ fun r => ?_
  · -- The callback is not counted.
    unfold onResponse
    split
    · exact within_perform _ fun _ => Nat.le_refl 0
    · exact within_ret _
  split
  · exact within_ret _
  refine within_bind _ _ (bestEffortWrite_within w s peer _ _ _) fun success => ?_
  split
  · exact within_ret _
  refine within_bind_free _ _ (bestEffortWrite_within w s peer _ _ _) fun success => ?_
  split <;> exact within_ret _

/-- Functions are not counted. -/
theorem netCall_within [DecimalImpl D] (table : Table) (method : Str) (args : Json D) :
    (netCall table method args).Within w.cost 0 := by
  simp only [netCall, Prog.bind_def]
  refine within_free_bind _ _ (within_perform _ fun _ => Nat.le_refl 0) fun _ => ?_
  split
  · unfold dispatch
    split
    · exact within_ret _
    · exact within_ret _
    simp only [Prog.bind_def]
    refine within_free_bind _ _ (within_perform _ fun _ => Nat.le_refl 0) fun r => ?_
    split <;> exact within_ret _
  · exact within_ret _

/-- What functions and callbacks do is not counted. -/
theorem answer_within [DecimalImpl D] (s : Server) (peer : Int) (request : Json D) :
    (s.answer peer request).Within w.cost (s.share w + s.share w) := by
  simp only [answer, Prog.bind_def]
  refine within_free_bind _ _ ?_ fun r => ?_
  · unfold onRequest
    split
    · exact within_perform _ fun _ => Nat.le_refl 0
    · exact within_ret _
  split
  · exact within_ret _
  split
  · exact within_ret _
  · exact within_ret _
  split
  · exact within_ret _
  · exact within_ret _
  refine within_free_bind _ _ (netCall_within w _ _ _) fun outcome => ?_
  split
  · exact within_ret _
  · exact within_ret _
  · exact reply_within w s peer _

/-- A turn is a frame and its answer. -/
theorem turn_within [DecimalImpl D] (s : Server) (peer : Int) (buf : Str) :
    (s.turn (D := D) peer buf).Within w.cost (s.budget w) := by
  have hsum : s.budget w
      = w.transfer s._pending 1 + (s.share w + s.share w) + (s.share w + s.share w) := by
    unfold budget
    omega
  rw [hsum]
  simp only [turn, Prog.bind_def]
  refine within_bind _ _ (receive_within w s peer buf) fun frame => ?_
  split
  · exact within_ret _
  refine within_bind_free _ _ ?_ fun exit => ?_
  · unfold handle
    split
    · exact within_ret _
    · exact within_ret _
    · exact answer_within w s peer _
  · split <;> exact within_ret _

/-- A worker is its turns, and a close. -/
theorem worker_within [DecimalImpl D] (s : Server) (peer : Int) (n : Nat) :
    (s.worker (D := D) peer n).Within w.cost (n * s.budget w + w.other) := by
  simp only [worker, onAccept, Prog.bind_def]
  refine within_bind _ _ ?_ fun r => ?_
  · exact within_free_bind _ _ (within_perform _ fun _ => Nat.le_refl 0) fun buf =>
      within_loop (turn_within w s peer) n buf.1
  · -- Behind the loop the descriptor is closed, or the process is at its end.
    split
    · exact within_bind_free _ _ (within_perform _ fun _ => Nat.le_refl _) fun _ => within_ret _
    · exact within_ret _

end Server

/-! ## Figures -/

/-- Waiting, in milliseconds. -/
def waits : Rates := ⟨fun timeout => timeout.toInt.toNat, 0⟩

/-- Calls of the system. -/
def calls : Rates := ⟨fun _ => 1, 1⟩

/-- How long `co::poll` was told to wait, in milliseconds. -/
def waited (t : Trace D) : Nat := (t.map fun e => waits.cost e.1 e.2).sum

/-- How often the system was called. -/
def asked (t : Trace D) : Nat := (t.map fun e => calls.cost e.1 e.2).sum

/-- The share of the timeout that an attempt gets is a number of milliseconds. -/
def Fits (timeout : Int) (maxRetries : Nat) : Prop :=
  0 ≤ timeout ∧ timeout < 9223372036854775808 ∧ timeout / maxRetries ≤ 2147483647

instance (timeout : Int) (maxRetries : Nat) : Decidable (Fits timeout maxRetries) :=
  inferInstanceAs (Decidable (_ ∧ _ ∧ _))

/-- The shares add up to no more than the timeout. -/
theorem transfer_waits_le (timeout : Int) (maxRetries : Nat) (h : Fits timeout maxRetries) :
    (waits.transfer timeout maxRetries : Int) ≤ timeout := by
  have hprice : waits.transfer timeout maxRetries
      = maxRetries * (pollInterval timeout maxRetries).toInt.toNat := rfl
  rcases h with ⟨hpos, hrep, hshare⟩
  -- The interval is the timeout divided by the attempts, since it fits.
  rcases Int.lt_or_eq_of_le hpos with hlt | rfl
  · have hkept := (pollInterval_eq_iff timeout maxRetries hlt hrep).mpr hshare
    have hnonneg : 0 ≤ timeout / maxRetries := Int.ediv_nonneg hpos (Int.natCast_nonneg _)
    rw [hprice, hkept, Nat.cast_mul, Int.toNat_of_nonneg hnonneg]
    rcases Nat.eq_zero_or_pos maxRetries with rfl | hsome
    · rw [Nat.cast_zero, zero_mul]
      exact hpos
    · exact Int.mul_ediv_self_le (by omega)
  · -- Without a timeout nobody waits.
    have hzero : pollInterval 0 maxRetries = 0 := by
      unfold pollInterval
      rw [Int.zero_emod, Int.toNat_zero, Nat.zero_div]
      rfl
    have hnone : (0 : Int32).toInt.toNat = 0 := by decide
    rw [hprice, hzero, hnone, Nat.mul_zero, Nat.cast_zero]

namespace Client

/-- A call waits in four transfers. -/
theorem budget_waits_le (timeout : Int) (h : Fits timeout 10) :
    (budget waits timeout : Int) ≤ 4 * timeout := by
  have htransfer := transfer_waits_le timeout 10 h
  have hbudget : budget waits timeout = 4 * waits.transfer timeout 10 := rfl
  omega

/-- The calls of a session add up. -/
theorem budgets_waits_le (tasks : List (Task D)) (h : ∀ task ∈ tasks, Fits task.timeout 10) :
    (budgets waits tasks : Int) ≤ 4 * (tasks.map Task.timeout).sum := by
  induction tasks with
  | nil => exact le_refl 0
  | cons task tasks ih =>
      have hfirst := budget_waits_le task.timeout (h task List.mem_cons_self)
      have hrest := ih fun x hx => h x (List.mem_cons_of_mem task hx)
      unfold budgets at hrest ⊢
      simp only [List.map_cons, List.sum_cons, Nat.cast_add]
      omega

/-- Five rounds of draining, four transfers of ten attempts with three calls each, and two
    closes: 127 for each call. -/
theorem budgets_calls (tasks : List (Task D)) : budgets calls tasks = 127 * tasks.length := by
  unfold budgets
  induction tasks with
  | nil => rfl
  | cons task tasks ih =>
      have hbudget : budget calls task.timeout = 127 := rfl
      rw [List.map_cons, List.sum_cons, List.length_cons, ih, hbudget]
      omega

/-- A client never waits longer than four times the timeouts of its calls, and calls the
    system at most 127 times in each. -/
theorem session_costs [DecimalImpl D] (tasks : List (Task D)) (c : Client) (t : Trace D)
    (q : Proc D (Except Fault Client)) (hr : Reaches (session tasks c) t q)
    (hfits : ∀ task ∈ tasks, Fits task.timeout 10) :
    (waited t : Int) ≤ 4 * (tasks.map Task.timeout).sum ∧ asked t ≤ 127 * tasks.length := by
  have hwaited : waited t ≤ budgets waits tasks :=
    within_reaches refuse _ q t (session_within waits tasks c) hr
  have hasked : asked t ≤ budgets calls tasks :=
    within_reaches refuse _ q t (session_within calls tasks c) hr
  rw [budgets_calls] at hasked
  exact ⟨(Int.ofNat_le.mpr hwaited).trans (budgets_waits_le tasks hfits), hasked⟩

/-- A call whose four transfers all succeed at the last of their ten attempts. -/
def slowCall : Trace Unit × Except Fault Client :=
  drive Network.reply { Network.carrying
      (Codec.dump (resultResponse (D := Unit) 1 (.integer 7))).frame with
        polls := (List.replicate 4 (List.replicate 9 0 ++ [1])).flatten }
    (session [⟨1000, .int, text "f", []⟩] bareClient)

/-- It waits four times as long as its timeout. -/
theorem session_costs_slow : waited slowCall.1 = 4 * 1000 ∧
    (waited slowCall.1 : Int) ≤ 4 * 1000 ∧ asked slowCall.1 ≤ 127 := by
  have hr : Runs (session [⟨1000, .int, text "f", []⟩] bareClient) slowCall.1 slowCall.2 :=
    runs_drive ..
  refine ⟨by decide +kernel, ?_⟩
  exact session_costs [⟨1000, .int, text "f", []⟩] bareClient slowCall.1 _
    ((reaches_ret_iff _ _ _).mpr hr) (by decide)

end Client

namespace Server

/-- A turn waits for the first byte, and in four transfers. -/
theorem budget_waits_le (s : Server) (htimeout : Fits s._timeout 6) (hpending : Fits s._pending 1) :
    (s.budget waits : Int) ≤ s._pending + 4 * s._timeout := by
  have hshare := transfer_waits_le s._timeout 6 htimeout
  have hfirst := transfer_waits_le s._pending 1 hpending
  have hbudget : s.budget waits
      = waits.transfer s._pending 1 + 4 * waits.transfer s._timeout 6 := rfl
  omega

/-- A worker never waits longer than `_pending` and four times `_timeout` in a turn, and calls
    the system at most 75 times in each, and once to close. -/
theorem worker_costs [DecimalImpl D] (s : Server) (peer : Int) (n : Nat) (t : Trace D)
    (q : Proc D (Str ⊕ Exit)) (hr : Reaches (s.worker peer n) t q) (htimeout : Fits s._timeout 6)
    (hpending : Fits s._pending 1) :
    (waited t : Int) ≤ n * (s._pending + 4 * s._timeout) ∧ asked t ≤ 75 * n + 1 := by
  have hwaited : waited t ≤ n * s.budget waits + 0 :=
    within_reaches refuse _ q t (worker_within waits s peer n) hr
  have hasked : asked t ≤ n * s.budget calls + 1 :=
    within_reaches refuse _ q t (worker_within calls s peer n) hr
  have hturn : s.budget calls = 75 := rfl
  rw [hturn, Nat.mul_comm] at hasked
  refine ⟨?_, hasked⟩
  calc (waited t : Int) ≤ (n * s.budget waits : Nat) := Int.ofNat_le.mpr hwaited
    _ = n * (s.budget waits : Int) := Nat.cast_mul _ _
    _ ≤ n * (s._pending + 4 * s._timeout) := by
        gcongr
        exact budget_waits_le s htimeout hpending

/-- A turn with a request for a function that is not there, and transfers that all succeed at
    the last of their six attempts. -/
def slowTurn : Trace Unit × (Str ⊕ Exit) :=
  drive Network.reply { Network.carrying
      (Codec.dump (requestOf (D := Unit) 1 (text "f") [])).frame with
        polls := 1 :: (List.replicate 4 (List.replicate 5 0 ++ [1])).flatten }
    ((bareServer fun _ => none).worker 4 1)

/-- A sixth of a second is 166 milliseconds. -/
theorem worker_costs_slow : waited slowTurn.1 = 1000 + 4 * 996 ∧
    (waited slowTurn.1 : Int) ≤ 1 * (1000 + 4 * 1000) ∧ asked slowTurn.1 ≤ 75 * 1 + 1 := by
  have hr : Runs ((bareServer fun _ => none).worker 4 1) slowTurn.1 slowTurn.2 := runs_drive ..
  refine ⟨by decide +kernel, ?_⟩
  exact worker_costs (bareServer fun _ => none) 4 1 slowTurn.1 _ ((reaches_ret_iff _ _ _).mpr hr)
    (by decide) (by decide)

end Server

end Trpc
