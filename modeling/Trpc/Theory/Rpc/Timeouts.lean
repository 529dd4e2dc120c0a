import Trpc.Core.Server
import Trpc.Theory.Co.Polling
import Trpc.Theory.Rpc.Drain

/-!
# From a Timeout to a Timer

What becomes of a timeout in milliseconds on its way to the kernel. A transfer divides
it by the number of its attempts, as a `size_t`, and keeps the quotient in an `int`;
each attempt hands that to `co::poll`, which takes it apart into seconds and nanoseconds
for a timer. The setters look at nothing, and of the three steps the second is where a
number may get lost: a quotient of `2^31` or more does not fit, and what is left of it
may be negative, which no timer can be set to, or short.

## Main definitions

* `Setting`: The timeouts there are to set, and the attempts each is shared by.
* `TransferRun`: The runs of the transfers a timeout is for.
* `Armed`: What `co::poll` sets its timer to is a time.
* `Kept`: A timeout reaches the kernel as its share.

## Theorems

* `poll_armed`: Not negative is enough for the timer.
* `pollInterval_eq_iff`: When the quotient fits.
* `kept_iff`: Which timeouts are kept.
-/

namespace Trpc

open Interaction

variable {D : Type}

/-! ## The timer -/

/-- `sec` and `nsec` are a time to set a timer to. -/
def Timespec (sec nsec : Int) : Prop := 0 ≤ sec ∧ 0 ≤ nsec ∧ nsec < 1000000000

/-- The calls that set a timer set it to a time. -/
def SetsTime : Co.Call → Prop
  | .timerfdSettime _ sec nsec => Timespec sec nsec
  | _ => True

/-- Whenever `co::poll` sets a timer for this timeout, it sets it to a time. -/
def Armed (timeout : Int) : Prop :=
  ∀ fds t x, Runs (Co.poll fds timeout) t x → ∀ e ∈ t, SetsTime e.1

/-- A timeout that is not negative is taken apart into a time. -/
theorem timespec_of_nonneg (timeout : Int) (h : 0 ≤ timeout) :
    Timespec (timeout.tdiv 1000) (timeout.tmod 1000 * 1000000) := by
  rw [Int.tdiv_eq_ediv_of_nonneg h, Int.tmod_eq_emod_of_nonneg h]
  unfold Timespec
  omega

theorem poll_armed (timeout : Int) (h : 0 ≤ timeout) : Armed timeout := by
  intro fds t x hr e he
  have hcall := runs_only _ t x (Co.poll_calls fds timeout) hr e he
  rcases e with ⟨c, r⟩
  -- The timer is set in one place only.
  cases c with
  | timerfdSettime timerfd sec nsec =>
      rw [hcall.1, hcall.2]
      exact timespec_of_nonneg timeout h
  | _ => exact trivial

/-! ## The quotient -/

/-- The quotient is kept exactly when it fits. -/
theorem pollInterval_eq_iff (timeout : Int) (maxRetries : Nat) (hpos : 0 < timeout)
    (hrep : timeout < 9223372036854775808) :
    (pollInterval timeout maxRetries).toInt = timeout / maxRetries ↔
      timeout / maxRetries ≤ 2147483647 := by
  obtain ⟨n, rfl⟩ : ∃ n : Nat, timeout = n := ⟨timeout.toNat, by omega⟩
  -- A positive timeout is the same number as a `size_t`.
  have hcount : ((n : Int) % 18446744073709551616).toNat = n := by omega
  have hdiv : (n : Int) / maxRetries = ((n / maxRetries : Nat) : Int) := (Int.natCast_div n _).symm
  rw [pollInterval, hcount, hdiv]
  constructor
  · intro h
    -- Nothing that an `int` holds is larger.
    have hlt := Int32.toInt_lt (Int32.ofNat (n / maxRetries))
    omega
  · intro h
    exact Int32.toInt_ofNat_of_lt (by omega)

/-! ## Transfers -/

/-- The timeouts there are to set. -/
inductive Setting where
  /-- `Client::setTimeout`. -/
  | client
  /-- `Server::setTimeout`. -/
  | server
  /-- `Server::setPending`. -/
  | pending

/-- The attempts that share a timeout. -/
def Setting.maxRetries : Setting → Nat
  | .client => 10
  | .server => 6
  | .pending => 1

/-- The runs of the transfers a timeout is for, with `timeout` set. -/
inductive TransferRun (timeout : Int) : Setting → Trace D → Prop where
  | clientRead (c : Client) (phase : Phase) (base size : Nat) (t : Trace D)
      (r : (Client × Bool) × Transfer) :
      Runs ((c.setTimeout timeout).bestEffortRead phase base size) t r →
      TransferRun timeout .client t
  | clientWrite (c : Client) (phase : Phase) (data : Str) (size : Nat) (t : Trace D)
      (r : (Client × Bool) × Transfer) :
      Runs ((c.setTimeout timeout).bestEffortWrite phase data size) t r →
      TransferRun timeout .client t
  | serverRead (s : Server) (peer : Int) (phase : Phase) (base size : Nat) (t : Trace D)
      (r : Bool × Str) : Runs ((s.setTimeout timeout).bestEffortRead peer phase base size) t r →
      TransferRun timeout .server t
  | serverWrite (s : Server) (peer : Int) (phase : Phase) (data : Str) (size : Nat) (t : Trace D)
      (r : Bool) : Runs ((s.setTimeout timeout).bestEffortWrite peer phase data size) t r →
      TransferRun timeout .server t
  | pending (s : Server) (peer : Int) (t : Trace D) (r : Bool) :
      Runs ((s.setPending timeout).bestEffortPending peer) t r → TransferRun timeout .pending t

/-- A wait is given the share of the timeout, rounded down, and can set its timer. -/
def Shares (timeout : Int) (maxRetries : Nat) : Call D → Prop
  | .poll _ _ interval =>
    interval.toInt = timeout / maxRetries ∧ 0 ≤ interval.toInt ∧ Armed interval.toInt
  | _ => True

/-- Every wait of every transfer with this timeout is given its share. -/
def Kept (D : Type) (timeout : Int) (x : Setting) : Prop :=
  ∀ t : Trace D, TransferRun timeout x t → ∀ e ∈ t, Shares timeout x.maxRetries e.1

/-- If the quotient fits every wait is given it, and not negative as it is it is a time. -/
theorem shares_poll (timeout : Int) (maxRetries : Nat) (hpos : 0 < timeout)
    (hrep : timeout < 9223372036854775808) (hfits : timeout / maxRetries ≤ 2147483647) (fd : Int)
    (event : PollEvent) :
    Shares (D := D) timeout maxRetries (.poll fd event (pollInterval timeout maxRetries)) := by
  have heq := (pollInterval_eq_iff timeout maxRetries hpos hrep).mpr hfits
  have hnonneg : 0 ≤ timeout / (maxRetries : Int) :=
    Int.ediv_nonneg (by omega) (Int.natCast_nonneg maxRetries)
  exact ⟨heq, heq ▸ hnonneg, poll_armed _ (heq ▸ hnonneg)⟩

theorem conclude_shares (timeout : Int) (maxRetries size : Nat) (x : Transfer) :
    (Server.conclude (D := D) size x).Only (Shares timeout maxRetries) := by
  unfold Server.conclude
  split
  · exact trivial
  · exact only_bind _ _ (only_perform _ trivial) (fun _ => trivial)

theorem transfers_share (timeout : Int) (x : Setting) (hpos : 0 < timeout)
    (hrep : timeout < 9223372036854775808) (hfits : timeout / x.maxRetries ≤ 2147483647) :
    Kept D timeout x := by
  have hpoll := shares_poll (D := D) timeout x.maxRetries hpos hrep hfits
  intro t ht
  cases ht with
  | clientRead c phase base size _ r hr =>
      refine runs_only _ t r ?_ hr
      simp only [Client.bestEffortRead, Trpc.bestEffortRead, Prog.bind_def]
      refine only_bind _ _ (bestEffortTemplate_only (coRead_only base fun _ _ => trivial) trivial
        timeout 10 (hpoll _ _) trivial) (fun x => ?_)
      exact only_bind _ _ (only_perform _ trivial) (fun _ => trivial)
  | clientWrite c phase data size _ r hr =>
      refine runs_only _ t r ?_ hr
      simp only [Client.bestEffortWrite, Trpc.bestEffortWrite, Prog.bind_def]
      refine only_bind _ _ (bestEffortTemplate_only (coWrite_only data fun _ => trivial) trivial
        timeout 10 (hpoll _ _) trivial) (fun x => ?_)
      exact only_bind _ _ (only_perform _ trivial) (fun _ => trivial)
  | serverRead s peer phase base size _ r hr =>
      refine runs_only _ t r ?_ hr
      simp only [Server.bestEffortRead, Trpc.bestEffortRead, Prog.bind_def]
      refine only_bind _ _ (bestEffortTemplate_only (coRead_only base fun _ _ => trivial) trivial
        timeout 6 (hpoll _ _) trivial) (fun x => ?_)
      refine only_bind _ _ (only_perform _ trivial) (fun _ => ?_)
      exact only_bind _ _ (conclude_shares _ _ _ _) (fun _ => trivial)
  | serverWrite s peer phase data size _ r hr =>
      refine runs_only _ t r ?_ hr
      simp only [Server.bestEffortWrite, Trpc.bestEffortWrite, Prog.bind_def]
      refine only_bind _ _ (bestEffortTemplate_only (coWrite_only data fun _ => trivial) trivial
        timeout 6 (hpoll _ _) trivial) (fun x => ?_)
      exact only_bind _ _ (only_perform _ trivial) (fun _ => conclude_shares _ _ _ _)
  | pending s peer _ r hr =>
      refine runs_only _ t r ?_ hr
      simp only [Server.bestEffortPending, Prog.bind_def]
      -- The wait for a first byte transfers nothing.
      have hbyte : ∀ off n, (Server.firstByte (D := D) off n).Only (Shares timeout 1) :=
        fun _ _ => trivial
      refine only_bind _ _ (bestEffortTemplate_only hbyte trivial timeout 1 (hpoll _ _) trivial)
        (fun x => ?_)
      exact conclude_shares _ _ _ _

/-- A transfer whose first wait fails. -/
theorem first_wait (func : CoPosixFunc D) (event : PollEvent) (fd : Int) (size : Nat)
    (timeout : Int) (n : Nat) :
    ∃ t x, Runs (bestEffortTemplate func event fd size timeout (n + 1)) t x ∧
      (⟨.poll fd event (pollInterval timeout (n + 1)), ((-1, 0) : Int × Errno)⟩ : Ev D) ∈ t := by
  -- A clock with which the first attempt is not late, whatever the timeout has become.
  let now : Int := nanoseconds (timeout * 1000000)
  have hnow : nanoseconds now = nanoseconds (timeout * 1000000) := Int.bmod_bmod
  have hearly : ¬ expired 0 timeout now = true := by
    rw [expired, decide_eq_true_eq, Int.sub_zero, hnow]
    exact lt_irrefl _
  refine ⟨⟨.tick, (0 : Int)⟩ :: ⟨.tick, now⟩ ::
    [⟨.poll fd event (pollInterval timeout (n + 1)), ((-1, 0) : Int × Errno)⟩], ⟨-1, [], 0⟩, ?_,
    List.mem_cons_of_mem _ (List.mem_cons_of_mem _ List.mem_cons_self)⟩
  simp only [bestEffortTemplate, attempts, Prog.bind_def, Prog.pure_def]
  rw [runs_tick_bind]
  refine ⟨(0 : Int), _, rfl, ?_⟩
  rw [runs_tick_bind]
  refine ⟨now, _, rfl, ?_⟩
  rw [if_neg hearly, runs_poll_bind]
  exact ⟨(-1, 0), [], rfl, Runs.ret _⟩

/-- However a run has begun, there is some way for it to go on. -/
theorem runs_go_on {α β : Type} (p : Proc D α) (f : α → Proc D β) (t : Trace D) (a : α)
    (h : Runs p t a) : ∃ u b, Runs (p.bind f) (t ++ u) b := by
  rcases runs_with refuse (f a) with ⟨u, b, hu, _⟩
  exact ⟨u, b, (runs_bind_iff ..).mpr ⟨t, u, a, rfl, h, hu⟩⟩

/-- Every timeout is for some transfer that waits. -/
theorem transfer_waits (timeout : Int) (x : Setting) :
    ∃ (t : Trace D) (fd : Int) (event : PollEvent) (r : Int × Errno), TransferRun timeout x t ∧
      (⟨.poll fd event (pollInterval timeout x.maxRetries), r⟩ : Ev D) ∈ t := by
  cases x with
  | client =>
      rcases first_wait (D := D) (coRead (-1) 0) .pollin (-1) 0 timeout 9 with ⟨t, x, hr, hmem⟩
      rcases runs_go_on _ _ t x hr with ⟨u, b, hu⟩
      exact ⟨t ++ u, -1, .pollin, (-1, 0), .clientRead (Client.new 0) .readHeader 0 0 _ b hu,
        List.mem_append_left u hmem⟩
  | server =>
      rcases first_wait (D := D) (coRead (-1) 0) .pollin (-1) 0 timeout 5 with ⟨t, x, hr, hmem⟩
      rcases runs_go_on _ _ t x hr with ⟨u, b, hu⟩
      exact ⟨t ++ u, -1, .pollin, (-1, 0),
        .serverRead ⟨fun _ => none, 0, 0, false, false⟩ (-1) .readHeader 0 0 _ b hu,
        List.mem_append_left u hmem⟩
  | pending =>
      rcases first_wait (D := D) Server.firstByte .pollin (-1) 1 timeout 0
        with ⟨t, x, hr, hmem⟩
      rcases runs_go_on _ _ t x hr with ⟨u, b, hu⟩
      exact ⟨t ++ u, -1, .pollin, (-1, 0),
        .pending ⟨fun _ => none, 0, 0, false, false⟩ (-1) _ b hu, List.mem_append_left u hmem⟩

/-- A timeout that can be set is kept exactly when its share fits an `int`. -/
theorem kept_iff (timeout : Int) (x : Setting) (hpos : 0 < timeout)
    (hrep : timeout < 9223372036854775808) :
    Kept D timeout x ↔ timeout / x.maxRetries ≤ 2147483647 := by
  constructor
  · intro h
    -- Some transfer waits, so the share is seen.
    rcases transfer_waits (D := D) timeout x with ⟨t, fd, event, r, ht, hmem⟩
    exact (pollInterval_eq_iff timeout x.maxRetries hpos hrep).mp (h t ht _ hmem).1
  · exact transfers_share timeout x hpos hrep

/-- Ten seconds. -/
theorem kept_client :
    Kept Unit 10000 .client ↔ (10000 : Int) / Setting.client.maxRetries ≤ 2147483647 :=
  kept_iff (D := Unit) 10000 .client (by decide) (by decide)

/-- Twenty-five days for the first byte of a request: the share comes out negative. -/
theorem not_kept : ¬ ∀ (timeout : Int) (x : Setting), 0 < timeout →
    timeout < 9223372036854775808 → Kept Unit timeout x := by
  intro h
  rcases transfer_waits (D := Unit) 2160000000 .pending with ⟨t, fd, event, r, ht, hmem⟩
  have hshare := (h 2160000000 .pending (by decide) (by decide) t ht _ hmem).2.1
  exact absurd hshare (by decide +kernel)

end Trpc
