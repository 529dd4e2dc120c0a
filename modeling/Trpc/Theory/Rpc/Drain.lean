import Trpc.Theory.Rpc.ClientRuns
import Trpc.Theory.Rpc.Effort

/-!
# How Much the Health Check Reads

Each read of the health check goes to the start of a local buffer of 4096 bytes.
When the check learns a length from a header itself, it gives up on a response
that does not fit. When `Client::call` has recorded the length, nobody compares
it with that buffer, and the receive buffer of a call is four times as large.
`session_drains_inside` says that this is the only way to a read that is too
large.

The rest of a call does not use `::read`. That is a fact about which calls a
program can make at all, whatever it is answered, and the lemmas for it are
stated for any such property.

## Main definitions

* `Call.Transfers`, `Call.Plain`: A property that certain calls have.
* `Ev.DrainsInside`: A read that the buffer of the check can take.
* `Health.Bounded`: What is left fits that buffer.
* `LeavesLittle`: So does what a call leaves.

## Theorems

* `writeRequest_only`, `readResponse_only`: What a call can do besides the check.
* `check_bounded`: A check stays inside its buffer.
* `drain_lost`: A response given up is not read.
* `session_drains_inside`: Every session does, as long as calls leave little.
-/

namespace Trpc

open Vsjson Interaction

variable {D : Type}

/-! ## Calls that a part of the program does not make -/

section Calls

variable {P : Call D → Prop} {func : CoPosixFunc D} {event : PollEvent} {fd : Int} {size : Nat}

/-- The loop of a transfer makes the calls its parts make. -/
theorem attempts_only (hfunc : ∀ off n, (func off n).Only P) (htick : P .tick) (interval : Int32)
    (hpoll : P (.poll fd event interval)) (husleep : P (.usleep 1)) (timeout start : Int) :
    ∀ retries off m errno,
      (attempts func event fd size timeout interval start retries off m errno).Only P := by
  intro retries
  induction retries with
  | zero =>
      intro off m errno
      unfold attempts
      -- No attempt is left: nothing more is called.
      split <;> exact trivial
  | succ retries ih =>
      intro off m errno
      simp only [attempts, Prog.bind_def, Prog.pure_def]
      refine only_bind _ _ (only_perform _ htick) (fun now => ?_)
      split
      · exact trivial
      refine only_bind _ _ (only_perform _ hpoll) (fun pret => ?_)
      -- A poll that fails ends the transfer, and one that times out costs an attempt.
      split
      · split
        · exact trivial
        · exact ih off m _
      refine only_bind _ _ (hfunc off _) (fun ret => ?_)
      rcases ret with ⟨_ | ⟨n, bytes⟩, errno'⟩
      · simp only
        split
        · exact ih off m _
        split
        · -- The pause at `EAGAIN`, before the next attempt.
          exact only_bind _ _ (only_perform _ husleep) (fun e => ih off m e)
        · exact trivial
      · simp only
        split
        · exact trivial
        split
        · exact trivial
        · exact ih _ _ _

/-- A transfer. -/
theorem bestEffortTemplate_only (hfunc : ∀ off n, (func off n).Only P) (htick : P .tick)
    (timeout : Int) (maxRetries : Nat)
    (hpoll : P (.poll fd event (pollInterval timeout maxRetries))) (husleep : P (.usleep 1)) :
    (bestEffortTemplate func event fd size timeout maxRetries).Only P := by
  simp only [bestEffortTemplate, Prog.bind_def]
  exact only_bind _ _ (only_perform _ htick)
    (fun start => attempts_only hfunc htick _ hpoll husleep timeout start maxRetries 0 [] 0)

theorem coRead_only (base : Nat) (hread : ∀ off n, P (.read fd off n)) (off n : Nat) :
    (coRead fd base off n).Only P := by
  simp only [coRead, Prog.bind_def]
  refine only_bind _ _ (only_perform _ (hread _ n)) (fun r => ?_)
  rcases r with ⟨_ | bs, errno⟩ <;> exact trivial

theorem coWrite_only (data : Str) (hwrite : ∀ bytes, P (.write fd bytes)) (off n : Nat) :
    (coWrite fd data off n).Only P := by
  simp only [coWrite, Prog.bind_def]
  refine only_bind _ _ (only_perform _ (hwrite _)) (fun r => ?_)
  rcases r with ⟨_ | k, errno⟩ <;> exact trivial

end Calls

/-- `P` allows whatever a transfer calls. -/
structure Call.Transfers (P : Call D → Prop) : Prop where
  tick : P .tick
  poll : ∀ fd event timeout, P (.poll fd event timeout)
  read : ∀ fd off n, P (.read fd off n)
  write : ∀ fd data, P (.write fd data)
  usleep : ∀ usec, P (.usleep usec)
  report : ∀ r, P (.report r)

/-- `P` allows whatever a client calls besides `::read` and its local arrays. -/
structure Call.Plain (P : Call D → Prop) : Prop extends Call.Transfers P where
  close : ∀ fd, P (.close fd)

namespace Client

variable {P : Call D → Prop}

section Transfers

variable (hP : Call.Transfers P)

include hP

theorem bestEffortRead_only (c : Client) (phase : Phase) (base size : Nat) :
    (c.bestEffortRead phase base size).Only P := by
  simp only [bestEffortRead, Trpc.bestEffortRead, Prog.bind_def]
  refine only_bind _ _ (bestEffortTemplate_only (coRead_only base (hP.read _)) hP.tick
    _ _ (hP.poll _ _ _) (hP.usleep 1)) (fun x => ?_)
  exact only_bind _ _ (only_perform _ (hP.report _)) (fun _ => trivial)

theorem bestEffortWrite_only (c : Client) (phase : Phase) (data : Str) (size : Nat) :
    (c.bestEffortWrite phase data size).Only P := by
  simp only [bestEffortWrite, Trpc.bestEffortWrite, Prog.bind_def]
  refine only_bind _ _ (bestEffortTemplate_only (coWrite_only data (hP.write _)) hP.tick
    _ _ (hP.poll _ _ _) (hP.usleep 1)) (fun x => ?_)
  exact only_bind _ _ (only_perform _ (hP.report _)) (fun _ => trivial)

end Transfers

section Plain

variable (hP : Call.Plain P)

include hP

theorem close_only (c : Client) : (c.close).Only P := by
  unfold close
  split
  · exact only_bind _ _ (only_perform _ (hP.close _)) (fun _ => trivial)
  · exact trivial

/-- A request: two transfers, and `close` where one fails. -/
theorem writeRequest_only (c : Client) (d : Dumped) : (c.writeRequest d).Only P := by
  simp only [writeRequest, Prog.bind_def]
  refine only_bind _ _ (bestEffortWrite_only hP.toTransfers c _ _ _) (fun x => ?_)
  split
  · split
    · exact only_bind _ _ (close_only hP _) (fun _ => trivial)
    · exact trivial
  refine only_bind _ _ (bestEffortWrite_only hP.toTransfers _ _ _ _) (fun y => ?_)
  split
  · exact only_bind _ _ (close_only hP _) (fun _ => trivial)
  · exact trivial

/-- The content: one transfer, unless the length is refused. -/
theorem readContent_only [DecimalImpl D] (c : Client) (T : Ty) (buf : Str) :
    (c.readContent T buf).Only P := by
  simp only [readContent, Prog.bind_def]
  split
  · exact only_bind _ _ (close_only hP _) (fun _ => trivial)
  refine only_bind _ _ (bestEffortRead_only hP.toTransfers c _ _ _) (fun x => ?_)
  split
  · exact trivial
  split
  · exact trivial
  split <;> exact trivial

/-- A response: an array, the header and the content. -/
theorem readResponse_only [DecimalImpl D] (c : Client) (T : Ty)
    (hstack : P (.stack bufSizeOnStack)) : (c.readResponse T).Only P := by
  simp only [readResponse, Prog.bind_def]
  refine only_bind _ _ (only_perform _ hstack) (fun buf => ?_)
  refine only_bind _ _ (bestEffortRead_only hP.toTransfers c _ _ _) (fun x => ?_)
  split
  · exact trivial
  split
  · exact trivial
  · exact readContent_only hP _ T _

end Plain

end Client

/-! ## Reads inside the buffer -/

/-- A call other than the plain `::read` of the health check. -/
def Call.Waits : Call D → Prop
  | .sysRead _ _ => False
  | _ => True

theorem Call.waits_plain : Call.Plain (D := D) Call.Waits :=
  ⟨⟨trivial, fun _ _ _ => trivial, fun _ _ _ => trivial, fun _ _ => trivial, fun _ => trivial,
    fun _ => trivial⟩, fun _ => trivial⟩

/-- How much a read of the health check asks for. -/
def Ev.drained : Ev D → Nat
  | ⟨.sysRead _ size, _⟩ => size
  | _ => 0

/-- It asks for no more than its buffer holds. A difference below zero would be
    asked for as a size near `2 ^ 64`. -/
def Ev.DrainsInside (e : Ev D) : Prop := Ev.drained e ≤ Health.bufSize

instance (e : Ev D) : Decidable (Ev.DrainsInside e) :=
  inferInstanceAs (Decidable (Ev.drained e ≤ Health.bufSize))

/-- What does not use it reads nothing too large. -/
theorem drainsInside_of_waits (t : Trace D) (h : ∀ e ∈ t, Call.Waits e.1) :
    ∀ e ∈ t, Ev.DrainsInside e := by
  intro e he
  have hw := h e he
  rcases e with ⟨c, r⟩
  cases c with
  | sysRead => exact absurd hw id
  | _ => exact Nat.zero_le _

namespace Health

/-- What is left is not less than nothing, and fits the buffer. -/
def Bounded (h : Health) : Prop :=
  match h._state with
  | .headerReadSome => 0 ≤ headerSize - h._some ∧ 0 ≤ h._some
  | .contentReadSome => 0 ≤ h._content - h._some ∧ h._content - h._some ≤ bufSize
  | _ => True

theorem bounded_header (h : Health) (hs : h._state = .headerReadSome) :
    h.Bounded ↔ 0 ≤ headerSize - h._some ∧ 0 ≤ h._some := by
  simp only [Bounded, hs]

theorem bounded_content (h : Health) (hs : h._state = .contentReadSome) :
    h.Bounded ↔ 0 ≤ h._content - h._some ∧ h._content - h._some ≤ bufSize := by
  simp only [Bounded, hs]

theorem bounded_idle (h : Health) (hs : h._state = .noRead ∨ h._state = .undefined) :
    h.Bounded := by
  rcases hs with hs | hs <;> simp only [Bounded, hs]

theorem toSize_of_nonneg (i : Int) (h : 0 ≤ i) (hle : i ≤ bufSize) : (toSize i : Int) = i := by
  have hb : bufSize = 4096 := rfl
  rw [toSize, Int.emod_eq_of_lt h (by omega), Int.toNat_of_nonneg h]

/-- The one read of a round. -/
theorem stateMachine_only (h : Health) (fd : Int) (buf : Str) (boundary : Nat) (next : State) :
    (h.stateMachine (D := D) fd buf boundary next).Only fun c =>
      c = .sysRead fd boundary ∨ ∃ r, c = .report r := by
  simp only [stateMachine, Prog.bind_def]
  refine only_bind _ _ (only_perform _ (Or.inl rfl)) (fun ret => ?_)
  split
  · exact only_bind _ _ (only_perform _ (Or.inr ⟨_, rfl⟩)) (fun _ => trivial)
  · refine only_bind _ _ (only_perform _ (Or.inr ⟨_, rfl⟩)) (fun _ => ?_)
    split
    · exact trivial
    split
    · exact trivial
    split <;> exact trivial

/-- A round asks for `boundary` bytes, and for nothing else. -/
theorem stateMachine_inside (h : Health) (fd : Int) (buf : Str) (boundary : Nat) (next : State)
    (t : Trace D) (r : Except Fault (Health × Str)) (hb : boundary ≤ bufSize)
    (hr : Runs (h.stateMachine fd buf boundary next) t r) : ∀ e ∈ t, Ev.DrainsInside e := by
  intro e he
  have honly := runs_only _ t r (stateMachine_only h fd buf boundary next) hr e he
  rcases e with ⟨c, reply⟩
  rcases honly with hc | ⟨x, hc⟩
  · simp only at hc
    subst hc
    exact hb
  · simp only at hc
    subst hc
    exact Nat.zero_le _

/-- What is read fits a buffer that is no smaller than the read. -/
theorem stateMachine_fits (h : Health) (fd : Int) (buf : Str) (boundary : Nat) (next : State)
    (t : Trace D) (r : Except Fault (Health × Str)) (hb : boundary ≤ buf.length)
    (hr : Runs (h.stateMachine fd buf boundary next) t r) :
    ∃ h' buf', r = .ok (h', buf') ∧ buf'.length = buf.length := by
  simp only [stateMachine, Prog.bind_def, runs_sysRead_bind] at hr
  rcases hr with ⟨ret, t1, rfl, hr⟩
  -- A read that fails leaves the buffer as it is.
  rcases ret with _ | ⟨bs, hbs⟩
  · rcases (runs_report_bind ..).mp hr with ⟨u, t2, rfl, hend⟩
    rcases (runs_ret_iff ..).mp hend with ⟨rfl, rfl⟩
    exact ⟨_, _, rfl, rfl⟩
  · rcases (runs_report_bind ..).mp hr with ⟨u, t2, rfl, hend⟩
    have hfit : 0 + bs.length ≤ buf.length := by omega
    -- What comes in replaces as many bytes at the start.
    have hlen : (buf.take 0 ++ (bs ++ buf.drop (0 + bs.length))).length = buf.length := by
      simp only [List.take_zero, List.nil_append, List.length_append, List.length_drop]
      omega
    simp only [store_eq buf bs 0 hfit] at hend
    split at hend
    · rcases (runs_ret_iff ..).mp hend with ⟨rfl, rfl⟩
      exact ⟨_, _, rfl, hlen⟩
    split at hend
    · rcases (runs_ret_iff ..).mp hend with ⟨rfl, rfl⟩
      exact ⟨_, _, rfl, hlen⟩
    · rcases (runs_ret_iff ..).mp hend with ⟨rfl, rfl⟩
      exact ⟨_, _, rfl, hlen⟩

/-- A length that does not fit the buffer is given up. -/
theorem learn_bounded (h : Health) (buf : Str) (hsome : h._state = .contentReadSome → h._some = 0)
    (hb : h._state ≠ .contentReadSome → h.Bounded) : (h.learn buf).Bounded := by
  simp only [learn]
  split
  · rename_i hs
    -- Here the length from the header is compared with the buffer.
    split
    · exact bounded_idle _ (Or.inr rfl)
    · rename_i hle
      refine (bounded_content ⟨h._some, (contentLength buf headerSize).2, h._state⟩ hs).mpr ?_
      simp only [hsome hs]
      omega
  · rename_i hs
    exact hb hs

/-- A round of the header keeps what is left inside the buffer. -/
theorem header_bounded (h h' : Health) (buf buf' : Str) (got : Str) (reps : List Report)
    (hs : h._state = .headerReadSome) (hb : h.Bounded)
    (hstep : Stepped h buf (toSize (headerSize - h._some)) .contentReadSome .drainHeader got reps
      (.ok (h', buf'))) : (h'.learn buf').Bounded := by
  rw [bounded_header h hs] at hb
  have hsize : headerSize = 4 := rfl
  have hbuf : bufSize = 4096 := rfl
  have hbound := toSize_of_nonneg (headerSize - h._some) hb.1 (by omega)
  -- Only a header that is complete makes the state one of content, and then nothing of
  -- that has been read.
  refine learn_bounded h' buf' ?_ ?_
  · intro hs'
    cases hstep with
    | failed => cases hs'
    | finished => cases hs'
    | short => exact absurd (hs.symm.trans hs') (by decide)
    | whole => rfl
  · intro hs'
    cases hstep with
    | failed => exact bounded_idle _ (Or.inr rfl)
    | finished => exact bounded_idle _ (Or.inr rfl)
    | short hpos hlt =>
        refine (bounded_header ⟨h._some + got.length, h._content, h._state⟩ hs).mpr ?_
        simp only
        omega
    | whole => exact absurd rfl hs'

/-- So does a round of the content. -/
theorem content_bounded (h h' : Health) (buf buf' : Str) (got : Str) (reps : List Report)
    (hs : h._state = .contentReadSome) (hb : h.Bounded)
    (hstep : Stepped h buf (toSize (h._content - h._some)) .noRead .drainContent got reps
      (.ok (h', buf'))) : h'.Bounded := by
  rw [bounded_content h hs] at hb
  have hbound := toSize_of_nonneg (h._content - h._some) hb.1 hb.2
  -- Of the four endings only the short one leaves something to read.
  cases hstep with
  | failed => exact bounded_idle _ (Or.inr rfl)
  | finished => exact bounded_idle _ (Or.inr rfl)
  | short hpos hlt =>
      refine (bounded_content ⟨h._some + got.length, h._content, h._state⟩ hs).mpr ?_
      simp only
      omega
  | whole => exact bounded_idle _ (Or.inl rfl)

/-- The loop of the check reads inside its buffer as long as what is left fits,
    and keeps it so. -/
theorem drain_bounded (fd : Int) (n : Nat) : ∀ (h : Health) (buf : Str) (t : Trace D)
    (r : Except Fault (Health × Bool)), h.Bounded → buf.length = bufSize →
      Runs (drain fd n h buf) t r →
      (∀ e ∈ t, Ev.DrainsInside e) ∧ ∃ h' b, r = .ok (h', b) ∧ h'.Bounded := by
  induction n with
  | zero =>
      intro h buf t r hb hbuf hr
      rcases (runs_ret_iff ..).mp hr with ⟨rfl, rfl⟩
      exact ⟨fun e he => absurd he List.not_mem_nil, h, false, rfl, hb⟩
  | succ n ih =>
      intro h buf t r hb hbuf hr
      have hbuf' : bufSize = 4096 := rfl
      simp only [drain] at hr
      cases hs : h._state with
      | noRead =>
          rw [hs] at hr
          rcases (runs_ret_iff ..).mp hr with ⟨rfl, rfl⟩
          exact ⟨fun e he => absurd he List.not_mem_nil, h, true, rfl, hb⟩
      | headerReadSome =>
          rw [hs] at hr
          have hleft := (bounded_header h hs).mp hb
          have hsize : headerSize = 4 := rfl
          -- What is left of the header is asked for, which is not negative.
          have hbound := toSize_of_nonneg (headerSize - h._some) hleft.1 (by omega)
          rcases (runs_bind_iff ..).mp hr with ⟨t1, t2, x, rfl, h1, h2⟩
          rcases stateMachine_fits h fd buf _ _ t1 x (by omega) h1 with ⟨h', buf', rfl, hlen⟩
          rcases stateMachine_runs h fd buf _ _ _ t1 h1 with ⟨got, reps, _, hstep⟩
          rcases ih _ buf' t2 r (header_bounded h h' buf buf' got reps hs hb hstep)
            (hlen.trans hbuf) h2 with ⟨hin, hend⟩
          exact ⟨List.forall_mem_append.mpr ⟨stateMachine_inside h fd buf _ _ t1 _ (by omega) h1,
            hin⟩,
            hend⟩
      | contentReadSome =>
          rw [hs] at hr
          have hleft := (bounded_content h hs).mp hb
          -- What is left of the content is asked for, and it fits the buffer by the invariant.
          have hbound := toSize_of_nonneg (h._content - h._some) hleft.1 hleft.2
          rcases (runs_bind_iff ..).mp hr with ⟨t1, t2, x, rfl, h1, h2⟩
          rcases stateMachine_fits h fd buf _ _ t1 x (by omega) h1 with ⟨h', buf', rfl, hlen⟩
          rcases stateMachine_runs h fd buf _ _ _ t1 h1 with ⟨got, reps, _, hstep⟩
          rcases ih _ buf' t2 r (content_bounded h h' buf buf' got reps hs hb hstep)
            (hlen.trans hbuf) h2 with ⟨hin, hend⟩
          exact ⟨List.forall_mem_append.mpr ⟨stateMachine_inside h fd buf _ _ t1 _ (by omega) h1,
            hin⟩,
            hend⟩
      -- A record given up stays so for the steps that are left.
      | undefined =>
          rw [hs] at hr
          exact ih h buf t r hb hbuf hr

/-- A check that has given up reads nothing. -/
theorem drain_lost (fd : Int) (n : Nat) : ∀ (h : Health) (buf : Str) (t : Trace D)
    (r : Except Fault (Health × Bool)), h._state = .undefined → Runs (drain fd n h buf) t r →
      t = [] ∧ r = .ok (h, false) := by
  induction n with
  | zero =>
      intro h buf t r _ hr
      exact (runs_ret_iff ..).mp hr
  | succ n ih =>
      intro h buf t r hs hr
      simp only [drain, hs] at hr
      exact ih h buf t r hs hr

/-- So does the check. -/
theorem check_bounded (h : Health) (fd : Int) (t : Trace D) (r : Except Fault (Health × Bool))
    (hb : h.Bounded) (hr : Runs (h.check fd) t r) :
    (∀ e ∈ t, Ev.DrainsInside e) ∧ ∃ h' b, r = .ok (h', b) ∧ h'.Bounded := by
  unfold check at hr
  split at hr
  · rcases (runs_ret_iff ..).mp hr with ⟨rfl, rfl⟩
    exact ⟨fun e he => absurd he List.not_mem_nil, h, false, rfl, hb⟩
  split at hr
  · rcases (runs_ret_iff ..).mp hr with ⟨rfl, rfl⟩
    exact ⟨fun e he => absurd he List.not_mem_nil, h, true, rfl, hb⟩
  · simp only [Prog.bind_def, runs_stack_bind] at hr
    rcases hr with ⟨buf, t1, rfl, hr⟩
    rcases drain_bounded fd 5 h buf.1 t1 r hb buf.2 hr with ⟨hin, hend⟩
    exact ⟨List.forall_mem_cons.mpr ⟨Nat.zero_le _, hin⟩, hend⟩

end Health

namespace Client

/-- A read of the content that ends early leaves no more than the buffer of the
    health check holds, by the number it returns. -/
def LeavesLittle (x : Report) : Prop :=
  x.phase = .readContent → x.ret ≠ x.size → (x.size : Int) - max 0 x.ret ≤ Health.bufSize

/-- The parts of a call: the check, and the rest, which does not use `::read`. -/
theorem call_parts [DecimalImpl D] (c c' : Client) (T : Ty) (function : Str)
    (arguments : List (Json D)) (t : Trace D) (r : Res (Option (T.denote D)))
    (hr : Runs (c.call T function arguments) t (c', r)) :
    ∃ t1 t2 x, t = t1 ++ t2 ∧ Runs (c._health.check c._socket) t1 x ∧
      ∀ e ∈ t2, Call.Waits e.1 := by
  simp only [call, Prog.bind_def] at hr
  rcases (runs_bind_iff ..).mp hr with ⟨t1, t2, x, rfl, h1, h2⟩
  refine ⟨t1, t2, x, rfl, h1, runs_only _ t2 _ ?_ h2⟩
  split
  · exact trivial
  split
  · exact trivial
  -- Behind a check that succeeds comes the request, then the response.
  simp only [makeRequest_eq]
  refine only_bind _ _ (writeRequest_only Call.waits_plain _ _) (fun y => ?_)
  split
  · exact trivial
  · exact readResponse_only Call.waits_plain _ T trivial

/-- A call that leaves little is left with a record the next check can work off. -/
theorem called_bounded [DecimalImpl D] (c c' : Client) (T : Ty) (d : Dumped) (t : Trace D)
    (r : Res (Option (T.denote D))) (hb : c._health.Bounded) (hcall : Called c T d t c' r)
    (hlittle : ∀ x ∈ reports t, LeavesLittle x) : c'._health.Bounded := by
  have hchecked : ∀ (t1 : Trace D) h b, Runs (c._health.check c._socket) t1 (.ok (h, b)) →
      h.Bounded := by
    intro t1 h b hrun
    rcases (Health.check_bounded _ _ _ _ hb hrun).2 with ⟨h', b', heq, hb'⟩
    cases heq
    exact hb'
  cases hcall with
  | unhealthy _ h hrun => exact hchecked _ h _ hrun
  | faulted _ f hrun => exact hb
  | unwritten t1 t2 h put reps _ hrun _ hwrote =>
      have hh := hchecked _ h _ hrun
      cases hwrote <;> exact hh
  | answered t1 t2 t3 h reps got reps' _ _ hrun _ _ hm hback =>
      have hh := hchecked _ h _ hrun
      have hreps : ∀ x ∈ reps', LeavesLittle x := by
        intro x hx
        refine hlittle x ?_
        rw [reports_append, reports_append, hm.reports]
        exact List.mem_append_right _ (List.mem_append_right _ hx)
      cases hback with
      -- A header that came in part: what is left of it is between nothing and four bytes.
      | noHeader x e hret he =>
          refine (Health.bounded_header _ rfl).mpr ?_
          have hsize : headerSize = 4 := rfl
          have hle := he.length_le
          have hx := he.ret
          change 0 ≤ (headerSize : Int) - max 0 x.ret ∧ 0 ≤ max 0 x.ret
          omega
      | tooLong => exact hh
      | noContent head x e hhead hlong hret he =>
          -- Only here a length that the peer has announced enters the record.
          have hleft := hreps _ (List.mem_cons_of_mem _ (List.mem_singleton_self _)) rfl hret
          refine (Health.bounded_content _ rfl).mpr ?_
          have hle := he.length_le
          have hx := he.ret
          change 0 ≤ (ntohl head : Int) - max 0 x.ret ∧ (ntohl head : Int) - max 0 x.ret ≤ _
          simp only at hleft
          omega
      | whole => exact hh

/-- In a session, every read of a health check asks for what its buffer holds at
    most, as long as the calls before it have left little; and if all of them
    have, so does the record that is left. -/
theorem session_bounded [DecimalImpl D] (tasks : List (Task D)) :
    ∀ (c : Client) (t : Trace D) (x : Except Fault Client), c._health.Bounded →
      Runs (session tasks c) t x →
      AtEach (fun before e => (∀ y ∈ reports before, LeavesLittle y) → Ev.DrainsInside e) t ∧
      ∀ c', x = .ok c' → (∀ y ∈ reports t, LeavesLittle y) → c'._health.Bounded := by
  induction tasks with
  | nil =>
      intro c t x hb hr
      rcases (runs_ret_iff ..).mp hr with ⟨rfl, rfl⟩
      refine ⟨atEach_nil _, fun c' hc _ => ?_⟩
      cases hc
      exact hb
  | cons task tasks ih =>
      intro c t x hb hr
      simp only [session, Prog.bind_def] at hr
      rcases (runs_bind_iff ..).mp hr with ⟨t1, t2, ⟨c1, r⟩, rfl, h1, h2⟩
      rcases call_parts _ c1 _ _ _ t1 r h1 with ⟨u1, u2, y, rfl, hcheck, hwaits⟩
      have hfirst : ∀ e ∈ u1 ++ u2, Ev.DrainsInside e := List.forall_mem_append.mpr
        ⟨(Health.check_bounded _ _ _ _ hb hcheck).1, drainsInside_of_waits u2 hwaits⟩
      -- A call that leaves little starts the rest from a record that is bounded.
      have hnext : (∀ y ∈ reports (u1 ++ u2), LeavesLittle y) → c1._health.Bounded :=
        called_bounded (c.setTimeout task.timeout) c1 _ _ _ r hb (call_runs _ c1 _ _ _ _ r h1)
      -- A call that faults ends the session.
      have htail : Runs (session tasks c1) t2 x ∨ t2 = [] ∧ ∀ c', x ≠ .ok c' := by
        change Res (Option (task.T.denote D)) at r
        cases r with
        | ok v => exact Or.inl h2
        | throw e => exact Or.inl h2
        | fault f =>
            rcases (runs_ret_iff ..).mp h2 with ⟨rfl, rfl⟩
            exact Or.inr ⟨rfl, fun c' h => by cases h⟩
      constructor
      · refine atEach_append _ _ t2 (atEach_of_forall _ _ fun e he _ _ => hfirst e he) ?_
        rcases htail with htail | ⟨rfl, _⟩
        · intro before e behind ht hbefore
          rw [reports_append] at hbefore
          have hlittle := List.forall_mem_append.mp hbefore
          exact (ih c1 t2 x (hnext hlittle.1) htail).1 before e behind ht hlittle.2
        · exact atEach_nil _
      · intro c' hc hall
        rw [reports_append] at hall
        have hlittle := List.forall_mem_append.mp hall
        rcases htail with htail | ⟨_, hnot⟩
        · exact (ih c1 t2 x (hnext hlittle.1) htail).2 c' hc hlittle.2
        · exact absurd hc (hnot c')

/-- Once the check has given a length up, it reads no more. -/
theorem given_up (h : Health) (buf : Str) (hs : h._state = .contentReadSome)
    (hlong : Health.bufSize < (contentLength buf headerSize).2) :
    (h.learn buf)._state = .undefined ∧
      ∀ (fd : Int) (n : Nat) (t : Trace D) (r : Except Fault (Health × Bool)),
        Runs (Health.drain fd n (h.learn buf) buf) t r → t = [] := by
  have hstate : (h.learn buf)._state = .undefined := by
    simp only [Health.learn, if_pos hs, if_pos hlong]
  exact ⟨hstate, fun fd n t r hr => (Health.drain_lost fd n _ buf t r hstate hr).1⟩

/-- At every point of a session on a new connection, each read of a health check
    stays inside its buffer, as long as no call before it has left more than that
    of a response, and then neither does the record between two calls go below
    zero or beyond the buffer. A length that the check itself reads from a header
    is given up, without a further read, when it is larger. -/
theorem session_drains_inside [DecimalImpl D] (tasks : List (Task D)) (c : Client) (t : Trace D)
    (q : Proc D (Except Fault Client)) (hc : c._health = Health.fresh)
    (hr : Reaches (session tasks c) t q) :
    AtEach (fun before e => (∀ x ∈ reports before, LeavesLittle x) → Ev.DrainsInside e) t ∧
    (∀ c', q = .ret (.ok c') → (∀ x ∈ reports t, LeavesLittle x) → c'._health.Bounded) ∧
    ∀ (h : Health) (buf : Str), h._state = .contentReadSome →
      Health.bufSize < (contentLength buf headerSize).2 →
      (h.learn buf)._state = .undefined ∧
        ∀ (fd : Int) (n : Nat) (u : Trace D) (r : Except Fault (Health × Bool)),
          Runs (Health.drain fd n (h.learn buf) buf) u r → u = [] := by
  have hb : c._health.Bounded := by
    rw [hc]
    exact Health.bounded_idle _ (Or.inl rfl)
  refine ⟨?_, ?_, fun h buf => given_up h buf⟩
  · -- The session is finished with replies that transfer nothing.
    rcases finish c._socket _ q t hr with ⟨t', a, hrun, _⟩
    exact atEach_initial _ t t' (session_bounded tasks c _ a hb hrun).1
  · rintro c' rfl hlittle
    exact (session_bounded tasks c t _ hb ((reaches_ret_iff _ _ _).mp hr)).2 c' rfl hlittle

/-- Two calls on a connection on which a header arrives, and then nothing: the
    length announced is the one given. -/
def announcing (n : Nat) : Trace Unit × Except Fault Client :=
  drive Network.reply ⟨htonl n, [1, 1, 1], -1, 16384, fun _ _ => .error (.std "none")⟩
    (session [⟨1000, .int, text "f", []⟩, ⟨1000, .int, text "f", []⟩] bareClient)

theorem announcing_reaches (n : Nat) :
    Reaches (session [⟨1000, .int, text "f", []⟩, ⟨1000, .int, text "f", []⟩] bareClient)
      (announcing n).1 (.ret (announcing n).2) :=
  (reaches_ret_iff _ _ _).mpr (runs_drive Network.reply _ _)

theorem session_drains_inside_hundred :
    AtEach (fun before e => (∀ x ∈ reports before, LeavesLittle x) → Ev.DrainsInside e)
      (announcing 100).1 :=
  (session_drains_inside _ bareClient _ _ rfl (announcing_reaches 100)).1

/-- A call that leaves five thousand bytes makes the next one ask for them all. -/
theorem session_drains_past :
    ¬ ∀ (t : Trace Unit) (q : Proc Unit (Except Fault Client)),
      Reaches (session [⟨1000, .int, text "f", []⟩, ⟨1000, .int, text "f", []⟩] bareClient) t q →
      ∀ e ∈ t, Ev.DrainsInside e := by
  intro h
  exact absurd (h _ _ (announcing_reaches 5000)) (by decide +kernel)

end Client

end Trpc
