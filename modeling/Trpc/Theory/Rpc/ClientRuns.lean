import Trpc.Core.Client
import Trpc.Theory.Rpc.Transfer

/-!
# What a Call Does

The runs of `Client::call`, part by part, in terms of the two streams. Each part
has one theorem that says what a run of it has read, written and reported, and
an inductive relation that lists how it can have come out; the rest of the
development argues from these and does not look at the program again.

## Main definitions

* `Wrote`: The outcomes of writing a request.
* `ReadBack`: The outcomes of reading a response.
* `Called`: The outcomes of a call.

## Theorems

* `writeRequest_runs`, `readResponse_runs`, `check_moves`: The parts.
* `call_runs`: A call.
-/

namespace Trpc

open Vsjson Interaction

variable {D : Type}

namespace Client

/-! ## Transfers -/

/-- A read, with its report. -/
theorem bestEffortRead_reports (c : Client) (phase : Phase) (base size : Nat) (t : Trace D)
    (r : (Client × Bool) × Transfer) (hr : Runs (c.bestEffortRead phase base size) t r) :
    Moves c._socket (base + size) t r.2.moved [] [⟨phase, size, r.2.moved.length, r.2.ret⟩] ∧
      Ended size r.2 ∧ r.1 = c.conclude size r.2 := by
  simp only [bestEffortRead, Prog.bind_def] at hr
  rcases (runs_bind_iff ..).mp hr with ⟨t1, t2, x, rfl, h1, h2⟩
  rcases (runs_report_bind ..).mp h2 with ⟨u, t3, rfl, h3⟩
  rcases (runs_ret_iff ..).mp h3 with ⟨rfl, rfl⟩
  rcases bestEffortRead_runs _ _ _ _ _ t1 x h1 with ⟨hm, he⟩
  exact ⟨moves_append_report hm _ u, he, rfl⟩

/-- A write, with its report. -/
theorem bestEffortWrite_reports (c : Client) (phase : Phase) (data : Str) (size : Nat)
    (t : Trace D) (r : (Client × Bool) × Transfer)
    (hr : Runs (c.bestEffortWrite phase data size) t r) :
    Moves c._socket 0 t [] r.2.moved [⟨phase, size, r.2.moved.length, r.2.ret⟩] ∧
      Ended size r.2 ∧ r.2.moved = data.take r.2.moved.length ∧ r.1 = c.conclude size r.2 := by
  simp only [bestEffortWrite, Prog.bind_def] at hr
  rcases (runs_bind_iff ..).mp hr with ⟨t1, t2, x, rfl, h1, h2⟩
  rcases (runs_report_bind ..).mp h2 with ⟨u, t3, rfl, h3⟩
  rcases (runs_ret_iff ..).mp h3 with ⟨rfl, rfl⟩
  rcases bestEffortWrite_runs _ _ _ _ _ t1 x h1 with ⟨hm, he, hdata⟩
  exact ⟨moves_append_report hm _ u, he, hdata, rfl⟩

theorem close_runs (c c' : Client) (fd : Int) (limit : Nat) (t : Trace D)
    (hr : Runs c.close t c') :
    Moves fd limit t [] [] [] ∧ c' = { c with _socket := socketInvalid } := by
  unfold close at hr
  split at hr
  · simp only [Prog.bind_def, runs_sysClose_bind] at hr
    rcases hr with ⟨r, t', rfl, h⟩
    rcases (runs_ret_iff ..).mp h with ⟨rfl, rfl⟩
    exact ⟨moves_idle fd limit _ trivial, rfl⟩
  · rename_i hs
    rcases (runs_ret_iff ..).mp hr with ⟨rfl, rfl⟩
    refine ⟨moves_nil fd limit, ?_⟩
    rw [← not_not.mp hs]

/-! ## The request -/

/-- How writing a request can have come out: what was put on the wire, what was
    reported, the client as it is left, and whether the call goes on. -/
inductive Wrote (c : Client) (d : Dumped) : Str → List Report → Client → Bool → Prop
  /-- The frame is out. -/
  | whole (reps : List Report) : (∀ r ∈ reps, r.ret = r.size) → Wrote c d d.frame reps c true
  /-- Some of it is out, and the client is closed. -/
  | closed (put : Str) (reps : List Report) (e : Errno) : (∃ r ∈ reps, r.ret ≠ r.size) →
      Wrote c d put reps { c with _socket := socketInvalid, _errno := e } false
  /-- The header did not get out, and nothing was returned for it. -/
  | unsent (x : Transfer) (e : Errno) : x.ret ≤ 0 → Ended headerSize x →
      Wrote c d x.moved [⟨.writeHeader, headerSize, x.moved.length, x.ret⟩]
        { c with _errno := e } false

theorem conclude_eq_true (c c' : Client) (size : Nat) (x : Transfer)
    (h : (c', true) = c.conclude size x) : x.ret = size ∧ c' = c := by
  unfold conclude at h
  split at h
  · rename_i hret
    cases h
    exact ⟨hret, rfl⟩
  · cases h

theorem conclude_eq_false (c c' : Client) (size : Nat) (x : Transfer)
    (h : (c', false) = c.conclude size x) :
    x.ret ≠ size ∧ c' = { c with _errno := x.lastErrno } := by
  unfold conclude at h
  split at h
  · cases h
  · rename_i hret
    cases h
    exact ⟨hret, rfl⟩

theorem writeRequest_runs (c c' : Client) (d : Dumped) (ok : Bool) (t : Trace D)
    (hbe : d.beLength.length = headerSize) (hr : Runs (c.writeRequest d) t (c', ok)) :
    ∃ put reps, Moves c._socket 0 t [] put reps ∧ Wrote c d put reps c' ok := by
  simp only [writeRequest, Prog.bind_def, runs_bind_iff] at hr
  rcases hr with ⟨t1, t2, ⟨⟨c1, s1⟩, x⟩, rfl, h1, h2⟩
  rcases bestEffortWrite_reports c _ _ _ t1 _ h1 with ⟨hm1, he1, hdata1, hc1⟩
  simp only at hm1 he1 hdata1 hc1 h2
  cases s1 with
  | false =>
      rcases conclude_eq_false c c1 _ x hc1 with ⟨hret, rfl⟩
      simp only [Bool.not_false, if_true] at h2
      -- A header that is out in part closes the socket, one of which nothing is out does not.
      split at h2
      · rcases (runs_bind_iff ..).mp h2 with ⟨t3, t4, c2, rfl, h3, h4⟩
        rcases close_runs _ c2 c._socket 0 t3 h3 with ⟨hm3, rfl⟩
        rcases (runs_ret_iff ..).mp h4 with ⟨rfl, h5⟩
        cases h5
        have h := moves_append hm1 hm3
        simp only [List.append_nil] at h ⊢
        exact ⟨_, _, h, Wrote.closed _ _ _ ⟨_, List.mem_singleton_self _, hret⟩⟩
      · rename_i hpos
        rcases (runs_ret_iff ..).mp h2 with ⟨rfl, h5⟩
        cases h5
        rw [List.append_nil]
        exact ⟨_, _, hm1, Wrote.unsent x _ (not_lt.mp hpos) he1⟩
  | true =>
      rcases conclude_eq_true c c1 _ x hc1 with ⟨hret, rfl⟩
      simp only [Bool.not_true, Bool.false_eq_true, if_false] at h2
      rcases (runs_bind_iff ..).mp h2 with ⟨t3, t4, ⟨⟨c3, s3⟩, y⟩, rfl, h3, h4⟩
      rcases bestEffortWrite_reports c1 _ _ _ t3 _ h3 with ⟨hm3, he3, hdata3, hc3⟩
      simp only at hm3 he3 hdata3 hc3 h4
      have h := moves_append hm1 hm3
      cases s3 with
      | false =>
          rcases conclude_eq_false c1 c3 _ y hc3 with ⟨hret3, rfl⟩
          simp only [Bool.not_false, if_true] at h4
          rcases (runs_bind_iff ..).mp h4 with ⟨t5, t6, c5, rfl, h5, h6⟩
          -- Any shortfall of the content closes it.
          rcases close_runs _ c5 c1._socket 0 t5 h5 with ⟨hm5, rfl⟩
          rcases (runs_ret_iff ..).mp h6 with ⟨rfl, h7⟩
          cases h7
          have h' := moves_append h hm5
          rw [List.append_nil, ← List.append_assoc]
          refine ⟨_, _, h', Wrote.closed _ _ _
            ⟨⟨.writeContent, d.length, y.moved.length, y.ret⟩, ?_, hret3⟩⟩
          simp only [List.append_nil, List.singleton_append, List.mem_cons, true_or, or_true]
      | true =>
          rcases conclude_eq_true c1 c3 _ y hc3 with ⟨hret3, rfl⟩
          simp only [Bool.not_true, Bool.false_eq_true, if_false] at h4
          rcases (runs_ret_iff ..).mp h4 with ⟨rfl, h7⟩
          cases h7
          -- Both transfers are whole, so the frame is on the wire.
          have hx : x.moved = d.beLength := by
            rw [hdata1, Ended.full _ x he1 hret, ← hbe, List.take_length]
          have hy : y.moved = d.content := by
            rw [hdata3, Ended.full _ y he3 hret3, Dumped.content]
          rw [hx, hy] at h
          rw [List.append_nil]
          refine ⟨_, _, h, Wrote.whole _ ?_⟩
          simp only [List.singleton_append, List.forall_mem_cons, List.not_mem_nil,
            false_implies, implies_true, and_true, hret, hret3]

/-! ## The response -/

/-- How reading a response can have come out: what was read, what was reported,
    the client as it is left, and what the call returns. -/
inductive ReadBack [DecimalImpl D] (c : Client) (T : Ty) :
    Str → List Report → Client → Res (Option (T.denote D)) → Prop
  /-- The header was not read. -/
  | noHeader (x : Transfer) (e : Errno) : x.ret ≠ headerSize → Ended headerSize x →
      ReadBack c T x.moved [⟨.readHeader, headerSize, x.moved.length, x.ret⟩]
        { c with _errno := e, _health := Health.set (max 0 x.ret) .headerReadSome 0 } (.ok none)
  /-- The header announces more than the buffer holds. -/
  | tooLong (h : Str) (reps : List Report) : h.length = headerSize →
      bufSizeOnStack < headerSize + ntohl h →
      ReadBack c T h reps { c with _errno := Errno.ENOMEM, _socket := socketInvalid } (.ok none)
  /-- The content was not read. -/
  | noContent (h : Str) (x : Transfer) (e : Errno) : h.length = headerSize →
      headerSize + ntohl h ≤ bufSizeOnStack → x.ret ≠ ntohl h → Ended (ntohl h) x →
      ReadBack c T (h ++ x.moved)
        [⟨.readHeader, headerSize, headerSize, headerSize⟩,
          ⟨.readContent, ntohl h, x.moved.length, x.ret⟩]
        { c with _errno := e, _health := Health.set (max 0 x.ret) .contentReadSome (ntohl h) }
        (.ok none)
  /-- The frame was read and is decoded, with `rest` behind it in the buffer. -/
  | whole (content rest : Str) (reps : List Report) : beHeader.Fits content →
      headerSize + (content.length + rest.length) = bufSizeOnStack →
      ReadBack c T (beHeader.frame content) reps c
        ((parse (content ++ rest)).bind (makeResult T))

theorem readContent_runs [DecimalImpl D] (c c' : Client) (T : Ty) (h rest : Str)
    (hh : h.length = headerSize) (hbuf : headerSize + rest.length = bufSizeOnStack)
    (r : Res (Option (T.denote D))) (t : Trace D)
    (hr : Runs (c.readContent T (h ++ rest)) t (c', r)) :
    ∃ got reps, Moves c._socket bufSizeOnStack t got [] reps ∧
      ReadBack c T (h ++ got) (⟨.readHeader, headerSize, headerSize, headerSize⟩ :: reps) c' r := by
  simp only [readContent, contentLength_append h rest hh, Prog.bind_def] at hr
  split at hr
  · rename_i hlong
    rcases (runs_bind_iff ..).mp hr with ⟨t1, t2, c1, rfl, h1, h2⟩
    rcases close_runs _ c1 c._socket bufSizeOnStack t1 h1 with ⟨hm, rfl⟩
    rcases (runs_ret_iff ..).mp h2 with ⟨rfl, h3⟩
    cases h3
    rw [List.append_nil]
    refine ⟨[], [], hm, ?_⟩
    rw [List.append_nil]
    exact ReadBack.tooLong h _ hh hlong
  · rename_i hlong
    rcases (runs_bind_iff ..).mp hr with ⟨t1, t2, ⟨⟨c1, s1⟩, x⟩, rfl, h1, h2⟩
    rcases bestEffortRead_reports c _ _ _ t1 _ h1 with ⟨hm, he, hc⟩
    simp only at hm he hc h2
    have hm := moves_mono (not_lt.mp hlong) hm
    have hx := he.length_le
    -- The content lands behind the header, which stays.
    have hstore : store (h ++ rest) headerSize x.moved
        = some (h ++ (x.moved ++ rest.drop x.moved.length)) := by
      rw [← hh]
      exact store_behind h rest x.moved (by omega)
    rw [hstore] at h2
    simp only [verify_append h _ hh, Bool.not_true, Bool.false_eq_true, if_false] at h2
    cases s1 with
    | false =>
        rcases conclude_eq_false c c1 _ x hc with ⟨hret, rfl⟩
        rcases (runs_ret_iff ..).mp h2 with ⟨rfl, h3⟩
        cases h3
        rw [List.append_nil]
        exact ⟨_, _, hm, ReadBack.noContent h x _ hh (not_lt.mp hlong) hret he⟩
    | true =>
        rcases conclude_eq_true c c1 _ x hc with ⟨hret, rfl⟩
        rcases (runs_ret_iff ..).mp h2 with ⟨rfl, h3⟩
        cases h3
        have hfull := Ended.full _ x he hret
        -- What was in the buffer before follows the content.
        have hdrop : (h ++ (x.moved ++ rest.drop x.moved.length)).drop headerSize
            = x.moved ++ rest.drop x.moved.length := by rw [← hh, List.drop_left]
        rw [List.append_nil]
        refine ⟨_, _, hm, ?_⟩
        rw [beHeader.frame_of_decode h x.moved hh hfull, decode, hdrop]
        refine ReadBack.whole x.moved _ _ ?_ ?_
        · rw [Framing.Header.Fits, hfull]
          exact ntohl_lt h hh
        · rw [List.length_drop]
          omega

theorem readResponse_runs [DecimalImpl D] (c c' : Client) (T : Ty)
    (r : Res (Option (T.denote D))) (t : Trace D) (hr : Runs (c.readResponse T) t (c', r)) :
    ∃ got reps, Moves c._socket bufSizeOnStack t got [] reps ∧ ReadBack c T got reps c' r := by
  simp only [readResponse, Prog.bind_def, runs_stack_bind] at hr
  rcases hr with ⟨⟨buf, hbuf⟩, t0, rfl, hr⟩
  rcases (runs_bind_iff ..).mp hr with ⟨t1, t2, ⟨⟨c1, s1⟩, x⟩, rfl, h1, h2⟩
  rcases bestEffortRead_reports c _ _ _ t1 _ h1 with ⟨hm, he, hc⟩
  simp only at hm he hc h2
  have hm := moves_mono (show 0 + headerSize ≤ bufSizeOnStack by decide) hm
  have hx := he.length_le
  have hsize : headerSize ≤ bufSizeOnStack := by decide
  have hstore : store buf 0 x.moved = some (x.moved ++ buf.drop x.moved.length) := by
    simpa only [Nat.zero_add, List.take_zero, List.nil_append] using
      store_eq buf x.moved 0 (by omega)
  rw [hstore] at h2
  simp only at h2
  cases s1 with
  | false =>
      rcases conclude_eq_false c c1 _ x hc with ⟨hret, rfl⟩
      rcases (runs_ret_iff ..).mp h2 with ⟨rfl, h3⟩
      cases h3
      rw [List.append_nil]
      exact ⟨_, _, moves_cons_idle hm _ trivial, ReadBack.noHeader x _ hret he⟩
  | true =>
      rcases conclude_eq_true c c1 _ x hc with ⟨hret, rfl⟩
      have hfull := Ended.full _ x he hret
      rcases readContent_runs c1 c' T x.moved _ hfull
        (by rw [List.length_drop, hfull]; omega) r t2 h2 with ⟨got, reps, hm2, hback⟩
      have h := moves_append hm hm2
      rw [hret, hfull] at h
      exact ⟨_, _, moves_cons_idle h _ trivial, hback⟩

end Client

/-! ## The health check -/

namespace Health

/-- How one read of the health check can have come out: what was read, what was
    reported, and the state and buffer as they are left. -/
inductive Stepped (h : Health) (buf : Str) (boundary : Nat) (nextState : State) (phase : Phase) :
    Str → List Report → Except Fault (Health × Str) → Prop
  | failed : Stepped h buf boundary nextState phase [] [⟨phase, boundary, 0, -1⟩]
      (.ok ({ h with _state := .undefined }, buf))
  | overflow (bs : Str) : buf.length < bs.length →
      Stepped h buf boundary nextState phase bs [⟨phase, boundary, bs.length, bs.length⟩]
        (.error .overflow)
  | finished : Stepped h buf boundary nextState phase [] [⟨phase, boundary, 0, 0⟩]
      (.ok ({ h with _state := .undefined }, buf))
  | short (bs : Str) : 0 < bs.length → bs.length < boundary →
      Stepped h buf boundary nextState phase bs [⟨phase, boundary, bs.length, bs.length⟩]
        (.ok ({ h with _some := h._some + bs.length }, bs ++ buf.drop bs.length))
  | whole (bs : Str) : 0 < bs.length → bs.length = boundary →
      Stepped h buf boundary nextState phase bs [⟨phase, boundary, bs.length, bs.length⟩]
        (.ok ({ h with _some := 0, _state := nextState }, bs ++ buf.drop bs.length))

theorem moves_sysRead (fd : Int) (limit boundary : Nat)
    (r : Option { bs : Str // bs.length ≤ boundary }) :
    Moves fd limit [(⟨Call.sysRead fd boundary, r⟩ : Ev D)]
      ((r.map Subtype.val).getD []) [] [] := by
  refine ⟨?_, ?_, ?_, (readsInside_singleton limit _).mpr trivial, ?_⟩
  · rw [received_singleton]
    cases r with
    | none => rfl
    | some bs => exact if_pos rfl
  · cases r <;> rfl
  · cases r <;> rfl
  · cases r <;> exact ⟨rfl, rfl, rfl, rfl⟩

theorem stateMachine_runs (h : Health) (fd : Int) (buf : Str) (boundary : Nat)
    (nextState : State) (r : Except Fault (Health × Str)) (t : Trace D)
    (hr : Runs (h.stateMachine fd buf boundary nextState) t r) :
    ∃ got reps, Moves fd 0 t got [] reps ∧ Stepped h buf boundary nextState
      (if nextState = .contentReadSome then .drainHeader else .drainContent) got reps r := by
  simp only [stateMachine, Prog.bind_def, runs_sysRead_bind] at hr
  rcases hr with ⟨ret, t1, rfl, hr⟩
  have hread := moves_sysRead (D := D) fd 0 boundary ret
  cases ret with
  | none =>
      rcases (runs_report_bind ..).mp hr with ⟨u, t2, rfl, hend⟩
      rcases (runs_ret_iff ..).mp hend with ⟨rfl, rfl⟩
      exact ⟨_, _, moves_append_report hread _ u, Stepped.failed⟩
  | some bs =>
      rcases bs with ⟨bs, hbs⟩
      rcases (runs_report_bind ..).mp hr with ⟨u, t2, rfl, hend⟩
      have hm := moves_append_report hread ⟨if nextState = .contentReadSome then .drainHeader
        else .drainContent, boundary, bs.length, bs.length⟩ u
      -- A boundary larger than the buffer lets `read` write past its end.
      by_cases hfit : bs.length ≤ buf.length
      · have hstore : store buf 0 bs = some (bs ++ buf.drop bs.length) := by
          simpa only [Nat.zero_add, List.take_zero, List.nil_append] using
            store_eq buf bs 0 (by omega)
        simp only [hstore] at hend
        split at hend
        · rename_i hzero
          rcases (runs_ret_iff ..).mp hend with ⟨rfl, rfl⟩
          have hnil := List.eq_nil_of_length_eq_zero hzero
          subst hnil
          exact ⟨_, _, hm, Stepped.finished⟩
        split at hend
        · rename_i hzero hlt
          rcases (runs_ret_iff ..).mp hend with ⟨rfl, rfl⟩
          exact ⟨_, _, hm, Stepped.short bs (Nat.pos_of_ne_zero hzero) hlt⟩
        · rename_i hzero hlt
          rcases (runs_ret_iff ..).mp hend with ⟨rfl, rfl⟩
          exact ⟨_, _, hm, Stepped.whole bs (Nat.pos_of_ne_zero hzero) (by omega)⟩
      · simp only [store_eq_none buf bs 0 (by omega)] at hend
        rcases (runs_ret_iff ..).mp hend with ⟨rfl, rfl⟩
        exact ⟨_, _, hm, Stepped.overflow bs (by omega)⟩

/-- A round of the loop reads, if what follows it does. -/
theorem round_moves {β : Type} (h : Health) (fd : Int) (buf : Str) (boundary : Nat) (next : State)
    (f : Except Fault (Health × Str) → Proc D β)
    (hf : ∀ x u r, Runs (f x) u r → ∃ got reps, Moves fd 0 u got [] reps)
    (t : Trace D) (r : β) (hr : Runs ((h.stateMachine fd buf boundary next).bind f) t r) :
    ∃ got reps, Moves fd 0 t got [] reps := by
  rcases (runs_bind_iff ..).mp hr with ⟨t1, t2, x, rfl, h1, h2⟩
  rcases stateMachine_runs h fd buf boundary next x t1 h1 with ⟨got, reps, hm, _⟩
  rcases hf x t2 r h2 with ⟨got', reps', hm'⟩
  exact ⟨_, _, moves_append hm hm'⟩

/-- The loop of `check` reads, and does nothing else. -/
theorem drain_moves (fd : Int) (n : Nat) :
    ∀ (h : Health) (buf : Str) (t : Trace D) (r : Except Fault (Health × Bool)),
      Runs (drain fd n h buf) t r → ∃ got reps, Moves fd 0 t got [] reps := by
  have hret : ∀ (x : Except Fault (Health × Bool)) (t : Trace D) (r : Except Fault (Health × Bool)),
      Runs (.ret x) t r → ∃ got reps, Moves fd 0 t got [] reps := by
    intro x t r hr
    rcases (runs_ret_iff ..).mp hr with ⟨rfl, _⟩
    exact ⟨[], [], moves_nil fd 0⟩
  induction n with
  | zero =>
      intro h buf t r hr
      exact hret _ t r hr
  | succ n ih =>
      intro h buf t r hr
      simp only [drain] at hr
      cases hs : h._state with
      | noRead =>
          rw [hs] at hr
          exact hret _ t r hr
      | headerReadSome =>
          rw [hs] at hr
          refine round_moves h fd buf _ _ _ (fun x u r hr => ?_) t r hr
          cases x with
          | error f => exact hret _ u r hr
          | ok x => exact ih _ _ u r hr
      | contentReadSome =>
          rw [hs] at hr
          refine round_moves h fd buf _ _ _ (fun x u r hr => ?_) t r hr
          cases x with
          | error f => exact hret _ u r hr
          | ok x => exact ih _ _ u r hr
      | undefined =>
          rw [hs] at hr
          -- Here the loop only goes round.
          exact ih h buf t r hr

/-- The health check reads, and does nothing else. -/
theorem check_moves (h : Health) (fd : Int) (t : Trace D) (r : Except Fault (Health × Bool))
    (hr : Runs (h.check fd) t r) : ∃ got reps, Moves fd 0 t got [] reps := by
  unfold check at hr
  split at hr
  · rcases (runs_ret_iff ..).mp hr with ⟨rfl, _⟩
    exact ⟨[], [], moves_nil fd 0⟩
  split at hr
  · rcases (runs_ret_iff ..).mp hr with ⟨rfl, _⟩
    exact ⟨[], [], moves_nil fd 0⟩
  · simp only [Prog.bind_def, runs_stack_bind] at hr
    rcases hr with ⟨buf, t1, rfl, hr⟩
    rcases drain_moves fd 5 h buf.1 t1 r hr with ⟨got, reps, hm⟩
    exact ⟨got, reps, moves_cons_idle hm _ trivial⟩

end Health

/-! ## The call -/

namespace Client

/-- The parts a call is made of. Either it ends with the health check, or it
    writes its request and ends there, or it goes on to read a response. -/
inductive Called [DecimalImpl D] (c : Client) (T : Ty) (d : Dumped) :
    Trace D → Client → Res (Option (T.denote D)) → Prop
  | unhealthy (t : Trace D) (h : Health) : Runs (c._health.check c._socket) t (.ok (h, false)) →
      Called c T d t { c with _health := h } (.ok none)
  | faulted (t : Trace D) (f : Fault) : Runs (c._health.check c._socket) t (.error f) →
      Called c T d t c (.fault f)
  | unwritten (t1 t2 : Trace D) (h : Health) (put : Str) (reps : List Report) (c' : Client) :
      Runs (c._health.check c._socket) t1 (.ok (h, true)) →
      Moves c._socket 0 t2 [] put reps →
      Wrote { c with _health := h, _token := c._token + 1 } d put reps c' false →
      Called c T d (t1 ++ t2) c' (.ok none)
  | answered (t1 t2 t3 : Trace D) (h : Health) (reps : List Report) (got : Str)
      (reps' : List Report) (c' : Client) (r : Res (Option (T.denote D))) :
      Runs (c._health.check c._socket) t1 (.ok (h, true)) →
      Moves c._socket 0 t2 [] d.frame reps →
      (∀ r ∈ reps, r.ret = r.size) →
      Moves c._socket bufSizeOnStack t3 got [] reps' →
      ReadBack { c with _health := h, _token := c._token + 1 } T got reps' c' r →
      Called c T d (t1 ++ (t2 ++ t3)) c' r

/-- The request of a call. -/
def request [DecimalImpl D] (c : Client) (function : Str) (arguments : List (Json D)) : Dumped :=
  Codec.dump (requestOf (c._token + 1) function arguments)

theorem call_runs [DecimalImpl D] (c c' : Client) (T : Ty) (function : Str)
    (arguments : List (Json D)) (t : Trace D) (r : Res (Option (T.denote D)))
    (hr : Runs (c.call T function arguments) t (c', r)) :
    Called c T (c.request function arguments) t c' r := by
  simp only [call, Prog.bind_def] at hr
  rcases (runs_bind_iff ..).mp hr with ⟨t1, t2, x, rfl, h1, h2⟩
  rcases x with f | ⟨h, healthy⟩
  · rcases (runs_ret_iff ..).mp h2 with ⟨rfl, h3⟩
    cases h3
    rw [List.append_nil]
    exact Called.faulted t1 f h1
  cases healthy with
  | false =>
      rcases (runs_ret_iff ..).mp h2 with ⟨rfl, h3⟩
      cases h3
      rw [List.append_nil]
      exact Called.unhealthy t1 h h1
  | true =>
      simp only [Bool.not_true, Bool.false_eq_true, if_false, makeRequest_eq] at h2
      rcases (runs_bind_iff ..).mp h2 with ⟨t3, t4, ⟨c1, ok⟩, rfl, h3, h4⟩
      -- The check has passed, so the request is written.
      rcases writeRequest_runs _ c1 _ ok t3 rfl h3 with ⟨put, reps, hm, hw⟩
      cases ok with
      | false =>
          rcases (runs_ret_iff ..).mp h4 with ⟨rfl, h5⟩
          cases h5
          rw [List.append_nil]
          exact Called.unwritten t1 t3 h put reps c1 h1 hm hw
      | true =>
          cases hw with
          | whole reps hreps =>
              rcases readResponse_runs _ c' T r t4 h4 with ⟨got, reps', hm', hback⟩
              exact Called.answered t1 t3 t4 h reps got reps' c' r h1 hm hreps hm' hback

/-- The first call of a session, and the rest if there is one. -/
theorem session_cons_cases [DecimalImpl D] (task : Task D) (tasks : List (Task D)) (c : Client)
    (t : Trace D) (x : Except Fault Client) (hr : Runs (session (task :: tasks) c) t x) :
    ∃ t1 t2 c1 r, t = t1 ++ t2 ∧
      Called (c.setTimeout task.timeout) task.T (c.request task.function task.arguments) t1 c1 r ∧
      ((∃ f, x = .error f ∧ t2 = []) ∨
        (∀ f, r ≠ .fault f) ∧ Runs (session tasks c1) t2 x) := by
  simp only [session, Prog.bind_def] at hr
  rcases (runs_bind_iff ..).mp hr with ⟨t1, t2, ⟨c1, r⟩, rfl, h1, h2⟩
  refine ⟨t1, t2, c1, r, rfl, call_runs _ c1 _ _ _ t1 r h1, ?_⟩
  change Res (Option (task.T.denote D)) at r
  cases r with
  | ok v => exact Or.inr ⟨fun f h => (by cases h), h2⟩
  | throw e => exact Or.inr ⟨fun f h => (by cases h), h2⟩
  | fault f =>
      rcases (runs_ret_iff ..).mp h2 with ⟨rfl, rfl⟩
      exact Or.inl ⟨f, rfl, rfl⟩

theorem session_cons_runs [DecimalImpl D] (task : Task D) (tasks : List (Task D)) (c c' : Client)
    (t : Trace D) (hr : Runs (session (task :: tasks) c) t (.ok c')) :
    ∃ t1 t2 c1 r, t = t1 ++ t2 ∧
      Called (c.setTimeout task.timeout) task.T (c.request task.function task.arguments) t1 c1 r ∧
      (∀ f, r ≠ .fault f) ∧ Runs (session tasks c1) t2 (.ok c') := by
  rcases session_cons_cases task tasks c t (.ok c') hr with
    ⟨t1, t2, c1, r, ht, hcall, ⟨f, hf, _⟩ | hrest⟩
  · cases hf
  · exact ⟨t1, t2, c1, r, ht, hcall, hrest⟩

/-- A call and the calls behind it make a session. -/
theorem session_of_runs [DecimalImpl D] (task : Task D) (tasks : List (Task D)) (c c1 : Client)
    (t u : Trace D) (r : Res (Option (task.T.denote D))) (x : Except Fault Client)
    (hcall : Runs (c.perform task) t (c1, r)) (hfault : ∀ f, r ≠ .fault f)
    (hrest : Runs (session tasks c1) u x) : Runs (session (task :: tasks) c) (t ++ u) x := by
  simp only [session, Prog.bind_def]
  refine (runs_bind_iff ..).mpr ⟨t, u, (c1, r), rfl, hcall, ?_⟩
  cases r with
  | fault f => exact absurd rfl (hfault f)
  | _ => exact hrest

end Client

end Trpc
