import Trpc.Theory.Rpc.Drain

/-!
# What a Call Returns

A call has three kinds of ending: a value, no value, and an exception. This
module says which responses lead to which, and what `error()` tells about the
calls that return no value.

A response that has been read whole is decoded and looked at without a handler,
so whatever the parser, the lookup of a member or the conversion throws leaves
the call. A call that returns no value has written down why wherever a transfer
failed; where the health check refuses, and where the server reports an error,
nobody writes anything down.

The parser reads a C string from behind the header, so the text of a response
goes on with whatever the buffer held before. `decoded` is that text.

## Main definitions

* `Responded`: The call has read a response, whole.
* `decoded`: What it decodes.
* `Answers`: The responses that make a call return.
* `Refused`, `ReportsError`: The two ways to return nothing and say nothing.

## Theorems

* `writeRequest_errno`, `readResponse_ending`: The parts.
* `call_ending`: A call.
* `call_returns_iff`: When a call returns.
* `call_error_iff`: When `error()` tells why it returned nothing.
-/

namespace Trpc

open Vsjson Interaction

variable {D : Type}

/-- A call that lays out no buffer for a response. -/
def Call.Unbuffered : Call D → Prop
  | .stack size => size ≠ Client.bufSizeOnStack
  | _ => True

theorem Call.unbuffered_plain : Call.Plain (D := D) Call.Unbuffered :=
  ⟨⟨trivial, fun _ _ _ => trivial, fun _ _ _ => trivial, fun _ _ => trivial, fun _ => trivial,
    fun _ => trivial⟩, fun _ => trivial⟩

/-- Of the events there is one that does not have a property: it can be found in
    one place only. -/
theorem split_unique {α : Type} (P : α → Prop) (a b a' b' : List α) (x x' : α)
    (ha : ∀ y ∈ a, P y) (hb : ∀ y ∈ b, P y) (hx' : ¬ P x')
    (heq : a ++ x :: b = a' ++ x' :: b') : a = a' ∧ x = x' ∧ b = b' := by
  -- The one place is not before the other, nor behind it.
  rcases List.append_eq_append_iff.mp heq with ⟨c, hc, hxb⟩ | ⟨c, hc, hxb⟩
  · cases c with
    | nil =>
        cases hxb
        exact ⟨by rw [hc, List.append_nil], rfl, rfl⟩
    | cons y c =>
        rcases List.cons.inj hxb with ⟨_, hb'⟩
        refine absurd (hb x' ?_) hx'
        rw [hb']
        exact List.mem_append_right _ List.mem_cons_self
  · cases c with
    | nil =>
        cases hxb
        exact ⟨by rw [hc, List.append_nil], rfl, rfl⟩
    | cons y c =>
        rcases List.cons.inj hxb with ⟨hy, _⟩
        refine absurd (ha x' ?_) hx'
        rw [hc, hy]
        exact List.mem_append_right _ List.mem_cons_self

namespace Health

/-- What the loop of the check calls. -/
theorem drain_only (P : Call D → Prop) (fd : Int) (hread : ∀ n, P (.sysRead fd n))
    (hreport : ∀ x, P (.report x)) (n : Nat) :
    ∀ (h : Health) (buf : Str), (drain fd n h buf).Only P := by
  -- A round reads once and reports.
  have hstep : ∀ (h : Health) (buf : Str) (boundary : Nat) (next : State),
      (h.stateMachine fd buf boundary next).Only P := by
    intro h buf boundary next
    refine only_mono ?_ _ (stateMachine_only h fd buf boundary next)
    rintro c (rfl | ⟨x, rfl⟩)
    · exact hread boundary
    · exact hreport x
  induction n with
  | zero => exact fun h buf => trivial
  | succ n ih =>
      intro h buf
      unfold drain
      simp only [Prog.bind_def]
      split
      · exact trivial
      · refine only_bind _ _ (hstep h buf _ _) (fun r => ?_)
        rcases r with f | ⟨h', buf'⟩
        · exact trivial
        · exact ih _ _
      · refine only_bind _ _ (hstep h buf _ _) (fun r => ?_)
        rcases r with f | ⟨h', buf'⟩
        · exact trivial
        · exact ih _ _
      · exact ih _ _

/-- What the check calls, with the buffer of its own. -/
theorem check_only (P : Call D → Prop) (h : Health) (fd : Int) (hread : ∀ n, P (.sysRead fd n))
    (hreport : ∀ x, P (.report x)) (hstack : P (.stack bufSize)) : (h.check fd).Only P := by
  unfold check
  split
  · exact trivial
  split
  · exact trivial
  · exact only_bind _ _ (only_perform _ hstack) (fun buf => drain_only P fd hread hreport 5 h _)

end Health

namespace Client

/-! ## Error codes -/

/-- Whatever `errno` was, what is written down is an error. -/
theorem lastErrno_ne_zero (x : Transfer) : x.lastErrno ≠ 0 := by
  unfold Transfer.lastErrno
  split
  · decide
  · rename_i h
    exact h

theorem conclude_errno (c c' : Client) (size : Nat) (x : Transfer)
    (h : (c', false) = c.conclude size x) : c'._errno ≠ 0 := by
  rcases conclude_eq_false c c' size x h with ⟨_, rfl⟩
  exact lastErrno_ne_zero x

theorem close_errno (c c' : Client) (t : Trace D) (hr : Runs c.close t c') :
    c'._errno = c._errno := by
  rcases close_runs c c' c._socket 0 t hr with ⟨_, rfl⟩
  rfl

/-- A request that does not get out leaves an error code. -/
theorem writeRequest_errno (c c' : Client) (d : Dumped) (t : Trace D)
    (hr : Runs (c.writeRequest d) t (c', false)) : c'._errno ≠ 0 := by
  simp only [writeRequest, Prog.bind_def] at hr
  rcases (runs_bind_iff ..).mp hr with ⟨t1, t2, ⟨⟨c1, s1⟩, x⟩, rfl, h1, h2⟩
  have hc1 := (bestEffortWrite_reports c _ _ _ t1 _ h1).2.2.2
  -- The header comes first. Only when it is out the content is tried.
  cases s1 with
  | false =>
      have herr := conclude_errno c c1 _ x hc1
      simp only [Bool.not_false, if_true] at h2
      split at h2
      · rcases (runs_bind_iff ..).mp h2 with ⟨t3, t4, c2, rfl, h3, h4⟩
        rcases (runs_ret_iff ..).mp h4 with ⟨rfl, h5⟩
        cases h5
        rw [close_errno c1 _ t3 h3]
        -- Closing the socket does not touch the error code.
        exact herr
      · rcases (runs_ret_iff ..).mp h2 with ⟨rfl, h3⟩
        cases h3
        exact herr
  | true =>
      simp only [Bool.not_true, Bool.false_eq_true, if_false] at h2
      rcases (runs_bind_iff ..).mp h2 with ⟨t3, t4, ⟨⟨c3, s3⟩, y⟩, rfl, h3, h4⟩
      have hc3 := (bestEffortWrite_reports c1 _ _ _ t3 _ h3).2.2.2
      cases s3 with
      | false =>
          have herr := conclude_errno c1 c3 _ y hc3
          simp only [Bool.not_false, if_true] at h4
          rcases (runs_bind_iff ..).mp h4 with ⟨t5, t6, c5, rfl, h5, h6⟩
          rcases (runs_ret_iff ..).mp h6 with ⟨rfl, h7⟩
          cases h7
          rw [close_errno c3 _ t5 h5]
          exact herr
      | true =>
          simp only [Bool.not_true, Bool.false_eq_true, if_false] at h4
          rcases (runs_ret_iff ..).mp h4 with ⟨_, h5⟩
          cases h5

/-! ## The response -/

/-- What the text of a response decodes to, in a buffer that held `buf`. -/
def decoded [DecimalImpl D] (buf content : Str) : Res (Json D) :=
  parse (content ++ buf.drop (headerSize + content.length))

/-- In `t` a response has come in whole: `content` in its frame, and into `buf`. -/
structure Took (fd : Int) (t : Trace D) (content : Str) : Prop where
  fits : beHeader.Fits content
  size_le : headerSize + content.length ≤ bufSizeOnStack
  received_eq : received fd t = beHeader.frame content
  whole : ∀ x ∈ reports t, x.ret = x.size

/-- How reading a response ends: with nothing and an error code, or with what the
    response decodes to. -/
inductive Ending [DecimalImpl D] (c : Client) (T : Ty) (buf : Str) (t : Trace D) :
    Client → Res (Option (T.denote D)) → Prop
  | nothing (c' : Client) : c'._errno ≠ 0 → (∀ content, ¬ Took c._socket t content) →
      Ending c T buf t c' (.ok none)
  | something (content : Str) : Took c._socket t content →
      Ending c T buf t c ((decoded buf content).bind (makeResult T))

/-- A transfer that failed is not part of a whole response. -/
theorem not_took (fd : Int) (t : Trace D) (x : Report) (hx : x ∈ reports t)
    (hret : x.ret ≠ x.size) :
    ∀ content, ¬ Took fd t content :=
  fun _ h => hret (h.whole x hx)

/-- Behind a header `h` that was read by `t0`. -/
theorem readContent_ending [DecimalImpl D] (c c' : Client) (T : Ty) (h buf : Str)
    (hh : h.length = headerSize) (hbuf : buf.length = bufSizeOnStack) (t0 t : Trace D)
    (hgot0 : received c._socket t0 = h) (hrep0 : ∀ x ∈ reports t0, x.ret = x.size)
    (r : Res (Option (T.denote D)))
    (hr : Runs (c.readContent T (h ++ buf.drop headerSize)) t (c', r)) :
    Ending c T buf (t0 ++ t) c' r := by
  have hsize : headerSize = 4 := rfl
  have hrest : headerSize + (buf.drop headerSize).length = bufSizeOnStack := by
    rw [List.length_drop, hbuf]
    decide
  simp only [readContent, contentLength_append h _ hh, Prog.bind_def] at hr
  split at hr
  · -- The length is refused: `ENOMEM`, and the socket is closed.
    rename_i hlong
    rcases (runs_bind_iff ..).mp hr with ⟨t1, t2, c1, rfl, h1, h2⟩
    have herr := close_errno _ c1 t1 h1
    rcases close_runs _ c1 c._socket bufSizeOnStack t1 h1 with ⟨hm, _⟩
    rcases (runs_ret_iff ..).mp h2 with ⟨rfl, h3⟩
    cases h3
    have hnomem : Errno.ENOMEM ≠ 0 := by decide
    refine Ending.nothing c' (by rw [herr]; exact hnomem) (fun content htook => ?_)
    -- All that was read is a header, and it announces more than a frame may.
    have hframe := htook.received_eq
    rw [List.append_nil, received_append, hgot0, hm.received, List.append_nil] at hframe
    have hlen := congrArg List.length hframe
    rw [hh, beHeader.length_frame] at hlen
    have hwidth : beHeader.width = headerSize := rfl
    have hzero : content.length = 0 := by omega
    have hnil := List.eq_nil_of_length_eq_zero hzero
    subst hnil
    rw [hframe] at hlong
    exact absurd hlong (by decide)
  · rename_i hlong
    rcases (runs_bind_iff ..).mp hr with ⟨t1, t2, ⟨⟨c1, s1⟩, x⟩, rfl, h1, h2⟩
    rcases bestEffortRead_reports c _ _ _ t1 _ h1 with ⟨hm, he, hc⟩
    simp only at hm he hc h2
    have hx := he.length_le
    have hstore : store (h ++ buf.drop headerSize) headerSize x.moved
        = some (h ++ (x.moved ++ (buf.drop headerSize).drop x.moved.length)) := by
      rw [← hh]
      exact store_behind h _ x.moved (by rw [hh]; omega)
    rw [hstore] at h2
    simp only [verify_append h _ hh, Bool.not_true, Bool.false_eq_true, if_false] at h2
    cases s1 with
    | false =>
        rcases conclude_eq_false c c1 _ x hc with ⟨hret, rfl⟩
        rcases (runs_ret_iff ..).mp h2 with ⟨rfl, h3⟩
        cases h3
        refine Ending.nothing _ (lastErrno_ne_zero x) (not_took _ _
          ⟨.readContent, ntohl h, x.moved.length, x.ret⟩ ?_ hret)
        rw [List.append_nil, reports_append, hm.reports]
        exact List.mem_append_right _ (List.mem_singleton_self _)
    | true =>
        rcases conclude_eq_true c c1 _ x hc with ⟨hret, rfl⟩
        rcases (runs_ret_iff ..).mp h2 with ⟨rfl, h3⟩
        cases h3
        -- A transfer that succeeds has moved all it was asked for.
        have hfull := Ended.full _ x he hret
        -- The parser starts behind the header and goes on beyond the content.
        have hdrop : (h ++ (x.moved ++ (buf.drop headerSize).drop x.moved.length)).drop headerSize
            = x.moved ++ buf.drop (headerSize + x.moved.length) := by
          rw [List.drop_drop, ← hh, List.drop_left]
        rw [List.append_nil, decode, hdrop]
        refine Ending.something x.moved ⟨?_, by omega, ?_, ?_⟩
        · rw [Framing.Header.Fits, hfull]
          exact ntohl_lt h hh
        · rw [received_append, hgot0, hm.received, beHeader.frame_of_decode h x.moved hh hfull]
        · intro y hy
          rw [reports_append, hm.reports] at hy
          rcases List.mem_append.mp hy with hy | hy
          · exact hrep0 y hy
          · rw [List.mem_singleton.mp hy]
            exact hret

/-- A response, from the array that is laid out for it. -/
theorem readResponse_ending [DecimalImpl D] (c c' : Client) (T : Ty)
    (r : Res (Option (T.denote D))) (t : Trace D) (hr : Runs (c.readResponse T) t (c', r)) :
    ∃ buf t', t = ⟨Call.stack bufSizeOnStack, buf⟩ :: t' ∧ Ending c T buf.1 t' c' r ∧
      ∀ e ∈ t', Call.Unbuffered e.1 := by
  simp only [readResponse, Prog.bind_def, runs_stack_bind] at hr
  rcases hr with ⟨⟨buf, hbuf⟩, t0, rfl, hr⟩
  refine ⟨⟨buf, hbuf⟩, t0, rfl, ?_, ?_⟩
  · rcases (runs_bind_iff ..).mp hr with ⟨t1, t2, ⟨⟨c1, s1⟩, x⟩, rfl, h1, h2⟩
    rcases bestEffortRead_reports c _ _ _ t1 _ h1 with ⟨hm, he, hc⟩
    simp only at hm he hc h2
    have hx := he.length_le
    have hsize : headerSize ≤ bufSizeOnStack := by decide
    have hstore : store buf 0 x.moved = some (x.moved ++ buf.drop x.moved.length) := by
      simpa only [Nat.zero_add, List.take_zero, List.nil_append] using
        store_eq buf x.moved 0 (by omega)
    rw [hstore] at h2
    cases s1 with
    | false =>
        rcases conclude_eq_false c c1 _ x hc with ⟨hret, rfl⟩
        rcases (runs_ret_iff ..).mp h2 with ⟨rfl, h3⟩
        cases h3
        -- Without a header nothing was taken, and an error code stands in the client.
        refine Ending.nothing _ (lastErrno_ne_zero x) (not_took _ _
          ⟨.readHeader, headerSize, x.moved.length, x.ret⟩ ?_ hret)
        rw [List.append_nil, hm.reports]
        exact List.mem_singleton_self _
    | true =>
        rcases conclude_eq_true c c1 _ x hc with ⟨hret, rfl⟩
        have hfull := Ended.full _ x he hret
        rw [hfull] at h2
        refine readContent_ending c1 c' T x.moved buf hfull hbuf t1 t2 hm.received ?_ r h2
        rw [hm.reports]
        intro y hy
        rw [List.mem_singleton.mp hy]
        exact hret
  · -- No second array is laid out, so there is no other response.
    refine runs_only _ t0 _ ?_ hr
    refine only_bind _ _ (bestEffortRead_only Call.unbuffered_plain.toTransfers c _ _ _)
      (fun x => ?_)
    split
    · exact trivial
    split
    · exact trivial
    · exact readContent_only Call.unbuffered_plain _ T _

/-! ## The call -/

/-- In `t` the call has read a response, whole: `content`, into an array that held
    `buf`. -/
def Responded (fd : Int) (t : Trace D) (buf content : Str) : Prop :=
  ∃ before behind b, t = before ++ ⟨Call.stack bufSizeOnStack, b⟩ :: behind ∧ b.1 = buf ∧
    Took fd behind content

/-- The health check has refused the connection: there is no socket, or what an
    earlier call has left could not be read away. -/
def Refused (c : Client) (t : Trace D) : Prop :=
  ∃ h, Runs (c._health.check c._socket) t (.ok (h, false))

/-- Without an array there is no response. -/
theorem not_responded (fd : Int) (t : Trace D) (h : ∀ e ∈ t, Call.Unbuffered e.1) :
    ∀ buf content, ¬ Responded fd t buf content := by
  rintro buf content ⟨before, behind, b, rfl, _, _⟩
  exact h _ (List.mem_append_right _ List.mem_cons_self) rfl

/-- With one array there is one response. -/
theorem responded_unique (fd : Int) (t u : Trace D) (b : { bs : Str // bs.length = bufSizeOnStack })
    (ht : ∀ e ∈ t, Call.Unbuffered e.1) (hu : ∀ e ∈ u, Call.Unbuffered e.1) (buf content : Str)
    (h : Responded fd (t ++ ⟨Call.stack bufSizeOnStack, b⟩ :: u) buf content) :
    b.1 = buf ∧ Took fd u content := by
  rcases h with ⟨before, behind, b', heq, hbuf, htook⟩
  have hnot : ¬ Call.Unbuffered (Call.stack bufSizeOnStack : Call D) := fun h => h rfl
  rcases split_unique (fun e : Ev D => Call.Unbuffered e.1) t u before behind _ _ ht hu hnot heq
    with ⟨_, he, rfl⟩
  cases he
  exact ⟨hbuf, htook⟩

theorem took_unique (fd : Int) (t : Trace D) (x y : Str) (hx : Took fd t x) (hy : Took fd t y) :
    x = y := by
  refine (beHeader.frame_prefix x y [] [] hx.fits hy.fits ?_).1
  rw [← hx.received_eq, ← hy.received_eq]

/-- How a call ends. -/
inductive Returned [DecimalImpl D] (c : Client) (T : Ty) (t : Trace D) :
    Client → Res (Option (T.denote D)) → Prop
  | refused (c' : Client) : Refused c t → c'._errno = c._errno →
      (∀ buf content, ¬ Responded c._socket t buf content) → Returned c T t c' (.ok none)
  | faulted (c' : Client) (f : Fault) : ¬ Refused c t →
      (∀ buf content, ¬ Responded c._socket t buf content) → Returned c T t c' (.fault f)
  | nothing (c' : Client) : ¬ Refused c t → c'._errno ≠ 0 →
      (∀ buf content, ¬ Responded c._socket t buf content) → Returned c T t c' (.ok none)
  | something (c' : Client) (buf content : Str) : ¬ Refused c t → c'._errno = c._errno →
      (∀ buf' content', Responded c._socket t buf' content' ↔ buf' = buf ∧ content' = content) →
      Returned c T t c' ((decoded buf content).bind (makeResult T))

/-- How a call ends, part by part: the check, the request, the response. -/
theorem call_ending [DecimalImpl D] (c c' : Client) (T : Ty) (function : Str)
    (arguments : List (Json D)) (t : Trace D) (r : Res (Option (T.denote D)))
    (hr : Runs (c.call T function arguments) t (c', r)) : Returned c T t c' r := by
  simp only [call, Prog.bind_def] at hr
  rcases (runs_bind_iff ..).mp hr with ⟨t1, t2, x, rfl, h1, h2⟩
  have hsmall : Health.bufSize ≠ bufSizeOnStack := by decide
  have hcheck : ∀ e ∈ t1, Call.Unbuffered e.1 := runs_only _ t1 _
    (Health.check_only _ _ _ (fun _ => trivial) (fun _ => trivial) hsmall) h1
  -- The check has run once, so it has not come out in another way as well.
  have honce : Refused c (t1 ++ t2) → ∃ h, x = .ok (h, false) := by
    rintro ⟨h, hrun⟩
    exact ⟨h, (runs_unique _ t1 _ t2 [] x _ h1 hrun (List.append_nil _).symm).2⟩
  rcases x with f | ⟨h, healthy⟩
  · have hno : ¬ Refused c (t1 ++ t2) := fun href => by
      rcases honce href with ⟨h, heq⟩
      cases heq
    rcases (runs_ret_iff ..).mp h2 with ⟨rfl, h3⟩
    cases h3
    rw [List.append_nil] at hno ⊢
    exact Returned.faulted c f hno (not_responded _ _ hcheck)
  cases healthy with
  | false =>
      rcases (runs_ret_iff ..).mp h2 with ⟨rfl, h3⟩
      cases h3
      rw [List.append_nil]
      exact Returned.refused _ ⟨h, h1⟩ rfl (not_responded _ _ hcheck)
  | true =>
      have hno : ¬ Refused c (t1 ++ t2) := fun href => by
        rcases honce href with ⟨h, heq⟩
        cases heq
      simp only [Bool.not_true, Bool.false_eq_true, if_false, makeRequest_eq] at h2
      rcases (runs_bind_iff ..).mp h2 with ⟨t3, t4, ⟨c1, ok⟩, rfl, h3, h4⟩
      have hwrite : ∀ e ∈ t3, Call.Unbuffered e.1 :=
        runs_only _ t3 _ (writeRequest_only Call.unbuffered_plain _ _) h3
      have hbefore : ∀ e ∈ t1 ++ t3, Call.Unbuffered e.1 :=
        List.forall_mem_append.mpr ⟨hcheck, hwrite⟩
      cases ok with
      | false =>
          have herr := writeRequest_errno _ c1 _ t3 h3
          rcases (runs_ret_iff ..).mp h4 with ⟨rfl, h5⟩
          cases h5
          rw [List.append_nil] at hno ⊢
          exact Returned.nothing _ hno herr (not_responded _ _ hbefore)
      | true =>
          -- The request went out, so neither the socket nor the error code has changed.
          have hsame : c1._socket = c._socket ∧ c1._errno = c._errno := by
            rcases writeRequest_runs _ c1 _ true t3 rfl h3 with ⟨put, reps, _, hw⟩
            cases hw
            exact ⟨rfl, rfl⟩
          rcases readResponse_ending c1 c' T r t4 h4 with ⟨b, t5, rfl, hend, hafter⟩
          rw [← List.append_assoc] at hno ⊢
          cases hend with
          | nothing _ herr hnone =>
              refine Returned.nothing c' hno herr (fun buf content hresp => ?_)
              rw [hsame.1] at hnone
              exact hnone content (responded_unique _ _ t5 b hbefore hafter buf content hresp).2
          | something content htook =>
              rw [hsame.1] at htook
              refine Returned.something _ b.1 content hno hsame.2 (fun buf' content' => ?_)
              constructor
              · intro hresp
                rcases responded_unique _ _ t5 b hbefore hafter buf' content' hresp with
                  ⟨hbuf, htook'⟩
                exact ⟨hbuf.symm, took_unique _ t5 content' content htook' htook⟩
              · rintro ⟨rfl, rfl⟩
                exact ⟨_, t5, b, rfl, rfl, htook⟩

/-! ## What the response says -/

/-- The error member of a response, if it has one. -/
def errorMember : Res (Json D) → Option (Json D)
  | .ok (.object members) => SortedMap.lookup Field.error members
  | _ => none

/-- The responses that make a call return: objects whose error member is an object
    or, where there is no error member, whose result converts to `T`. A result that
    is not there counts as an empty object. -/
def Answers [DecimalImpl D] (T : Ty) : Res (Json D) → Prop
  | .ok (.object members) =>
    match SortedMap.lookup Field.error members with
    | some e => ∃ m, e = .object m
    | none =>
      (Json.implicitly T ((SortedMap.lookup Field.result members).getD (.object []))).isSome = true
  | _ => False

/-- The responses that report an error, in an object. -/
def ReportsError (x : Res (Json D)) : Prop := ∃ m, errorMember x = some (.object m)

theorem contains_of_not_object (j : Json D) (index : Str) (h : ∀ m, j ≠ .object m) :
    j.contains index = .throw Json.cannotCast := by
  cases j with
  | object m => exact absurd rfl (h m)
  | _ => rfl

/-- What is made of a response with an error member. -/
theorem makeResult_error [DecimalImpl D] (T : Ty) (members : List (Str × Json D)) (e : Json D)
    (h : SortedMap.lookup Field.error members = some e) :
    makeResult T (.object members) = (e.contains Field.message).bind fun _ => .ok none := by
  simp only [makeResult, Json.contains, Json.subscript, Json.getObject, Res.bind_def, Res.ok_bind,
    Res.pure_def, h, Option.isSome_some, if_true]

/-- What is made of one without. -/
theorem makeResult_result [DecimalImpl D] (T : Ty) (members : List (Str × Json D))
    (h : SortedMap.lookup Field.error members = none) :
    makeResult T (.object members)
      = (Json.convert T ((SortedMap.lookup Field.result members).getD (.object []))).bind
          fun v => .ok (some v) := by
  simp only [makeResult, Json.contains, Json.subscript, Json.getObject, Res.bind_def, Res.ok_bind,
    Res.pure_def, h, Option.isSome_none, Bool.false_eq_true, if_false]
  cases SortedMap.lookup Field.result members <;> rfl

theorem makeResult_of_not_object [DecimalImpl D] (T : Ty) (j : Json D) (h : ∀ m, j ≠ .object m) :
    makeResult T j = .throw Json.cannotCast := by
  rw [makeResult, contains_of_not_object j _ h]
  rfl

theorem throw_not_ok {α : Type} (e : Exn) : ¬ ∃ v : α, (Res.throw e : Res α) = .ok v := by
  rintro ⟨v, hv⟩
  cases hv

theorem fault_not_ok {α : Type} (f : Fault) : ¬ ∃ v : α, (Res.fault f : Res α) = .ok v := by
  rintro ⟨v, hv⟩
  cases hv

/-- Decoding and looking up return exactly on the responses of `Answers`, and return
    nothing exactly on those that report an error. -/
theorem makeResult_iff [DecimalImpl D] (T : Ty) (x : Res (Json D)) :
    ((∃ v, x.bind (makeResult T) = .ok v) ↔ Answers T x) ∧
      (x.bind (makeResult T) = .ok none ↔ ReportsError x) := by
  have hnone : ∀ (y : Res (Option (T.denote D))), (¬ ∃ v, y = .ok v) → y ≠ .ok none :=
    fun y hy h => hy ⟨none, h⟩
  rcases x with j | e | f
  · by_cases hobj : ∃ m, j = .object m
    · rcases hobj with ⟨members, rfl⟩
      cases herr : SortedMap.lookup Field.error members with
      | some e =>
          simp only [Res.ok_bind, Answers, ReportsError, errorMember, herr,
            makeResult_error T members e herr]
          -- An error that is no object makes the look at its members throw.
          by_cases hobj : ∃ m, e = .object m
          · rcases hobj with ⟨m, rfl⟩
            exact ⟨iff_of_true ⟨none, rfl⟩ ⟨m, rfl⟩, iff_of_true rfl ⟨m, rfl⟩⟩
          · have hno : ¬ ∃ m, some e = some (Json.object m) := by
              rintro ⟨m, hm⟩
              exact hobj ⟨m, Option.some.inj hm⟩
            rw [contains_of_not_object e _ (fun m hm => hobj ⟨m, hm⟩)]
            exact ⟨iff_of_false (throw_not_ok _) hobj,
              iff_of_false (hnone _ (throw_not_ok _)) hno⟩
      | none =>
          have hno : ¬ ∃ m, (none : Option (Json D)) = some (.object m) := by
            rintro ⟨m, hm⟩
            cases hm
          simp only [Res.ok_bind, Answers, ReportsError, errorMember, herr,
            makeResult_result T members herr, Json.convert]
          -- Where there is no result, `operator[]` makes an empty object of it.
          cases Json.implicitly T ((SortedMap.lookup Field.result members).getD (.object [])) with
          | some v =>
              exact ⟨iff_of_true ⟨some v, rfl⟩ rfl, iff_of_false (fun h => (by cases h)) hno⟩
          | none =>
              exact ⟨iff_of_false (throw_not_ok _) (fun h => (by cases h)),
                iff_of_false (hnone _ (throw_not_ok _)) hno⟩
    · -- What is not an object has no members to look at.
      have hno : ¬ Answers T (.ok j) ∧ ¬ ReportsError (.ok j) := by
        cases j with
        | object m => exact absurd ⟨m, rfl⟩ hobj
        | _ =>
            refine ⟨id, ?_⟩
            rintro ⟨m, hm⟩
            cases hm
      rw [Res.ok_bind, makeResult_of_not_object T j (fun m hm => hobj ⟨m, hm⟩)]
      exact ⟨iff_of_false (throw_not_ok _) hno.1, iff_of_false (hnone _ (throw_not_ok _)) hno.2⟩
  · have hno : ¬ ReportsError (.throw e : Res (Json D)) := by
      rintro ⟨m, hm⟩
      cases hm
    exact ⟨iff_of_false (throw_not_ok e) id, iff_of_false (hnone _ (throw_not_ok e)) hno⟩
  · have hno : ¬ ReportsError (.fault f : Res (Json D)) := by
      rintro ⟨m, hm⟩
      cases hm
    exact ⟨iff_of_false (fault_not_ok f) id, iff_of_false (hnone _ (fault_not_ok f)) hno⟩

/-- An error member that does not make the call throw is an object. -/
theorem reportsError_of_answers [DecimalImpl D] (T : Ty) (x : Res (Json D)) (h : Answers T x)
    (herr : (errorMember x).isSome = true) : ReportsError x := by
  rcases x with (_ | members | _ | _ | _ | _ | _) | e | f
  case ok.object =>
    rcases Option.isSome_iff_exists.mp herr with ⟨e, he⟩
    have hlookup : SortedMap.lookup Field.error members = some e := he
    -- With an error member a call returns only if that is an object.
    simp only [Answers, hlookup] at h
    rcases h with ⟨m, rfl⟩
    exact ⟨m, he⟩
  all_goals cases herr

/-- A call that has read a response returns exactly if the response is of the kind
    `Answers` says, and then returns nothing for every response with an error member. -/
theorem call_returns_iff [DecimalImpl D] (c c' : Client) (T : Ty) (function : Str)
    (arguments : List (Json D)) (t : Trace D) (r : Res (Option (T.denote D))) (buf content : Str)
    (hr : Runs (c.call T function arguments) t (c', r))
    (hresp : Responded c._socket t buf content) :
    ((∃ v, r = .ok v) ∧
      ((errorMember (decoded (D := D) buf content)).isSome = true → r = .ok none)) ↔
      Answers T (decoded (D := D) buf content) := by
  have hcall := call_ending c c' T function arguments t r hr
  -- In the other endings no response was read.
  cases hcall with
  | refused _ _ hno => exact absurd hresp (hno buf content)
  | faulted f _ hno => exact absurd hresp (hno buf content)
  | nothing _ _ hno => exact absurd hresp (hno buf content)
  | something buf' content' _ _ hiff =>
      rcases (hiff buf content).mp hresp with ⟨rfl, rfl⟩
      rw [(makeResult_iff T _).1, (makeResult_iff T _).2]
      exact ⟨fun h => h.1, fun h => ⟨h, reportsError_of_answers T _ h⟩⟩

/-- A call of `f()` on a new client, in a given network. -/
def calling (net : Network) (socket : Int) : Trace Unit × (Client × Res (Option Int32)) :=
  drive Network.reply net (({ bareClient with _socket := socket } : Client).call .int (text "f") [])

theorem calling_runs (net : Network) (socket : Int) :
    Runs (({ bareClient with _socket := socket } : Client).call .int (text "f") [])
      (calling net socket).1 ((calling net socket).2.1, (calling net socket).2.2) :=
  runs_drive Network.reply _ _

/-- A call that is answered `content`. The array is laid out behind the ten events of
    writing the request. -/
def answered (content : Str) : Trace Unit × (Client × Res (Option Int32)) :=
  calling (Network.carrying (beHeader.frame content)) 3

/-- An array that held zeros. -/
def zeros : Str := List.replicate bufSizeOnStack 0

/-- In such a call the response has been read, when the trace shows the array there. -/
theorem answered_responded (content : Str) (hten : (answered content).1
      = (answered content).1.take 10
        ++ ⟨Call.stack bufSizeOnStack, ⟨zeros, List.length_replicate⟩⟩ ::
        (answered content).1.drop 11)
    (htook : Took 3 ((answered content).1.drop 11) content) :
    Responded 3 (answered content).1 zeros content :=
  ⟨_, _, _, hten, rfl, htook⟩

theorem seven_responded : Responded 3 (answered (text "\x7b\"result\":7\x7d")).1 zeros
    (text "\x7b\"result\":7\x7d") :=
  answered_responded _ (by rfl) ⟨(by decide : (text "\x7b\"result\":7\x7d").length < 4294967296),
    by decide, by decide +kernel, by decide +kernel⟩

theorem nope_responded : Responded 3 (answered (text "x")).1 zeros (text "x") :=
  answered_responded _ (by rfl) ⟨(by decide : (text "x").length < 4294967296), by decide,
    by decide +kernel, by decide +kernel⟩

theorem call_returns_seven :
    ((∃ v, (answered (text "\x7b\"result\":7\x7d")).2.2 = .ok v) ∧
        ((errorMember (decoded (D := Unit) zeros (text "\x7b\"result\":7\x7d"))).isSome = true →
          (answered (text "\x7b\"result\":7\x7d")).2.2 = .ok none)) ↔
      Answers .int (decoded (D := Unit) zeros (text "\x7b\"result\":7\x7d")) :=
  call_returns_iff _ _ .int (text "f") [] _ _ _ _ (calling_runs _ 3) seven_responded

/-- A response of one letter, which is no JSON. It decodes to null, and looking for
    the error member of null throws. -/
theorem call_throws :
    ¬ ∀ (c' : Client) (t : Trace Unit) (r : Res (Option (Ty.denote Unit .int))) (buf content : Str),
      Runs (bareClient.call .int (text "f") []) t (c', r) → Responded 3 t buf content →
      ∃ v, r = .ok v := by
  intro h
  rcases h _ _ _ _ _ (calling_runs _ 3) nope_responded with ⟨v, hv⟩
  have hthrow : (answered (text "x")).2.2 = .throw (.std "cannot cast") := by decide +kernel
  cases hthrow.symm.trans hv

/-- In a client without an error code, a call that returns nothing leaves one exactly
    if it is neither refused by the health check nor answered with an error. -/
theorem call_error_iff [DecimalImpl D] (c c' : Client) (T : Ty) (function : Str)
    (arguments : List (Json D)) (t : Trace D) (r : Res (Option (T.denote D)))
    (hclear : c._errno = 0) (hr : Runs (c.call T function arguments) t (c', r)) :
    (r = .ok none → c'.error.1 ≠ 0) ↔
      ¬ Refused c t ∧
        ∀ buf content, Responded c._socket t buf content →
          ¬ ReportsError (decoded (D := D) buf content) := by
  have hcall := call_ending c c' T function arguments t r hr
  -- The health check writes nothing down, and the code was zero before.
  cases hcall with
  | refused href herr hno =>
      rw [hclear] at herr
      exact ⟨fun h => absurd herr (h rfl), fun h => absurd href h.1⟩
  | faulted f href hno =>
      exact ⟨fun _ => ⟨href, fun buf content h => absurd h (hno buf content)⟩,
        fun _ h => (by cases h)⟩
  | nothing href herr hno =>
      exact ⟨fun _ => ⟨href, fun buf content h => absurd h (hno buf content)⟩, fun _ _ => herr⟩
  | something buf content href herr hiff =>
      have herr : c'.error.1 = 0 := herr.trans hclear
      rw [(makeResult_iff T _).2]
      constructor
      · intro h
        refine ⟨href, fun buf' content' hresp hreports => ?_⟩
        rcases (hiff buf' content').mp hresp with ⟨rfl, rfl⟩
        exact h hreports herr
      · rintro ⟨_, h⟩ hreports
        exact absurd hreports (h buf content ((hiff buf content).mpr ⟨rfl, rfl⟩))

/-- A network on which no descriptor gets ready. -/
def deaf : Network := ⟨[], [], 0, 16384, fun _ _ => .error (.std "none")⟩

theorem call_error_deaf :
    ((calling deaf 3).2.2 = .ok none → (calling deaf 3).2.1.error.1 ≠ 0) ↔
      ¬ Refused bareClient (calling deaf 3).1 ∧
        ∀ buf content, Responded 3 (calling deaf 3).1 buf content →
          ¬ ReportsError (decoded (D := Unit) buf content) :=
  call_error_iff bareClient _ .int (text "f") [] _ _ rfl (calling_runs deaf 3)

/-- A client that has no socket yet. -/
theorem call_error_silent :
    ¬ ∀ (c c' : Client) (t : Trace Unit) (r : Res (Option (Ty.denote Unit .int))),
      c._errno = 0 → Runs (c.call .int (text "f") []) t (c', r) → r = .ok none →
      c'.error.1 ≠ 0 := by
  intro h
  -- The check refuses at once: there is no socket to read from.
  have hnone : (calling deaf socketInvalid).2.2 = .ok none := by decide +kernel
  exact h _ _ _ _ rfl (calling_runs deaf socketInvalid) hnone (by decide +kernel)

end Client

end Trpc
