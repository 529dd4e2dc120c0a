import Trpc.Core.Server
import Trpc.Theory.Rpc.Transfer

/-!
# What a Turn Does

The runs of one turn of `Server::onAccept`, part by part, in terms of the two
streams and of the calls made in between. As on the client's side, each part has
a relation that lists its outcomes and a theorem that every run is among them.

## Main definitions

* `Received`: The outcomes of reading a frame.
* `Replied`: The outcomes of writing a response.
* `AskedRequest`, `AskedResponse`, `NetCalled`, `Answered`: The calls in between.

## Theorems

* `receive_runs`, `reply_runs`, `netCall_runs`, `answer_runs`: The parts.
* `turn_runs`: A turn.
-/

namespace Trpc

open Vsjson Interaction

variable {D : Type}

namespace Server

/-! ## Transfers -/

/-- The verdict on a transfer moves nothing. It is whether the size was returned. -/
theorem conclude_runs (peer : Int) (limit size : Nat) (x : Transfer) (t : Trace D) (ok : Bool)
    (hr : Runs (conclude size x) t ok) :
    Moves peer limit t [] [] [] ∧ (ok = true ↔ x.ret = size) := by
  unfold conclude at hr
  split at hr
  · rename_i hret
    rcases (runs_ret_iff ..).mp hr with ⟨rfl, rfl⟩
    exact ⟨moves_nil peer limit, ⟨fun _ => hret, fun _ => rfl⟩⟩
  · rename_i hret
    rcases (runs_setErrno_bind ..).mp hr with ⟨u, t1, rfl, hend⟩
    rcases (runs_ret_iff ..).mp hend with ⟨rfl, rfl⟩
    exact ⟨moves_idle peer limit _ trivial,
      ⟨fun h => absurd h Bool.false_ne_true, fun h => absurd h hret⟩⟩

/-- The wait for a first byte moves nothing. -/
theorem bestEffortPending_runs (s : Server) (peer : Int) (t : Trace D) (ok : Bool)
    (hr : Runs (s.bestEffortPending peer) t ok) : Moves peer 0 t [] [] [] := by
  simp only [bestEffortPending, Prog.bind_def] at hr
  rcases (runs_bind_iff ..).mp hr with ⟨t1, t2, x, rfl, h1, h2⟩
  -- The attempt of the wait is no call at all, so nothing is ever moved.
  let I : Trace D → Nat → Str → Prop := fun t _ m => Moves peer 0 t [] [] [] ∧ m = []
  have hidle : KeptIdle I := fun t e off m ⟨ht, hm⟩ he => ⟨moves_append_idle ht e he, hm⟩
  have hfail : KeptFailing firstByte 1 I := by
    intro t u off m errno _ _ hu
    exact absurd ((runs_ret_iff ..).mp hu).2 (by simp)
  have hmove : KeptMoving firstByte 1 I := by
    rintro t u off m n bytes errno ⟨ht, rfl⟩ hoff hu
    rcases (runs_ret_iff ..).mp hu with ⟨rfl, h⟩
    cases h
    exact ⟨by omega, fun _ => rfl, by rwa [List.append_nil], rfl⟩
  rcases bestEffortTemplate_runs _ _ hidle hfail hmove ⟨moves_nil peer 0, rfl⟩ t1 x h1 with
    ⟨off, ⟨hm, _⟩, _⟩
  exact moves_append hm (conclude_runs peer 0 1 x t2 ok h2).1

/-- A read, with its report. -/
theorem bestEffortRead_reports (s : Server) (peer : Int) (phase : Phase) (base size : Nat)
    (t : Trace D) (ok : Bool) (got : Str)
    (hr : Runs (s.bestEffortRead peer phase base size) t (ok, got)) :
    ∃ ret, Moves peer (base + size) t got [] [⟨phase, size, got.length, ret⟩] ∧
      got.length ≤ size ∧ (ok = true → ret = size ∧ got.length = size) ∧
      (ok = false → ret ≠ size) := by
  simp only [bestEffortRead, Prog.bind_def] at hr
  rcases (runs_bind_iff ..).mp hr with ⟨t1, t2, x, rfl, h1, h2⟩
  rcases (runs_report_bind ..).mp h2 with ⟨u, t3, rfl, h3⟩
  rcases (runs_bind_iff ..).mp h3 with ⟨t4, t5, ok', rfl, h4, h5⟩
  rcases (runs_ret_iff ..).mp h5 with ⟨rfl, h⟩
  cases h
  rcases Trpc.bestEffortRead_runs _ _ _ _ _ t1 x h1 with ⟨hm, he⟩
  rcases conclude_runs peer (base + size) size x t4 ok h4 with ⟨hm4, hok⟩
  refine ⟨x.ret, ?_, he.length_le, fun h => ?_, fun h hret => ?_⟩
  · rw [List.append_nil, List.append_cons]
    have hall := moves_append (moves_append_report hm ⟨phase, size, x.moved.length, x.ret⟩ u) hm4
    simpa only [List.append_nil, List.nil_append] using hall
  · have hret := hok.mp h
    refine ⟨hret, ?_⟩
    rcases he.ret with ⟨hr, _⟩ | hr <;> omega
  · rw [hok.mpr hret] at h
    exact absurd h (by decide)

/-- A write, with its report. -/
theorem bestEffortWrite_reports (s : Server) (peer : Int) (phase : Phase) (data : Str)
    (size : Nat) (t : Trace D) (ok : Bool)
    (hr : Runs (s.bestEffortWrite peer phase data size) t ok) :
    ∃ put ret, Moves peer 0 t [] put [⟨phase, size, put.length, ret⟩] ∧
      put = data.take put.length ∧ put.length ≤ size ∧
      (ok = true → ret = size ∧ put.length = size) ∧ (ok = false → ret ≠ size) := by
  simp only [bestEffortWrite, Prog.bind_def] at hr
  rcases (runs_bind_iff ..).mp hr with ⟨t1, t2, x, rfl, h1, h2⟩
  rcases (runs_report_bind ..).mp h2 with ⟨u, t3, rfl, h3⟩
  rcases Trpc.bestEffortWrite_runs _ _ _ _ _ t1 x h1 with ⟨hm, he, hdata⟩
  rcases conclude_runs peer 0 size x t3 ok h3 with ⟨hm3, hok⟩
  refine ⟨x.moved, x.ret, ?_, hdata, he.length_le, fun h => ?_, fun h hret => ?_⟩
  · rw [List.append_cons]
    have hall := moves_append (moves_append_report hm ⟨phase, size, x.moved.length, x.ret⟩ u) hm3
    simpa only [List.append_nil, List.nil_append] using hall
  · have hret := hok.mp h
    refine ⟨hret, ?_⟩
    rcases he.ret with ⟨hr, _⟩ | hr <;> omega
  · rw [hok.mpr hret] at h
    exact absurd h (by decide)

/-! ## The frame -/

/-- How reading a frame into `buf` can have come out: what was read, how far
    into the buffer, what was reported, and what comes of it. -/
inductive Received (buf : Str) : Str → Nat → List Report → Except Exit (Str × Nat) → Prop
  /-- No first byte came. -/
  | idle : Received buf [] 0 [] (.error .broke)
  /-- The header was not read. -/
  | noHeader (got : Str) (ret : Int) : got.length ≤ headerSize → ret ≠ headerSize →
      Received buf got headerSize [⟨.readHeader, headerSize, got.length, ret⟩] (.error .broke)
  /-- The content was not read. -/
  | noContent (h got : Str) (ret : Int) : h.length = headerSize → got.length ≤ ntohl h →
      ret ≠ ntohl h →
      Received buf (h ++ got) (headerSize + ntohl h)
        [⟨.readHeader, headerSize, headerSize, headerSize⟩,
          ⟨.readContent, ntohl h, got.length, ret⟩] (.error .broke)
  /-- More content was read than the buffer holds. -/
  | overflow (h got : Str) (ret : Int) : h.length = headerSize → got.length ≤ ntohl h →
      buf.length < headerSize + got.length →
      Received buf (h ++ got) (headerSize + ntohl h)
        [⟨.readHeader, headerSize, headerSize, headerSize⟩,
          ⟨.readContent, ntohl h, got.length, ret⟩] (.error (.fault .overflow))
  /-- The frame is in the buffer, and behind it what was there before. -/
  | whole (content : Str) : beHeader.Fits content → headerSize + content.length ≤ buf.length →
      Received buf (beHeader.frame content) (headerSize + content.length)
        [⟨.readHeader, headerSize, headerSize, headerSize⟩,
          ⟨.readContent, content.length, content.length, content.length⟩]
        (.ok (beHeader.frame content ++ buf.drop (headerSize + content.length),
          headerSize + content.length))

/-- Reading the content behind a header that was read. -/
theorem receiveContent_runs (s : Server) (peer : Int) (buf h : Str)
    (hh : h.length = headerSize) (hbuf : headerSize ≤ buf.length) (t : Trace D)
    (r : Except Exit (Str × Nat))
    (hr : Runs (s.receiveContent peer (h ++ buf.drop headerSize)) t r) :
    ∃ got limit reps, Moves peer limit t got [] reps ∧ headerSize ≤ limit ∧
      Received buf (h ++ got) limit
        (⟨.readHeader, headerSize, headerSize, headerSize⟩ :: reps) r := by
  simp only [receiveContent, Prog.bind_def, contentLength_append h _ hh, Bool.not_true,
    Bool.false_eq_true, if_false] at hr
  rcases (runs_bind_iff ..).mp hr with ⟨t1, t2, ⟨ok, got⟩, rfl, h1, h2⟩
  rcases bestEffortRead_reports s peer _ _ _ t1 ok got h1 with ⟨ret, hm, hle, hok, hnot⟩
  -- The server does not compare the announced length with its buffer.
  by_cases hfit : got.length ≤ (buf.drop headerSize).length
  swap
  · have hnone : store (h ++ buf.drop headerSize) headerSize got = none :=
      store_eq_none _ _ _ (by rw [List.length_append]; omega)
    simp only [hnone] at h2
    rcases (runs_ret_iff ..).mp h2 with ⟨rfl, rfl⟩
    rw [List.append_nil]
    rw [List.length_drop] at hfit
    exact ⟨got, _, _, hm, Nat.le_add_right _ _, Received.overflow h got ret hh hle (by omega)⟩
  have hstore : store (h ++ buf.drop headerSize) headerSize got
      = some (h ++ (got ++ buf.drop (headerSize + got.length))) := by
    rw [← List.drop_drop, ← hh]
    exact store_behind h _ got (by rw [hh]; exact hfit)
  simp only [hstore] at h2
  cases ok with
  | false =>
      rcases (runs_ret_iff ..).mp h2 with ⟨rfl, rfl⟩
      rw [List.append_nil]
      exact ⟨got, _, _, hm, Nat.le_add_right _ _, Received.noContent h got ret hh hle (hnot rfl)⟩
  | true =>
      rcases hok rfl with ⟨hret, hgot⟩
      simp only [Bool.not_true, Bool.false_eq_true, if_false, verify_append h _ hh] at h2
      rcases (runs_ret_iff ..).mp h2 with ⟨rfl, rfl⟩
      -- What a header can announce fits a header.
      have hfits : beHeader.Fits got := by
        rw [Framing.Header.Fits, hgot]
        exact ntohl_lt h hh
      rw [List.length_drop] at hfit
      have hwhole : Received buf _ _ _ _ := Received.whole got hfits (by omega)
      rw [List.append_nil]
      rw [hret, ← hgot] at hm
      refine ⟨got, _, _, hm, Nat.le_add_right _ _, ?_⟩
      rw [← List.append_assoc, beHeader.frame_of_decode h got hh hgot, ← hgot]
      exact hwhole

/-- Reading a frame: the wait, the header, and the content. -/
theorem receive_runs (s : Server) (peer : Int) (buf : Str) (hbuf : headerSize ≤ buf.length)
    (t : Trace D) (r : Except Exit (Str × Nat)) (hr : Runs (s.receive peer buf) t r) :
    ∃ got limit reps, Moves peer limit t got [] reps ∧ Received buf got limit reps r := by
  simp only [receive, Prog.bind_def] at hr
  rcases (runs_bind_iff ..).mp hr with ⟨t1, t2, pending, rfl, h1, h2⟩
  have hm1 := bestEffortPending_runs s peer t1 pending h1
  cases pending with
  | false =>
      rcases (runs_ret_iff ..).mp h2 with ⟨rfl, rfl⟩
      rw [List.append_nil]
      exact ⟨[], 0, [], hm1, Received.idle⟩
  | true =>
      simp only [Bool.not_true, Bool.false_eq_true, if_false] at h2
      rcases (runs_bind_iff ..).mp h2 with ⟨t3, t4, ⟨ok, h⟩, rfl, h3, h4⟩
      rcases bestEffortRead_reports s peer _ _ _ t3 ok h h3 with ⟨ret, hm3, hle, hok, hnot⟩
      -- The wait moves nothing, and the header is read inside its own size.
      have hm := moves_append (moves_mono (Nat.zero_le headerSize) hm1)
        (moves_mono (show 0 + headerSize ≤ headerSize by omega) hm3)
      simp only [List.nil_append] at hm
      have hstore : store buf 0 h = some (h ++ buf.drop h.length) := by
        simpa only [Nat.zero_add, List.take_zero, List.nil_append] using
          store_eq buf h 0 (by omega)
      simp only [hstore] at h4
      cases ok with
      | false =>
          rcases (runs_ret_iff ..).mp h4 with ⟨rfl, rfl⟩
          rw [List.append_nil]
          exact ⟨_, _, _, hm, Received.noHeader h ret hle (hnot rfl)⟩
      | true =>
          rcases hok rfl with ⟨hret, hh⟩
          simp only [Bool.not_true, Bool.false_eq_true, if_false, hh] at h4
          rcases receiveContent_runs s peer buf h hh hbuf t4 r h4 with
            ⟨got, limit, reps, hm4, hlimit, hrec⟩
          have hall := moves_append (moves_mono hlimit hm) hm4
          rw [hret, hh, List.append_nil, List.append_assoc] at hall
          exact ⟨_, _, _, hall, hrec⟩

/-! ## The response -/

/-- What the request callback was asked and answered. -/
inductive AskedRequest (s : Server) (j : Json D) : Trace D → Bool → Json D → Prop
  | unset : s._requestCallback = false → AskedRequest s j [] true j
  | set (b : Bool) (j' : Json D) : s._requestCallback = true →
      AskedRequest s j [⟨Call.requestCallback j, (b, j')⟩] b j'

/-- The same for the response callback. -/
inductive AskedResponse (s : Server) (j : Json D) : Trace D → Bool → Json D → Prop
  | unset : s._responseCallback = false → AskedResponse s j [] true j
  | set (b : Bool) (j' : Json D) : s._responseCallback = true →
      AskedResponse s j [⟨Call.responseCallback j, (b, j')⟩] b j'

/-- The request callback is asked if there is one. -/
theorem onRequest_runs (s : Server) (j j' : Json D) (t : Trace D) (b : Bool)
    (hr : Runs (s.onRequest j) t (b, j')) : AskedRequest s j t b j' := by
  unfold onRequest at hr
  cases hs : s._requestCallback with
  | true =>
      rw [hs, if_pos rfl] at hr
      rcases (runs_perform_iff (R := Reply D) (Call.requestCallback j) t (b, j')).mp hr with rfl
      exact AskedRequest.set b j' hs
  | false =>
      rw [hs, if_neg Bool.false_ne_true] at hr
      rcases (runs_ret_iff ..).mp hr with ⟨rfl, h⟩
      cases h
      exact AskedRequest.unset hs

/-- So is the response callback. -/
theorem onResponse_runs (s : Server) (j j' : Json D) (t : Trace D) (b : Bool)
    (hr : Runs (s.onResponse j) t (b, j')) : AskedResponse s j t b j' := by
  unfold onResponse at hr
  cases hs : s._responseCallback with
  | true =>
      rw [hs, if_pos rfl] at hr
      rcases (runs_perform_iff (R := Reply D) (Call.responseCallback j) t (b, j')).mp hr with rfl
      exact AskedResponse.set b j' hs
  | false =>
      rw [hs, if_neg Bool.false_ne_true] at hr
      rcases (runs_ret_iff ..).mp hr with ⟨rfl, h⟩
      cases h
      exact AskedResponse.unset hs

/-- How putting a response on the wire can have come out. -/
inductive Wired (d : Dumped) : Str → List Report → Option Exit → Prop
  | whole (reps : List Report) : (∀ r ∈ reps, r.ret = r.size) → Wired d d.frame reps none
  | cut (put : Str) (reps : List Report) : put <+: d.frame → (∃ r ∈ reps, r.ret ≠ r.size) →
      Wired d put reps (some .broke)

/-- How replying can have come out. -/
inductive Replied [DecimalImpl D] (s : Server) (peer : Int) (response : Json D) :
    Trace D → Option Exit → Prop
  | dropped (t : Trace D) (j : Json D) : AskedResponse s response t false j →
      Replied s peer response t none
  | wired (t1 t2 : Trace D) (j : Json D) (put : Str) (reps : List Report) (exit : Option Exit) :
      AskedResponse s response t1 true j → Moves peer 0 t2 [] put reps →
      Wired (Codec.dump j) put reps exit → Replied s peer response (t1 ++ t2) exit

/-- Replying asks the callback, and puts what it lets through on the wire. -/
theorem reply_runs [DecimalImpl D] (s : Server) (peer : Int) (response : Json D) (t : Trace D)
    (exit : Option Exit) (hr : Runs (s.reply peer response) t exit) :
    Replied s peer response t exit := by
  simp only [reply, Prog.bind_def] at hr
  rcases (runs_bind_iff ..).mp hr with ⟨t1, t2, ⟨accepted, j⟩, rfl, h1, h2⟩
  have hasked := onResponse_runs s response j t1 accepted h1
  cases accepted with
  | false =>
      rcases (runs_ret_iff ..).mp h2 with ⟨rfl, rfl⟩
      rw [List.append_nil]
      exact Replied.dropped t1 j hasked
  | true =>
      simp only [Bool.not_true, Bool.false_eq_true, if_false] at h2
      rcases (runs_bind_iff ..).mp h2 with ⟨t3, t4, ok, rfl, h3, h4⟩
      rcases bestEffortWrite_reports s peer _ _ _ t3 ok h3 with
        ⟨put, ret, hm3, hput, hle, hok, hnot⟩
      cases ok with
      | false =>
          rcases (runs_ret_iff ..).mp h4 with ⟨rfl, rfl⟩
          rw [List.append_nil]
          refine Replied.wired t1 t3 j put _ _ hasked hm3 (Wired.cut put _ ?_
            ⟨⟨.writeHeader, headerSize, put.length, ret⟩, List.mem_singleton_self _, hnot rfl⟩)
          rw [hput]
          exact (List.take_prefix _ _).trans (List.prefix_append _ _)
      | true =>
          rcases hok rfl with ⟨hret, hfull⟩
          -- The header is out, the content follows.
          have hhead : put = (Codec.dump j).beLength := by
            have hbe : (Codec.dump j).beLength.length = headerSize := rfl
            rw [hput, hfull, ← hbe, List.take_length]
          simp only [Bool.not_true, Bool.false_eq_true, if_false] at h4
          rcases (runs_bind_iff ..).mp h4 with ⟨t5, t6, ok5, rfl, h5, h6⟩
          rcases bestEffortWrite_reports s peer _ _ _ t5 ok5 h5 with
            ⟨put5, ret5, hm5, hput5, hle5, hok5, hnot5⟩
          have hm := moves_append hm3 hm5
          cases ok5 with
          | false =>
              rcases (runs_ret_iff ..).mp h6 with ⟨rfl, rfl⟩
              rw [List.append_nil]
              refine Replied.wired t1 _ j _ _ _ hasked hm (Wired.cut _ _ ?_
                ⟨⟨.writeContent, (Codec.dump j).length, put5.length, ret5⟩, ?_, hnot5 rfl⟩)
              · -- A header and a piece of the content are a beginning of the frame.
                rw [hhead, Dumped.frame, List.prefix_append_right_inj, hput5, Dumped.content]
                exact List.take_prefix_take_left hle5
              · exact List.mem_append_right _ (List.mem_singleton_self _)
          | true =>
              rcases hok5 rfl with ⟨hret5, hfull5⟩
              rcases (runs_ret_iff ..).mp h6 with ⟨rfl, rfl⟩
              have hcontent : put5 = (Codec.dump j).content := by
                rw [hput5, hfull5, Dumped.content]
              rw [hhead, hcontent] at hm
              rw [List.append_nil]
              refine Replied.wired t1 _ j _ _ _ hasked hm (Wired.whole _ ?_)
              simp only [List.singleton_append, List.forall_mem_cons, List.not_mem_nil,
                false_implies, implies_true, and_true]
              exact ⟨hret, hret5⟩

end Server

/-! ## The call -/

/-- With as many elements as parameters none of them is looked for in vain. -/
theorem makeArgs_not_fault [DecimalImpl D] (Ts : List Ty) :
    ∀ (js : List (Json D)) (f : Fault), js.length = Ts.length → makeArgs Ts js ≠ .fault f := by
  induction Ts with
  | nil => exact fun js f _ h => by cases h
  | cons T Ts ih =>
      intro js f hlen h
      cases js with
      | nil => exact absurd hlen (by simp)
      | cons j js =>
          simp only [makeArgs, Res.bind_def, Json.movedConvert] at h
          cases hv : Json.implicitly T j with
          | none =>
              rw [hv] at h
              cases h
          | some v =>
              -- The first argument converts, and the others follow.
              rw [hv] at h
              simp only [Res.ok_bind] at h
              cases hargs : makeArgs Ts js with
              | ok vs =>
                  rw [hargs] at h
                  cases h
              | throw e =>
                  rw [hargs] at h
                  cases h
              | fault g => exact ih js g (by simpa using hlen) hargs

/-- Taking the arguments out of `params` throws or succeeds. -/
theorem unpack_not_fault [DecimalImpl D] (sig : Signature) (args : Json D) (f : Fault) :
    unpack sig args ≠ .fault f := by
  intro h
  simp only [unpack, Json.arraySize, Res.bind_def, Res.bind_assoc] at h
  cases hargs : args.getArray with
  | ok js =>
      rw [hargs] at h
      simp only [Res.ok_bind, Res.pure_def] at h
      split at h
      · cases h
      · rename_i hlen
        exact makeArgs_not_fault sig.params js f (not_not.mp hlen).symm h
  | throw e =>
      rw [hargs] at h
      cases h
  | fault g =>
      cases args <;> cases hargs

/-- How `netCall` can have come out. -/
inductive NetCalled [DecimalImpl D] (table : Table) (method : Str) (args : Json D) :
    Trace D → Res (Json D) → Prop
  | unbound : table method = none →
      NetCalled table method args [⟨Call.netCall method args, ()⟩]
        (.throw (.protocol Attribute.methodNotFoundCode Attribute.methodNotFound))
  | refused (sig : Signature) (e : Exn) : table method = some sig → unpack sig args = .throw e →
      NetCalled table method args [⟨Call.netCall method args, ()⟩] (.throw e)
  | returned (sig : Signature) (tuple : Args D sig.params) (v : sig.Result D) :
      table method = some sig → unpack sig args = .ok tuple →
      NetCalled table method args
        [⟨Call.netCall method args, ()⟩, ⟨Call.invoke method sig tuple, (.ok v : Except Exn _)⟩]
        (.ok (sig.wrap v))
  | threw (sig : Signature) (tuple : Args D sig.params) (e : Exn) :
      table method = some sig → unpack sig args = .ok tuple →
      NetCalled table method args
        [⟨Call.netCall method args, ()⟩, ⟨Call.invoke method sig tuple, (.error e : Except Exn _)⟩]
        (.throw e)

/-- A call is refused in front of the function, or it ends as the function does. -/
theorem netCall_runs [DecimalImpl D] (table : Table) (method : Str) (args : Json D)
    (t : Trace D) (outcome : Res (Json D)) (hr : Runs (netCall table method args) t outcome) :
    NetCalled table method args t outcome := by
  simp only [netCall, Prog.bind_def, runs_enterNetCall_bind] at hr
  rcases hr with ⟨u, t1, rfl, hr⟩
  cases htable : table method with
  -- No function of that name.
  | none =>
      rw [htable] at hr
      rcases (runs_ret_iff ..).mp hr with ⟨rfl, rfl⟩
      exact NetCalled.unbound htable
  | some sig =>
      rw [htable] at hr
      simp only [dispatch] at hr
      cases hunpack : unpack sig args with
      | fault f => exact absurd hunpack (unpack_not_fault sig args f)
      | throw e =>
          rw [hunpack] at hr
          rcases (runs_ret_iff ..).mp hr with ⟨rfl, rfl⟩
          -- The arguments throw before anything runs.
          exact NetCalled.refused sig e htable hunpack
      | ok tuple =>
          rw [hunpack] at hr
          simp only [Prog.bind_def] at hr
          rcases (runs_invoke_bind ..).mp hr with ⟨r, t2, rfl, hend⟩
          change Except Exn (sig.Result D) at r
          cases r with
          | error e =>
              rcases (runs_ret_iff ..).mp hend with ⟨rfl, rfl⟩
              exact NetCalled.threw sig tuple e htable hunpack
          | ok v =>
              rcases (runs_ret_iff ..).mp hend with ⟨rfl, rfl⟩
              exact NetCalled.returned sig tuple v htable hunpack

/-- What the `try` block makes of a call that ended with `outcome`: a result or
    an error under the request's own id. -/
def settled (id : Int32) : Res (Json D) → Json D
  | .ok v => resultResponse id v
  | .throw e => errorResponse id (caught e).1 (caught e).2
  | .fault _ => .null

/-- Either way the response is made out. -/
theorem settle_empty [DecimalImpl D] (table : Table) (method : Str) (args : Json D) (id : Int32)
    (t : Trace D) (outcome : Res (Json D)) (h : NetCalled table method args t outcome) :
    settle (emptyResponse id) outcome = .ok (settled id outcome) := by
  have hok : ∀ v : Json D, settle (emptyResponse id) (.ok v) = .ok (settled id (.ok v)) :=
    fun v => rfl
  have hthrow : ∀ e, settle (emptyResponse id : Json D) (.throw e) = .ok (settled id (.throw e)) :=
    fun e => reportError_empty id _ _
  cases h with
  | unbound => exact hthrow _
  | refused => exact hthrow _
  | returned => exact hok _
  | threw => exact hthrow _

/-! ## The request -/

/-- A request the server can answer: an object with an id that converts to an
    `int` and a string as method. Missing `params` are an empty object. -/
def Callable [DecimalImpl D] (j : Json D) (id : Int32) (method : Str) (args : Json D) : Prop :=
  ∃ ms v, j = .object ms ∧ SortedMap.lookup Field.id ms = some v ∧
    Json.implicitly .int v = some id ∧
    SortedMap.lookup Field.method ms = some (.string method) ∧
    args = (SortedMap.lookup Field.params ms).getD (.object [])

/-- What `subscript` does on an object. -/
theorem subscript_object (ms : List (Str × Json D)) (k : Str) :
    (Json.object ms).subscript k = match SortedMap.lookup k ms with
      | some v => .ok (v, .object ms)
      | none => .ok (.object [], .object (SortedMap.insert k (.object []) ms)) := by
  simp only [Json.subscript, Json.getObject, Res.bind_def, Res.ok_bind]
  cases SortedMap.lookup k ms <;> rfl

theorem subscript_some (ms : List (Str × Json D)) (k : Str) (v : Json D)
    (h : SortedMap.lookup k ms = some v) : (Json.object ms).subscript k = .ok (v, .object ms) := by
  rw [subscript_object, h]

/-- An object with an id is given an empty response under it. -/
theorem makeEmptyResponse_object [DecimalImpl D] (ms : List (Str × Json D)) (v : Json D)
    (h : SortedMap.lookup Field.id ms = some v) :
    makeEmptyResponse (.object ms) = match Json.implicitly .int v with
      | some id => .ok (emptyResponse id, .object ms)
      | none => .throw (Json.cannotConvert " does not support convert to [type]" v .int) := by
  simp only [makeEmptyResponse, Res.bind_def, subscript_some ms _ v h, Res.ok_bind, Json.convert]
  cases Json.implicitly .int v <;> rfl

/-- Method and arguments of a request that has a method. -/
theorem prepareNetCall_object [DecimalImpl D] (ms : List (Str × Json D)) (method : Str)
    (h : SortedMap.lookup Field.method ms = some (.string method)) :
    prepareNetCall (.object ms)
      = .ok (method, (SortedMap.lookup Field.params ms).getD (.object [])) := by
  simp only [prepareNetCall, Res.bind_def, subscript_some ms _ _ h, Res.ok_bind,
    Json.movedConvert, Json.implicitly, subscript_object]
  cases SortedMap.lookup Field.params ms <;> rfl

/-- Without a method that is a string there is an exception. -/
theorem prepareNetCall_throws [DecimalImpl D] (ms : List (Str × Json D))
    (h : ∀ method, SortedMap.lookup Field.method ms ≠ some (.string method)) :
    ∃ e, prepareNetCall (Json.object ms) = .throw e := by
  simp only [prepareNetCall, Res.bind_def, subscript_object]
  cases hm : SortedMap.lookup Field.method ms with
  | none => exact ⟨_, rfl⟩
  | some v =>
      cases v with
      | string m => exact absurd hm (h m)
      | _ => exact ⟨_, rfl⟩

/-- What the server makes of a request before `netCall`: everything it needs, or
    an exception. -/
theorem prepare_cases [DecimalImpl D] (j : Json D) :
    (∃ id method args, Callable j id method args ∧
      makeEmptyResponse j = .ok (emptyResponse id, j) ∧
      prepareNetCall j = .ok (method, args)) ∨
    ((∀ id method args, ¬ Callable j id method args) ∧
      ((∃ e, makeEmptyResponse j = .throw e) ∨
        ∃ id e, makeEmptyResponse j = .ok (emptyResponse id, j) ∧
          prepareNetCall j = .throw e)) := by
  cases j with
  | object ms =>
      cases hid : SortedMap.lookup Field.id ms with
      | none =>
          -- No id: what `operator[]` has put there is an object, and that is no `int`.
          refine Or.inr ⟨?_, Or.inl ?_⟩
          · rintro id method args ⟨ms', v, hms, hv, _⟩
            cases hms
            rw [hid] at hv
            cases hv
          · simp only [makeEmptyResponse, Res.bind_def, subscript_object, hid]
            exact ⟨_, rfl⟩
      | some v =>
          -- The id alone decides about the empty response, before the method is looked at.
          have hempty := makeEmptyResponse_object ms v hid
          cases hint : Json.implicitly .int v with
          | none =>
              rw [hint] at hempty
              refine Or.inr ⟨?_, Or.inl ⟨_, hempty⟩⟩
              rintro id method args ⟨ms', v', hms, hv, hi, _⟩
              cases hms
              rw [hid] at hv
              cases hv
              rw [hint] at hi
              cases hi
          | some id =>
              rw [hint] at hempty
              by_cases hm : ∃ method, SortedMap.lookup Field.method ms = some (.string method)
              · rcases hm with ⟨method, hm⟩
                exact Or.inl ⟨id, method, _, ⟨ms, v, rfl, hid, hint, hm, rfl⟩, hempty,
                  prepareNetCall_object ms method hm⟩
              · rcases prepareNetCall_throws ms (fun method h => hm ⟨method, h⟩) with ⟨e, he⟩
                refine Or.inr ⟨?_, Or.inr ⟨id, e, hempty, he⟩⟩
                rintro id method args ⟨ms', v', hms, _, _, hmethod, _⟩
                cases hms
                exact hm ⟨method, hmethod⟩
  | _ =>
      refine Or.inr ⟨?_, Or.inl ⟨_, rfl⟩⟩
      rintro id method args ⟨ms', v', hms, _⟩
      cases hms

/-! ## The user's code -/

/-- A part of a run that moved nothing and reported nothing. -/
structure Unmoved (peer : Int) (t : Trace D) : Prop where
  received : received peer t = []
  sent : sent peer t = []
  reports : reports t = []
  inside : ReadsInside 0 t

/-- What neither of two parts moves is not moved. -/
theorem unmoved_append (peer : Int) (t u : Trace D) (ht : Unmoved peer t) (hu : Unmoved peer u) :
    Unmoved peer (t ++ u) where
  received := by rw [received_append, ht.received, hu.received, List.append_nil]
  sent := by rw [sent_append, ht.sent, hu.sent, List.append_nil]
  reports := by rw [reports_append, ht.reports, hu.reports, List.append_nil]
  inside := (readsInside_append 0 t u).mpr ⟨ht.inside, hu.inside⟩

theorem unmoved_nil (peer : Int) : Unmoved peer ([] : Trace D) :=
  ⟨rfl, rfl, rfl, readsInside_nil 0⟩

theorem unmoved_requestCallback (peer : Int) (j j' : Json D) (b : Bool) :
    Unmoved peer [(⟨Call.requestCallback j, (b, j')⟩ : Ev D)] :=
  ⟨rfl, rfl, rfl, (readsInside_singleton 0 _).mpr trivial⟩

theorem unmoved_responseCallback (peer : Int) (j j' : Json D) (b : Bool) :
    Unmoved peer [(⟨Call.responseCallback j, (b, j')⟩ : Ev D)] :=
  ⟨rfl, rfl, rfl, (readsInside_singleton 0 _).mpr trivial⟩

theorem unmoved_netCall (peer : Int) (method : Str) (args : Json D) (u : Unit) :
    Unmoved peer [(⟨Call.netCall method args, u⟩ : Ev D)] :=
  ⟨rfl, rfl, rfl, (readsInside_singleton 0 _).mpr trivial⟩

theorem unmoved_invoke (peer : Int) (method : Str) (sig : Signature) (args : Args D sig.params)
    (r : Except Exn (sig.Result D)) :
    Unmoved peer [(⟨Call.invoke method sig args, r⟩ : Ev D)] :=
  ⟨rfl, rfl, rfl, (readsInside_singleton 0 _).mpr trivial⟩

/-- What a callback is asked shows in the trace, and nothing else does. -/
theorem Server.AskedRequest.unmoved {s : Server} {j j' : Json D} {t : Trace D} {b : Bool}
    (h : AskedRequest s j t b j') (peer : Int) :
    Unmoved peer t ∧ netCalls t = [] ∧ responseCalls t = [] ∧ invocations t = [] := by
  cases h with
  | unset => exact ⟨unmoved_nil peer, rfl, rfl, rfl⟩
  | set b j' => exact ⟨unmoved_requestCallback peer j j' b, rfl, rfl, rfl⟩

theorem Server.AskedResponse.unmoved {s : Server} {j j' : Json D} {t : Trace D} {b : Bool}
    (h : AskedResponse s j t b j') (peer : Int) :
    Unmoved peer t ∧ netCalls t = [] ∧ requestCalls t = [] ∧ invocations t = [] := by
  cases h with
  | unset => exact ⟨unmoved_nil peer, rfl, rfl, rfl⟩
  | set b j' => exact ⟨unmoved_responseCallback peer j j' b, rfl, rfl, rfl⟩

/-- A `netCall` is one `netCall`. -/
theorem NetCalled.unmoved [DecimalImpl D] {table : Table} {method : Str} {args : Json D}
    {t : Trace D} {outcome : Res (Json D)} (h : NetCalled table method args t outcome)
    (peer : Int) :
    Unmoved peer t ∧ netCalls t = [(method, args)] ∧ requestCalls t = [] ∧
      responseCalls t = [] := by
  have henter := unmoved_netCall peer method args ()
  cases h with
  | unbound => exact ⟨henter, rfl, rfl, rfl⟩
  | refused => exact ⟨henter, rfl, rfl, rfl⟩
  | returned sig tuple v =>
      exact ⟨unmoved_append peer [_] [_] henter (unmoved_invoke peer method sig tuple _),
        rfl, rfl, rfl⟩
  | threw sig tuple e =>
      exact ⟨unmoved_append peer [_] [_] henter (unmoved_invoke peer method sig tuple _),
        rfl, rfl, rfl⟩

/-! ## The turn -/

namespace Server

/-- A frame was read into `buf`, in whole, and nothing else was done. -/
structure Taken (peer : Int) (buf : Str) (t : Trace D) (content : Str) : Prop where
  fits : beHeader.Fits content
  inside : headerSize + content.length ≤ buf.length
  moves : Moves peer (headerSize + content.length) t (beHeader.frame content) []
    [⟨.readHeader, headerSize, headerSize, headerSize⟩,
      ⟨.readContent, content.length, content.length, content.length⟩]

/-- How answering a decoded request can have come out. -/
inductive Answered [DecimalImpl D] (s : Server) (peer : Int) (request : Json D) :
    Trace D → Option Exit → Prop
  /-- The request callback dropped it. -/
  | declined (t : Trace D) (j : Json D) : AskedRequest s request t false j →
      Answered s peer request t none
  /-- An exception was thrown outside the `try` block. -/
  | threw (t : Trace D) (j : Json D) (e : Exn) : AskedRequest s request t true j →
      (∀ id method args, ¬ Callable j id method args) →
      Answered s peer request t (some (.threw e))
  /-- The call was made. -/
  | called (t0 t1 t2 : Trace D) (j : Json D) (id : Int32) (method : Str) (args : Json D)
      (outcome : Res (Json D)) (exit : Option Exit) : AskedRequest s request t0 true j →
      Callable j id method args → NetCalled s._table method args t1 outcome →
      Replied s peer (settled id outcome) t2 exit →
      Answered s peer request (t0 ++ (t1 ++ t2)) exit

/-- Answering a request, once it is decoded. -/
theorem answer_runs [DecimalImpl D] (s : Server) (peer : Int) (request : Json D) (t : Trace D)
    (exit : Option Exit) (hr : Runs (s.answer peer request) t exit) :
    Answered s peer request t exit := by
  simp only [answer, Prog.bind_def] at hr
  rcases (runs_bind_iff ..).mp hr with ⟨t0, t', ⟨accepted, j⟩, rfl, h1, h2⟩
  have hasked := onRequest_runs s request j t0 accepted h1
  cases accepted with
  | false =>
      rcases (runs_ret_iff ..).mp h2 with ⟨rfl, rfl⟩
      rw [List.append_nil]
      exact Answered.declined t0 j hasked
  | true =>
      simp only [Bool.not_true, Bool.false_eq_true, if_false] at h2
      rcases prepare_cases j with ⟨id, method, args, hcall, hempty, hprep⟩ |
        ⟨hnot, ⟨e, hempty⟩ | ⟨id, e, hempty, hprep⟩⟩
      · simp only [hempty, hprep] at h2
        rcases (runs_bind_iff ..).mp h2 with ⟨t1, t2, outcome, rfl, h3, h4⟩
        have hnet := netCall_runs _ _ _ t1 outcome h3
        rw [settle_empty _ _ _ id t1 outcome hnet] at h4
        exact Answered.called t0 t1 t2 j id method args outcome exit hasked hcall hnet
          (reply_runs s peer _ t2 exit h4)
      · simp only [hempty] at h2
        rcases (runs_ret_iff ..).mp h2 with ⟨rfl, rfl⟩
        rw [List.append_nil]
        -- No empty response could be made of the request.
        exact Answered.threw t0 j e hasked hnot
      · simp only [hempty, hprep] at h2
        rcases (runs_ret_iff ..).mp h2 with ⟨rfl, rfl⟩
        rw [List.append_nil]
        exact Answered.threw t0 j e hasked hnot

/-- Answering a request reads nothing. -/
theorem answered_received [DecimalImpl D] (s : Server) (peer : Int) (request : Json D)
    (t : Trace D) (exit : Option Exit) (h : Answered s peer request t exit) :
    received peer t = [] ∧ ReadsInside 0 t := by
  cases h with
  | declined t j hask => exact ⟨(hask.unmoved peer).1.received, (hask.unmoved peer).1.inside⟩
  | threw t j e hask => exact ⟨(hask.unmoved peer).1.received, (hask.unmoved peer).1.inside⟩
  | called t0 t1 t2 j id method args outcome exit hask hcall hnet hrep =>
      have h0 := (hask.unmoved peer).1
      have h1 := (hnet.unmoved peer).1
      have h2 : received peer t2 = [] ∧ ReadsInside 0 t2 := by
        cases hrep with
        | dropped t j' hask2 =>
            exact ⟨(hask2.unmoved peer).1.received, (hask2.unmoved peer).1.inside⟩
        | wired t3 t4 j' put reps exit hask2 hm =>
            have h3 := (hask2.unmoved peer).1
            exact ⟨by rw [received_append, h3.received, hm.received, List.append_nil],
              (readsInside_append 0 t3 t4).mpr ⟨h3.inside, hm.inside⟩⟩
      refine ⟨by simp only [received_append, h0.received, h1.received, h2.1, List.append_nil], ?_⟩
      rw [readsInside_append, readsInside_append]
      exact ⟨h0.inside, h1.inside, h2.2⟩

/-- How a turn ends behind `handle`. -/
def after (buf : Str) : Option Exit → Str ⊕ Exit
  | none => .inl buf
  | some exit => .inr exit

/-- How a turn on a buffer can have come out. -/
inductive Turned [DecimalImpl D] (s : Server) (peer : Int) (buf : Str) :
    Trace D → Str ⊕ Exit → Prop
  /-- No frame was read. -/
  | unread (t : Trace D) (got : Str) (limit : Nat) (reps : List Report) (exit : Exit) :
      Moves peer limit t got [] reps → Received buf got limit reps (.error exit) →
      Turned s peer buf t (.inr exit)
  /-- A frame was read, and decoding it threw. -/
  | undecoded (t : Trace D) (content : Str) (e : Exn) : Taken peer buf t content →
      parse (D := D) (content ++ buf.drop (headerSize + content.length)) = .throw e →
      Turned s peer buf t (.inr (.threw e))
  /-- A frame was read, and decoding it left defined behaviour. -/
  | faulted (t : Trace D) (content : Str) (f : Fault) : Taken peer buf t content →
      parse (D := D) (content ++ buf.drop (headerSize + content.length)) = .fault f →
      Turned s peer buf t (.inr (.fault f))
  /-- A frame was read and decoded, and the request was answered. -/
  | answered (t1 t2 : Trace D) (content : Str) (request : Json D) (exit : Option Exit) :
      Taken peer buf t1 content →
      parse (content ++ buf.drop (headerSize + content.length)) = .ok request →
      Answered s peer request t2 exit →
      Turned s peer buf (t1 ++ t2)
        (after (beHeader.frame content ++ buf.drop (headerSize + content.length)) exit)

theorem decode_frame [DecimalImpl D] (content rest : Str) (n : Nat) :
    decode (D := D) (beHeader.frame content ++ rest) n = parse (content ++ rest) := by
  rw [decode, Framing.Header.frame, List.append_assoc]
  rfl

/-- A turn: a frame, its content decoded, and the answer. -/
theorem turn_runs [DecimalImpl D] (s : Server) (peer : Int) (buf : Str)
    (hbuf : headerSize ≤ buf.length) (t : Trace D) (r : Str ⊕ Exit)
    (hr : Runs (s.turn peer buf) t r) : Turned s peer buf t r := by
  simp only [turn, Prog.bind_def] at hr
  rcases (runs_bind_iff ..).mp hr with ⟨t1, t2, frame, rfl, h1, h2⟩
  rcases receive_runs s peer buf hbuf t1 frame h1 with ⟨got, limit, reps, hm, hrec⟩
  cases frame with
  | error exit =>
      rcases (runs_ret_iff ..).mp h2 with ⟨rfl, rfl⟩
      rw [List.append_nil]
      exact Turned.unread t1 got limit reps exit hm hrec
  | ok frame =>
      cases hrec with
      | whole content hfits hN =>
          have htaken : Taken peer buf t1 content := ⟨hfits, hN, hm⟩
          -- The parser is given the content and all that stands behind it in the buffer.
          simp only [handle, decode_frame] at h2
          cases hparse : parse (D := D) (content ++ buf.drop (headerSize + content.length)) with
          | throw e =>
              rw [hparse] at h2
              rcases (runs_ret_iff ..).mp h2 with ⟨rfl, rfl⟩
              rw [List.append_nil]
              exact Turned.undecoded t1 content e htaken hparse
          | fault f =>
              rw [hparse] at h2
              rcases (runs_ret_iff ..).mp h2 with ⟨rfl, rfl⟩
              rw [List.append_nil]
              exact Turned.faulted t1 content f htaken hparse
          | ok request =>
              rw [hparse] at h2
              rcases (runs_bind_iff ..).mp h2 with ⟨t3, t4, exit, rfl, h3, h4⟩
              have hans := answer_runs s peer request t3 exit h3
              have hturn := Turned.answered t1 t3 content request exit htaken hparse hans
              cases exit with
              | none =>
                  rcases (runs_ret_iff ..).mp h4 with ⟨rfl, rfl⟩
                  rw [List.append_nil]
                  exact hturn
              | some exit =>
                  rcases (runs_ret_iff ..).mp h4 with ⟨rfl, rfl⟩
                  rw [List.append_nil]
                  exact hturn

/-- A turn that goes on has read one frame. -/
theorem turned_frame [DecimalImpl D] (s : Server) (peer : Int) (buf buf' : Str) (t : Trace D)
    (h : Turned s peer buf t (.inl buf')) :
    ∃ content, beHeader.Fits content ∧ received peer t = beHeader.frame content := by
  generalize hx : (Sum.inl buf' : Str ⊕ Exit) = x at h
  cases h with
  | unread => cases hx
  | undecoded => cases hx
  | faulted => cases hx
  | answered t1 t2 content request exit ht hparse hans =>
      refine ⟨content, ht.fits, ?_⟩
      rw [received_append, ht.moves.received,
        (answered_received s peer request t2 exit hans).1, List.append_nil]

/-- The buffer keeps its size. -/
theorem turn_length [DecimalImpl D] (s : Server) (peer : Int) (buf buf' : Str)
    (hbuf : headerSize ≤ buf.length) (t : Trace D) (hr : Runs (s.turn peer buf) t (.inl buf')) :
    buf'.length = buf.length := by
  generalize hx : (Sum.inl buf' : Str ⊕ Exit) = x at hr
  cases turn_runs s peer buf hbuf t x hr with
  | unread => cases hx
  | undecoded => cases hx
  | faulted => cases hx
  | answered t1 t2 content request exit htaken =>
      cases exit with
      | some exit => cases hx
      | none =>
          cases hx
          have hin := htaken.inside
          have hwidth : beHeader.width = headerSize := rfl
          rw [List.length_append, beHeader.length_frame, List.length_drop, hwidth]
          omega

end Server

end Trpc
