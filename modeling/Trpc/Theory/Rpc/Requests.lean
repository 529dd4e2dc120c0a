import Trpc.Theory.Rpc.Turns

/-!
# One Response for Each Request

A connection on which nothing fails. The peer writes frames, each with a request
that the parser finishes within its frame; the transfers complete in whatever
pieces; the callbacks accept and refuse as they like but do not edit. Then the
worker takes the frames one by one, and everything it does can be read off a list
of exchanges, one for each frame: whom it calls, what the callbacks are shown, and
what it sends.

A turn makes one exchange, so a run makes a list of them by induction over its
rounds, in which the stream of frames that is still to come gets shorter. Only a turn
whose wait for a first byte comes to nothing makes none, and it ends the run: a worker
that has stopped was left without a frame at that point. Workers
of different connections share nothing but the environment, so in a joint run
each of them runs as if it were alone.

## Main definitions

* `IsRequest`: An object with an `int` id and a method.
* `Carries`: A response under an id, with a result or an error but not both.
* `Exchange`: A frame and what became of it.
* `Exchanges`: What a run shows of a list of exchanges.
* `WaitedInVain`: A wait for a first byte that came to nothing.

## Theorems

* `turn_waited`: A turn that has read nothing has waited in vain.
* `turned_exchange`: A turn makes one exchange.
* `rounds_exchanges`: A run makes a list of them.
* `workers_exchange`: Any number of workers, in any order of steps.
-/

namespace Trpc

open Vsjson Interaction

variable {D : Type}

/-! ## Messages -/

/-- An object with an `int` id and a string as method, and any `params`. -/
def IsRequest (j : Json D) (id : Int32) (method : Str) (args : Json D) : Prop :=
  ∃ ms, j = .object ms ∧ SortedMap.lookup Field.id ms = some (.integer id) ∧
    SortedMap.lookup Field.method ms = some (.string method) ∧
    args = (SortedMap.lookup Field.params ms).getD (.object [])

theorem isRequest_callable [DecimalImpl D] (j : Json D) (id : Int32) (method : Str)
    (args : Json D) (h : IsRequest j id method args) : Callable j id method args := by
  rcases h with ⟨ms, rfl, hid, hmethod, rfl⟩
  exact ⟨ms, _, rfl, hid, rfl, hmethod, rfl⟩

/-- A request is called in one way only. -/
theorem callable_unique [DecimalImpl D] (j : Json D) (id id' : Int32) (method method' : Str)
    (args args' : Json D) (h : Callable j id method args) (h' : Callable j id' method' args') :
    id' = id ∧ method' = method ∧ args' = args := by
  rcases h with ⟨ms, v, rfl, hid, hint, hmethod, rfl⟩
  rcases h' with ⟨ms', v', hms, hid', hint', hmethod', rfl⟩
  cases hms
  -- One object has one id, one method and one list of parameters.
  rw [hid] at hid'
  cases hid'
  rw [hint] at hint'
  cases hint'
  rw [hmethod] at hmethod'
  cases hmethod'
  exact ⟨rfl, rfl, rfl⟩

/-- A response under `id`, with exactly one of a result and an error. -/
def Carries (response : Json D) (id : Int32) : Prop :=
  ∃ ms, response = .object ms ∧ SortedMap.lookup Field.id ms = some (.integer id) ∧
    SortedMap.lookup Field.jsonrpc ms = some (.string Attribute.version) ∧
    ((SortedMap.lookup Field.result ms).isSome ↔ SortedMap.lookup Field.error ms = none)

theorem isResponse_carries (id : Int32) (response : Json D) (h : IsResponse id response) :
    Carries response id := by
  rcases h with ⟨result, rfl⟩ | ⟨code, message, rfl⟩
  · exact ⟨_, rfl, rfl, rfl, ⟨fun _ => rfl, fun _ => rfl⟩⟩
  · exact ⟨_, rfl, rfl, rfl, ⟨fun h => (by cases h), fun h => (by cases h)⟩⟩

/-! ## Exchanges -/

/-- A frame and what became of it: the request in it, whether the request callback
    accepted that, the response, and whether the response callback accepted
    that. -/
structure Exchange (D : Type) where
  content : Str
  request : Json D
  id : Int32
  method : Str
  args : Json D
  accepted : Bool
  response : Json D
  approved : Bool

/-- The exchanges that led to a call. -/
def accepted (xs : List (Exchange D)) : List (Exchange D) := xs.filter fun x => x.accepted

/-- The exchanges that led to a response on the wire. -/
def approved (xs : List (Exchange D)) : List (Exchange D) :=
  (accepted xs).filter fun x => x.approved

/-- What a run shows of a list of exchanges. -/
structure Exchanges [DecimalImpl D] (s : Server) (peer : Int) (xs : List (Exchange D))
    (t : Trace D) : Prop where
  received : received peer t = beHeader.frames (xs.map Exchange.content)
  requests : ∀ x ∈ xs, parse x.content = .ok x.request ∧
    IsRequest x.request x.id x.method x.args
  asked : requestCalls t = if s._requestCallback then
    xs.map fun x => (x.request, x.accepted, x.request) else []
  unasked : s._requestCallback = false → ∀ x ∈ xs, x.accepted = true
  netCalls : netCalls t = (accepted xs).map fun x => (x.method, x.args)
  responses : ∀ x ∈ accepted xs, Carries x.response x.id
  shown : responseCalls t = if s._responseCallback then
    (accepted xs).map fun x => (x.response, x.approved, x.response) else []
  unshown : s._responseCallback = false → ∀ x ∈ accepted xs, x.approved = true
  sent : sent peer t
    = beHeader.frames ((approved xs).map fun x => (Codec.dump x.response).content)

theorem accepted_append (xs ys : List (Exchange D)) :
    accepted (xs ++ ys) = accepted xs ++ accepted ys := List.filter_append ..

theorem approved_append (xs ys : List (Exchange D)) :
    approved (xs ++ ys) = approved xs ++ approved ys := by
  rw [approved, accepted_append, List.filter_append]
  rfl

/-- A part of a run without exchanges. -/
theorem exchanges_nil [DecimalImpl D] (s : Server) (peer : Int) (t : Trace D) (limit : Nat)
    (reps : List Report) (h : Moves peer limit t [] [] reps) : Exchanges s peer [] t where
  received := h.received
  requests := fun _ hx => absurd hx List.not_mem_nil
  asked := by rw [h.silent.requestCalls]; split <;> rfl
  unasked := fun _ _ hx => absurd hx List.not_mem_nil
  netCalls := h.silent.netCalls
  responses := fun _ hx => absurd hx List.not_mem_nil
  shown := by rw [h.silent.responseCalls]; split <;> rfl
  unshown := fun _ _ hx => absurd hx List.not_mem_nil
  sent := h.sent

/-- The exchanges of two parts follow each other. -/
theorem exchanges_append [DecimalImpl D] (s : Server) (peer : Int) (xs ys : List (Exchange D))
    (t u : Trace D) (ht : Exchanges s peer xs t) (hu : Exchanges s peer ys u) :
    Exchanges s peer (xs ++ ys) (t ++ u) where
  received := by
    rw [received_append, ht.received, hu.received, List.map_append, beHeader.frames_append]
  requests := List.forall_mem_append.mpr ⟨ht.requests, hu.requests⟩
  asked := by
    rw [requestCalls_append, ht.asked, hu.asked, List.map_append]
    split <;> rfl
  unasked := fun h => List.forall_mem_append.mpr ⟨ht.unasked h, hu.unasked h⟩
  netCalls := by
    rw [netCalls_append, ht.netCalls, hu.netCalls, accepted_append, List.map_append]
  responses := by
    rw [accepted_append]
    exact List.forall_mem_append.mpr ⟨ht.responses, hu.responses⟩
  shown := by
    rw [responseCalls_append, ht.shown, hu.shown, accepted_append, List.map_append]
    split <;> rfl
  unshown := fun h => by
    rw [accepted_append]
    exact List.forall_mem_append.mpr ⟨ht.unshown h, hu.unshown h⟩
  sent := by
    rw [sent_append, ht.sent, hu.sent, approved_append, List.map_append, beHeader.frames_append]

/-! ## Runs in which nothing fails -/

/-- Every transfer moved all of its bytes. -/
def Complete (t : Trace D) : Prop := ∀ r ∈ reports t, r.ret = r.size

/-- The callbacks left the messages as they were. -/
def Unedited (t : Trace D) : Prop := ∀ x ∈ requestCalls t ++ responseCalls t, x.2.2 = x.1

theorem complete_append (t u : Trace D) : Complete (t ++ u) ↔ Complete t ∧ Complete u := by
  simp only [Complete, reports_append, List.forall_mem_append]

theorem unedited_append (t u : Trace D) : Unedited (t ++ u) ↔ Unedited t ∧ Unedited u := by
  simp only [Unedited, requestCalls_append, responseCalls_append, List.forall_mem_append]
  exact and_and_and_comm

namespace Server

/-- The content of a frame as the server expects it: not empty, not longer than
    the buffer, and a request that the parser finishes within it. -/
def WellFormed (D : Type) [DecimalImpl D] (content : Str) : Prop :=
  content ≠ [] ∧ headerSize + content.length ≤ bufSizeOnStack ∧
    ∃ (request : Json D) (id : Int32) (method : Str) (args : Json D),
      parse content = .ok request ∧ IsRequest request id method args

theorem wellFormed_fits [DecimalImpl D] (content : Str) (h : WellFormed D content) :
    beHeader.Fits content := by
  have hlen := h.2.1
  have hbound : bufSizeOnStack < beHeader.bound := by decide
  rw [Framing.Header.Fits]
  omega

/-- A beginning of such frames announces no length that is too large. -/
theorem fitting_frames [DecimalImpl D] (contents : List Str)
    (h : ∀ content ∈ contents, WellFormed D content) (s : Str)
    (hs : s <+: beHeader.frames contents) : Fitting s := by
  have hall := beHeader.lengths_prefix s.length s _ (le_refl _) hs
  rw [← List.append_nil (beHeader.frames contents), beHeader.lengths_frames contents []
    (fun content hc => wellFormed_fits content (h content hc)),
    beHeader.lengths_short [] beHeader.width_pos, List.append_nil] at hall
  -- Every length that is announced in it is that of one of the frames.
  intro n hn
  rcases List.mem_map.mp (hall.subset hn) with ⟨content, hc, rfl⟩
  exact (h content hc).2.1

/-- The message the callback was asked about is the one it left behind. -/
theorem asked_unedited (s : Server) (j j' : Json D) (t : Trace D) (b : Bool)
    (h : AskedRequest s j t b j') (hunedited : Unedited t) : j' = j := by
  cases h with
  | unset => rfl
  | set => exact hunedited _ (List.mem_append_left _ (List.mem_singleton_self _))

theorem shown_unedited (s : Server) (j j' : Json D) (t : Trace D) (b : Bool)
    (h : AskedResponse s j t b j') (hunedited : Unedited t) : j' = j := by
  cases h with
  | unset => rfl
  | set => exact hunedited _ (List.mem_append_right _ (List.mem_singleton_self _))

/-- The exchange of a request that the callback refused. -/
theorem declined_exchange [DecimalImpl D] (s : Server) (peer : Int) (buf : Str) (t u : Trace D)
    (content : Str) (request : Json D) (id : Int32) (method : Str) (args : Json D)
    (ht : Taken peer buf t content) (hparse : parse content = .ok request)
    (hrequest : IsRequest request id method args) (hask : AskedRequest s request u false request) :
    Exchanges s peer [⟨content, request, id, method, args, false, .null, false⟩] (t ++ u) := by
  have hrun := hask.unmoved peer
  cases hask with
  | set _ _ hset =>
      -- There are the frame and the one question. Nothing is called and nothing sent.
      refine ⟨?_, List.forall_mem_singleton.mpr ⟨hparse, hrequest⟩, ?_, ?_, ?_, ?_, ?_, ?_, ?_⟩
      · rw [received_append, ht.moves.received, hrun.1.received, List.append_nil,
          List.map_singleton,
          beHeader.frames_singleton]
      · rw [requestCalls_append, ht.moves.silent.requestCalls, if_pos hset]
        rfl
      · intro h
        rw [hset] at h
        cases h
      · rw [netCalls_append, ht.moves.silent.netCalls, hrun.2.1]
        rfl
      · exact fun _ hx => absurd hx List.not_mem_nil
      · rw [responseCalls_append, ht.moves.silent.responseCalls, hrun.2.2.1]
        split <;> rfl
      · exact fun _ _ hx => absurd hx List.not_mem_nil
      · rw [sent_append, ht.moves.sent, hrun.1.sent]
        rfl

/-- What replying shows, when nothing fails. -/
structure Delivered [DecimalImpl D] (s : Server) (peer : Int) (response : Json D)
    (approved : Bool) (t : Trace D) : Prop where
  received : received peer t = []
  requestCalls : requestCalls t = []
  netCalls : netCalls t = []
  shown : responseCalls t = if s._responseCallback then [(response, approved, response)] else []
  unshown : s._responseCallback = false → approved = true
  sent : sent peer t = if approved then (Codec.dump response).frame else []

/-- Replying goes all the way, or the response callback refuses. -/
theorem replied_delivered [DecimalImpl D] (s : Server) (peer : Int) (response : Json D)
    (t : Trace D) (exit : Option Exit) (hcomplete : Complete t) (hunedited : Unedited t)
    (h : Replied s peer response t exit) :
    exit = none ∧ ∃ approved, Delivered s peer response approved t := by
  cases h with
  | dropped t j hask =>
      have hrun := hask.unmoved peer
      have hj := shown_unedited s response j t false hask hunedited
      cases hask with
      | set _ _ hset =>
          subst hj
          refine ⟨rfl, false, hrun.1.received, hrun.2.2.1, hrun.2.1, ?_, ?_, hrun.1.sent⟩
          · rw [if_pos hset]
            rfl
          · intro h
            rw [hset] at h
            cases h
  | wired t1 t2 j put reps exit hask hm hw =>
      have hrun := hask.unmoved peer
      have hj := shown_unedited s response j t1 true hask ((unedited_append t1 t2).mp hunedited).1
      subst hj
      cases hw with
      | cut put reps hput hfail =>
          -- A transfer of the response that fell short is not complete.
          rcases hfail with ⟨x, hx, hret⟩
          rw [← hm.reports] at hx
          exact absurd (((complete_append t1 t2).mp hcomplete).2 x hx) hret
      | whole =>
          -- The response is on the wire as one frame, and nobody else was asked.
          refine ⟨rfl, true, ?_, ?_, ?_, ?_, fun _ => rfl, ?_⟩
          · rw [received_append, hrun.1.received, hm.received, List.append_nil]
          · rw [requestCalls_append, hrun.2.2.1, hm.silent.requestCalls, List.append_nil]
          · rw [netCalls_append, hrun.2.1, hm.silent.netCalls, List.append_nil]
          · rw [responseCalls_append, hm.silent.responseCalls, List.append_nil]
            cases hask with
            | unset hunset => rw [hunset]; rfl
            | set _ _ hset => rw [hset]; rfl
          · rw [sent_append, hrun.1.sent, hm.sent]
            rfl

/-- The exchange of a request that was called. -/
theorem called_exchange [DecimalImpl D] (s : Server) (peer : Int) (buf : Str)
    (t u v w : Trace D) (content : Str) (request : Json D) (id : Int32) (method : Str)
    (args response : Json D) (outcome : Res (Json D)) (approved : Bool)
    (ht : Taken peer buf t content) (hparse : parse content = .ok request)
    (hrequest : IsRequest request id method args) (hask : AskedRequest s request u true request)
    (hnet : NetCalled s._table method args v outcome) (hresponse : IsResponse id response)
    (hreply : Delivered s peer response approved w) :
    Exchanges s peer [⟨content, request, id, method, args, true, response, approved⟩]
      (t ++ (u ++ (v ++ w))) := by
  have hmove := ht.moves
  have hsilent := ht.moves.silent
  have hrun := hask.unmoved peer
  have hcall := hnet.unmoved peer
  refine ⟨?_, List.forall_mem_singleton.mpr ⟨hparse, hrequest⟩, ?_, ?_, ?_, ?_, ?_, ?_, ?_⟩
  · simp only [received_append, hmove.received, hrun.1.received, hcall.1.received,
      hreply.received, List.append_nil, List.map_singleton, beHeader.frames_singleton]
  · simp only [requestCalls_append, hsilent.requestCalls, hcall.2.2.1, hreply.requestCalls,
      List.append_nil, List.nil_append]
    cases hask with
    | unset hunset => rw [hunset]; rfl
    | set _ _ hset => rw [hset]; rfl
  · -- Without a callback every request is accepted, as this one was.
    exact fun _ => List.forall_mem_singleton.mpr rfl
  · simp only [netCalls_append, hsilent.netCalls, hrun.2.1, hcall.2.1, hreply.netCalls,
      List.append_nil, List.nil_append]
    rfl
  · exact List.forall_mem_singleton.mpr (isResponse_carries id response hresponse)
  · simp only [responseCalls_append, hsilent.responseCalls, hrun.2.2.1, hcall.2.2.2,
      hreply.shown, List.nil_append]
    rfl
  · exact fun h => List.forall_mem_singleton.mpr (hreply.unshown h)
  · simp only [sent_append, hmove.sent, hrun.1.sent, hcall.1.sent, hreply.sent, List.nil_append]
    cases approved with
    | false => rfl
    | true =>
        rw [if_pos rfl, dump_frame, ← beHeader.frames_singleton]
        rfl

/-- A wait for a first byte that came to nothing: its time was over when its one attempt
    began, or the poll found nothing, or failed. -/
inductive WaitedInVain (s : Server) (peer : Int) : Trace D → Prop
  | late (start now : Int) (e : Errno) : expired start s._pending now = true →
      WaitedInVain s peer [⟨.tick, start⟩, ⟨.tick, now⟩, ⟨.setErrno e, ()⟩]
  | nothing (start now : Int) (r : Int × Errno) (e : Errno) : r.1 ≤ 0 →
      WaitedInVain s peer [⟨.tick, start⟩, ⟨.tick, now⟩,
        ⟨.poll peer .pollin (pollInterval s._pending 1), r⟩, ⟨.setErrno e, ()⟩]

/-- A wait that was concluded without a first byte. -/
theorem conclude_waited (x : Transfer) (t : Trace D) (hret : x.ret = -1)
    (hr : Runs (conclude 1 x) t false) : ∃ e, t = [⟨.setErrno e, ()⟩] := by
  have hne : ¬ x.ret = (1 : Nat) := by omega
  rw [conclude, if_neg hne] at hr
  rcases (runs_setErrno_bind ..).mp hr with ⟨u, t1, rfl, hend⟩
  rcases (runs_ret_iff ..).mp hend with ⟨rfl, _⟩
  exact ⟨_, rfl⟩

/-- A wait for a first byte that says no, call by call. -/
theorem pending_waited (s : Server) (peer : Int) (t : Trace D)
    (hr : Runs (s.bestEffortPending peer) t false) : WaitedInVain s peer t := by
  simp only [bestEffortPending, bestEffortTemplate, attempts, Prog.bind_def, Prog.pure_def] at hr
  rcases (runs_bind_iff ..).mp hr with ⟨t1, t2, x, rfl, h1, h2⟩
  rcases (runs_tick_bind ..).mp h1 with ⟨start, t3, rfl, h3⟩
  rcases (runs_tick_bind ..).mp h3 with ⟨now, t4, rfl, h4⟩
  -- The time is looked at before the only attempt.
  split at h4
  · rename_i hlate
    rcases (runs_ret_iff ..).mp h4 with ⟨rfl, rfl⟩
    rcases conclude_waited _ t2 rfl h2 with ⟨e, rfl⟩
    exact WaitedInVain.late start now e hlate
  rcases (runs_poll_bind ..).mp h4 with ⟨r, t5, rfl, h5⟩
  split at h5
  · rename_i hnone
    -- A failed poll, or one attempt and no byte: both come to `-1`.
    have hend : t5 = [] ∧ x.ret = -1 := by
      split at h5 <;>
        · rcases (runs_ret_iff ..).mp h5 with ⟨rfl, rfl⟩
          exact ⟨rfl, rfl⟩
    rcases hend with ⟨rfl, hret⟩
    rcases conclude_waited x t2 hret h2 with ⟨e, rfl⟩
    exact WaitedInVain.nothing start now r e hnone
  · -- The poll found something, so the wait was not in vain.
    rcases (runs_ret_iff ..).mp h5 with ⟨rfl, rfl⟩
    cases ((runs_ret_iff ..).mp h2).2

/-- A turn reads the header and reports that, unless its wait was in vain. -/
theorem turn_waited [DecimalImpl D] (s : Server) (peer : Int) (buf : Str) (t : Trace D)
    (r : Str ⊕ Exit) (hr : Runs (s.turn peer buf) t r) (hnone : reports t = []) :
    WaitedInVain s peer t := by
  simp only [turn, receive, Prog.bind_def] at hr
  rcases (runs_bind_iff ..).mp hr with ⟨t1, t2, frame, rfl, h1, h2⟩
  rcases (runs_bind_iff ..).mp h1 with ⟨t3, t4, pending, rfl, h3, h4⟩
  cases pending with
  | false =>
      rcases (runs_ret_iff ..).mp h4 with ⟨rfl, rfl⟩
      rcases (runs_ret_iff ..).mp h2 with ⟨rfl, _⟩
      rw [List.append_nil, List.append_nil]
      exact pending_waited s peer t3 h3
  | true =>
      simp only [Bool.not_true, Bool.false_eq_true, if_false] at h4
      rcases (runs_bind_iff ..).mp h4 with ⟨t5, t6, ⟨ok, h⟩, rfl, h5, _⟩
      rcases bestEffortRead_reports s peer _ _ _ t5 ok h h5 with ⟨ret, hm, _⟩
      rw [reports_append, reports_append, reports_append, hm.reports] at hnone
      -- A header was asked for, so there is a report.
      simp only [List.append_eq_nil_iff, reduceCtorEq, false_and, and_false] at hnone

/-- A turn takes the first frame of the stream and makes one exchange of it, unless
    no byte came. -/
theorem turned_exchange [DecimalImpl D] (s : Server) (peer : Int) (buf : Str)
    (contents : List Str) (t : Trace D) (r : Str ⊕ Exit) (hbuf : buf.length = bufSizeOnStack)
    (hformed : ∀ content ∈ contents, WellFormed D content)
    (hstream : received peer t <+: beHeader.frames contents)
    (hcomplete : Complete t) (hunedited : Unedited t) (h : Turned s peer buf t r) :
    r = .inr .broke ∧ Exchanges s peer [] t ∧ reports t = [] ∨
      ∃ x buf' rest, r = .inl buf' ∧ contents = x.content :: rest ∧ Exchanges s peer [x] t := by
  have hfit := fitting_frames contents hformed _ hstream
  have hfits := fun content hc => wellFormed_fits (D := D) content (hformed content hc)
  -- The frame that was taken is the first one, and it decodes as it would alone.
  have htake : ∀ t u content, Taken (D := D) peer buf t content →
      received peer (t ++ u) <+: beHeader.frames contents → received peer u = [] →
      ∃ rest request id method args, contents = content :: rest ∧
        parse (D := D) content = .ok request ∧ IsRequest request id method args ∧
        parse (content ++ buf.drop (headerSize + content.length)) = .ok request := by
    intro t u content ht hpre hu
    rw [received_append, ht.moves.received, hu, ← beHeader.frames_singleton] at hpre
    rcases beHeader.frames_prefix [content] contents [] (List.forall_mem_singleton.mpr ht.fits)
      hfits hpre with ⟨rest, rfl, _⟩
    rcases (hformed content List.mem_cons_self).2.2 with ⟨request, id, method, args, hp, hreq⟩
    refine ⟨rest, request, id, method, args, rfl, hp, hreq, ?_⟩
    rw [Scan.parse_append _ _ (by rw [hp]; simp), hp]
  cases h with
  | unread t got limit reps exit hm hrec =>
      rw [hm.received] at hfit
      -- Frames of such lengths are not refused, so the only exit is the one where nothing
      -- came.
      have hexit := received_broke buf got limit reps exit hbuf hfit hrec
      subst hexit
      rw [Complete, hm.reports] at hcomplete
      cases hrec with
      | idle => exact Or.inl ⟨rfl, exchanges_nil s peer t _ _ hm, hm.reports⟩
      | noHeader got ret _ hret => exact absurd (hcomplete _ (List.mem_singleton_self _)) hret
      | noContent h got ret _ _ hret =>
          exact absurd (hcomplete _ (List.mem_cons_of_mem _ (List.mem_singleton_self _))) hret
  -- The frame holds a request, and the parser ends within it.
  | undecoded t content e ht hparse =>
      rcases htake t [] content ht (by rw [List.append_nil]; exact hstream) rfl with
        ⟨_, _, _, _, _, _, _, _, hok⟩
      rw [hparse] at hok
      cases hok
  | faulted t content f ht hparse =>
      rcases htake t [] content ht (by rw [List.append_nil]; exact hstream) rfl with
        ⟨_, _, _, _, _, _, _, _, hok⟩
      rw [hparse] at hok
      cases hok
  | answered t1 t2 content request exit ht hparse hans =>
      rcases htake t1 t2 content ht hstream (answered_received s peer request t2 exit hans).1 with
        ⟨rest, request', id, method, args, hcontents, hp, hreq, hok⟩
      rw [hparse] at hok
      cases hok
      have hcomplete2 := ((complete_append t1 t2).mp hcomplete).2
      have hunedited2 := ((unedited_append t1 t2).mp hunedited).2
      right
      cases hans with
      | declined t2 j hask =>
          have hj := asked_unedited s request j t2 false hask hunedited2
          subst hj
          exact ⟨_, _, rest, rfl, hcontents,
            declined_exchange s peer buf t1 t2 content j id method args ht hp hreq hask⟩
      | threw t2 j e hask hnot =>
          have hj := asked_unedited s request j t2 true hask hunedited2
          subst hj
          -- A request with all its members is called; looking for one does not throw.
          exact absurd (isRequest_callable j id method args hreq) (hnot id method args)
      | called u v w j id' method' args' outcome exit hask hcall hnet hreply =>
          rcases (unedited_append u (v ++ w)).mp hunedited2 with ⟨hunedited3, hunedited4⟩
          have hj := asked_unedited s request j u true hask hunedited3
          subst hj
          rcases callable_unique j id id' method method' args args'
            (isRequest_callable j id method args hreq) hcall with ⟨rfl, rfl, rfl⟩
          rcases replied_delivered s peer _ w exit
            ((complete_append v w).mp ((complete_append u _).mp hcomplete2).2).2
            ((unedited_append v w).mp hunedited4).2 hreply with ⟨rfl, approved, hdelivered⟩
          exact ⟨_, _, rest, rfl, hcontents,
            called_exchange s peer buf t1 u v w content j id' method' args' _ outcome approved ht hp
              hreq hask hnet (settled_isResponse _ _ _ id' v outcome hnet) hdelivered⟩

/-- How a worker has come to the end of its turns `ts`: with an exchange in each of them,
    or in each but the last, which waited in vain. -/
def Served (s : Server) (peer : Int) (served : Nat) (ts : List (Trace D)) (r : Str ⊕ Exit) :
    Prop :=
  r = .inr .broke ∧ (∃ us w, ts = us ++ [w] ∧ WaitedInVain s peer w ∧ served = us.length) ∨
    ∃ buf, r = .inl buf ∧ served = ts.length

/-- One more turn with an exchange. -/
theorem served_cons (s : Server) (peer : Int) (served : Nat) (t : Trace D)
    (ts : List (Trace D)) (r : Str ⊕ Exit) (h : Served s peer served ts r) :
    Served s peer (served + 1) (t :: ts) r := by
  rcases h with ⟨hexit, us, w, rfl, hw, hlen⟩ | ⟨buf, hend, hlen⟩
  · exact Or.inl ⟨hexit, t :: us, w, rfl, hw, by rw [hlen, List.length_cons]⟩
  · exact Or.inr ⟨buf, hend, by rw [hlen, List.length_cons]⟩

/-- A run takes the frames one after the other and makes an exchange of each. -/
theorem rounds_exchanges [DecimalImpl D] (s : Server) (peer : Int) (buf : Str)
    (ts : List (Trace D)) (r : Str ⊕ Exit) (hr : Rounds (s.turn peer) buf ts r) :
    ∀ contents : List Str, buf.length = bufSizeOnStack →
      (∀ content ∈ contents, WellFormed D content) →
      received peer ts.flatten <+: beHeader.frames contents →
      Complete ts.flatten → Unedited ts.flatten →
      ∃ xs rest, contents = xs.map Exchange.content ++ rest ∧ Exchanges s peer xs ts.flatten ∧
        Served s peer xs.length ts r := by
  have hsize : ∀ buf : Str, buf.length = bufSizeOnStack → headerSize ≤ buf.length := by
    intro buf h
    rw [h]
    decide
  induction hr with
  | halt buf =>
      intro contents _ _ _ _ _
      exact ⟨[], contents, rfl, exchanges_nil s peer [] 0 [] (moves_nil peer 0),
        Or.inr ⟨buf, rfl, rfl⟩⟩
  -- The turn that ends the run has made no exchange.
  | stop buf t exit ht =>
      intro contents hbuf hformed hstream hcomplete hunedited
      rw [List.flatten_singleton] at hstream hcomplete hunedited ⊢
      rcases turned_exchange s peer buf contents t _ hbuf hformed hstream hcomplete hunedited
        (turn_runs s peer buf (hsize buf hbuf) t _ ht) with
        ⟨hexit, hx, hnone⟩ | ⟨x, buf', rest, hinl, _⟩
      · exact ⟨[], contents, rfl, hx,
          Or.inl ⟨hexit, [], t, rfl, turn_waited s peer buf t _ ht hnone, rfl⟩⟩
      · cases hinl
  | next buf buf' t ts r ht _ ih =>
      intro contents hbuf hformed hstream hcomplete hunedited
      rw [List.flatten_cons] at hstream hcomplete hunedited ⊢
      rcases (complete_append t _).mp hcomplete with ⟨hcomplete1, hcomplete2⟩
      rcases (unedited_append t _).mp hunedited with ⟨hunedited1, hunedited2⟩
      rw [received_append] at hstream
      rcases turned_exchange s peer buf contents t _ hbuf hformed
        ((List.prefix_append _ _).trans hstream) hcomplete1 hunedited1
        (turn_runs s peer buf (hsize buf hbuf) t _ ht) with ⟨hexit, _⟩ | ⟨x, _, rest, _, rfl, hx⟩
      · cases hexit
      rcases List.forall_mem_cons.mp hformed with ⟨_, hformed2⟩
      -- The first frame is gone from the stream, and the rest is for the turns that follow.
      rw [hx.received, List.map_singleton, beHeader.frames_singleton, beHeader.frames_cons,
        List.prefix_append_right_inj] at hstream
      rcases ih rest (by rw [turn_length s peer buf buf' (hsize buf hbuf) t ht, hbuf]) hformed2
        hstream hcomplete2 hunedited2 with ⟨xs, rest', rfl, hxs, hend⟩
      exact ⟨x :: xs, rest', rfl, exchanges_append s peer [x] xs t _ hx hxs,
        served_cons s peer xs.length t ts r hend⟩

/-! ## Workers together -/

/-- How a worker's run ends: after all of its turns, or with a wait in vain and the
    descriptor closed. -/
def Finished (s : Server) (peer : Int) (n served : Nat) (t : Trace D) (r : Str ⊕ Exit) : Prop :=
  r = .inr .broke ∧ (∃ u w, t = u ++ (w ++ [⟨Call.close peer, ()⟩]) ∧ WaitedInVain s peer w) ∨
    ∃ buf, r = .inl buf ∧ served = n

/-- A worker that is not refused anything makes an exchange of each frame it takes,
    and it takes one in every turn until it waits for a first byte in vain. -/
theorem worker_exchanges [DecimalImpl D] (s : Server) (peer : Int) (n : Nat) (t : Trace D)
    (r : Str ⊕ Exit) (contents : List Str) (hr : Runs (s.worker peer n) t r)
    (hformed : ∀ content ∈ contents, WellFormed D content)
    (hstream : received peer t <+: beHeader.frames contents)
    (hcomplete : Complete t) (hunedited : Unedited t) :
    ∃ xs rest, contents = xs.map Exchange.content ++ rest ∧ Exchanges s peer xs t ∧
      Finished s peer n xs.length t r := by
  rcases worker_rounds s peer n t r hr with ⟨buf, ts, hts, hlen, rfl⟩
  -- The calls around the turns move nothing and call nobody.
  have hstack := moves_idle (D := D) peer 0 ⟨Call.stack bufSizeOnStack, buf⟩ trivial
  have hclose := moves_closing (D := D) peer r
  rw [← List.singleton_append] at hstream hcomplete hunedited ⊢
  rw [received_append, received_append, hstack.received, hclose.received, List.append_nil,
    List.nil_append] at hstream
  rcases rounds_exchanges s peer buf.1 ts r hts contents buf.2 hformed hstream
    ((complete_append ts.flatten _).mp ((complete_append [_] _).mp hcomplete).2).1
    ((unedited_append ts.flatten _).mp ((unedited_append [_] _).mp hunedited).2).1 with
    ⟨xs, rest, rfl, hxs, hend⟩
  have hall := exchanges_append s peer [] (xs ++ []) _ _ (exchanges_nil s peer _ 0 [] hstack)
    (exchanges_append s peer xs [] _ _ hxs (exchanges_nil s peer _ 0 [] hclose))
  rw [List.append_nil, List.nil_append] at hall
  refine ⟨xs, rest, rfl, hall, ?_⟩
  -- A wait in vain is the last turn, and behind it the descriptor is closed.
  rcases hend with ⟨rfl, us, w, rfl, hw, _⟩ | ⟨buf', rfl, hxs'⟩
  · refine Or.inl ⟨rfl, [⟨Call.stack bufSizeOnStack, buf⟩] ++ us.flatten, w, ?_, hw⟩
    rw [List.flatten_append, List.flatten_singleton, if_pos rfl]
    simp only [List.append_assoc]
  · exact Or.inr ⟨buf', rfl, by rw [hxs', hlen rfl]⟩

/-- Any number of workers in any order of steps: each makes an exchange of each frame
    it takes, as if it were alone. -/
theorem workers_exchange [DecimalImpl D] {ι : Type} [DecidableEq ι] (s : Server)
    (peers : ι → Int) (n : ι → Nat) (joint : List (ι × Ev D)) (ps : ι → Proc D (Str ⊕ Exit))
    (hjoint : Interleaved (fun i => s.worker (peers i) (n i)) joint ps) (i : ι) (r : Str ⊕ Exit)
    (hend : ps i = .ret r) (contents : List Str)
    (hformed : ∀ content ∈ contents, WellFormed D content)
    (hstream : received (peers i) (projection i joint) <+: beHeader.frames contents)
    (hcomplete : Complete (projection i joint)) (hunedited : Unedited (projection i joint)) :
    ∃ xs rest, contents = xs.map Exchange.content ++ rest ∧
      Exchanges s (peers i) xs (projection i joint) ∧
      Finished s (peers i) (n i) xs.length (projection i joint) r := by
  have hreach := interleaved_projection _ ps joint hjoint i
  rw [hend, reaches_ret_iff] at hreach
  exact worker_exchanges s (peers i) (n i) _ r contents hreach hformed hstream hcomplete hunedited

/-- A request for a function that is not there. -/
def callText : Str := text "\x7b\"id\":1,\"method\":\"f\"\x7d"

/-- Two turns of a worker whose peer sends that twice. -/
def twoTurns : Trace Unit × (Str ⊕ Exit) :=
  drive Network.reply (Network.carrying (beHeader.frames [callText, callText]))
    ((bareServer fun _ => none).worker 4 2)

theorem callText_wellFormed : WellFormed Unit callText := by
  have hparse : parse (D := Unit) callText
      = .ok (.object [(Field.id, .integer 1), (Field.method, .string (text "f"))]) := by
    decide +kernel
  exact ⟨by decide, by decide, _, 1, text "f", _, hparse, _, rfl, rfl, rfl, rfl⟩

/-- Two workers, of which one has served two frames and the other has not begun. -/
theorem workers_exchange_two :
    ∃ xs rest, [callText, callText] = xs.map Exchange.content ++ rest ∧
      Exchanges (bareServer fun _ => none) 4 xs twoTurns.1 ∧
      Finished (bareServer fun _ => none) 4 2 xs.length twoTurns.1 twoTurns.2 := by
  have hrun : Runs ((bareServer fun _ => none).worker 4 2) twoTurns.1 twoTurns.2 := runs_drive ..
  let ps : Bool → Proc Unit (Str ⊕ Exit) := fun i =>
    if i then .ret twoTurns.2 else (bareServer fun _ => none).worker 4 2
  -- The joint run is that of the one worker, with the other in its first state.
  have hjoint : Interleaved (fun _ : Bool => (bareServer fun _ => none).worker 4 2)
      (alone true twoTurns.1) ps := by
    rw [interleaved_iff, Bool.forall_bool, projection_alone,
      projection_alone_other false true _ (by decide)]
    exact ⟨Reaches.refl _, (reaches_ret_iff _ _ _).mpr hrun⟩
  have hgot : received 4 twoTurns.1 = beHeader.frames [callText, callText] := by decide +kernel
  have hcomplete : ∀ r ∈ reports twoTurns.1, r.ret = r.size := by decide +kernel
  have hunasked : (requestCalls twoTurns.1 ++ responseCalls twoTurns.1).isEmpty = true := by
    decide +kernel
  have hall := workers_exchange (bareServer fun _ => none) (fun _ : Bool => 4) (fun _ => 2) _ _
    hjoint true twoTurns.2 rfl [callText, callText]
    (List.forall_mem_cons.mpr ⟨callText_wellFormed,
      List.forall_mem_singleton.mpr callText_wellFormed⟩)
    (by rw [projection_alone, hgot]) (by rw [projection_alone]; exact hcomplete)
    (by rw [projection_alone, Unedited, List.isEmpty_iff.mp hunasked]
        exact fun _ h => absurd h List.not_mem_nil)
  rw [projection_alone] at hall
  exact hall

end Server

end Trpc
