import Trpc.Theory.Rpc.Delivery

/-!
# Answers That Are Right

Calls fail: they run into their timeouts, a callback of the server drops the request or the
response, a response comes when nobody waits for it any more. A call that fails may have been
executed, and what it was to return is read away by one of the next. What can be said of a call
that does return a value, behind any number of calls that have failed?

The value is what the function has returned, called with the arguments of this call, by the turn
of the worker that has taken the request of this call. It is not the value of an earlier call of
the same function, and not the value of a call on another connection.

## Main definitions

* `Invocation.Plain`: The worker can report what came of a function.
* `Returns`: A call of a function from which the client has its value.

## Theorems

* `session_turn`: The turn behind a value.
* `responding_returns`: What that turn has called.
* `sessions_answered`: Every call of each client that returns a value returns the right one.
-/

namespace Trpc

open Vsjson Interaction

variable {D : Type}

/-! ## The turn behind a value -/

/-- A call that returns a value has decoded the response of the turn that took its request. -/
theorem session_turn [DecimalImpl D] (s : Server) (peer : Int) (n : Nat) (c0 : Client)
    (before after : List (Client.Task D)) (task : Client.Task D)
    (joint : List (Party × Ev D)) (ps : (i : Party) → Proc D i.Result)
    (hjoint : Interleaved (parties s peer n c0 (before ++ task :: after)) joint ps)
    (hfifo : Fifo c0._socket peer joint) (hfresh : c0._health._state = .noRead)
    (t u : Trace D) (hinit : t ++ u <+: projection .client joint)
    (c c' : Client) (hbefore : Runs (Client.session before c0) t (.ok c))
    (v : task.T.denote D) (hcall : Runs (c.perform task) u (c', .ok (some v)))
    (hwrite : HeadersWhole (t ++ u)) (hread : HeadersRead (t ++ u)) :
    ∃ s1 w s2 buf j rest, projection .server joint = s1 ++ (w ++ s2) ∧
      received peer s1 = sent c0._socket t ∧
      s.Responding peer buf (c.request task.function task.arguments).content w j ∧
      (parse ((Codec.dump j).content ++ rest)).bind (makeResult task.T) = .ok (some v) := by
  -- The moment at which the call returns.
  rcases projection_prefix .client joint (t ++ u) hinit with ⟨now, ⟨later, rfl⟩, hnow⟩
  rcases interleaved_prefix _ ps now later hjoint with ⟨ms, hms⟩
  have hfifo' := fifo_initial _ _ _ now hfifo (List.prefix_append now later)
  have hpaced := conversation_paced s peer _ n c0 _ now ms hms hfifo'
  rw [hnow] at hpaced
  have hfirst : Client.Stands c0._socket ([] : Trace D) c0 :=
    Or.inr ⟨rfl, Health.Aligned.ready [] [] hfresh (fun _ h => absurd h List.not_mem_nil)
      (fun _ h => absurd h List.not_mem_nil) rfl rfl rfl⟩
  have hstands := Client.session_aligned c0._socket before c0 c [] t hfirst
    (paced_initial _ _ _ hpaced (List.prefix_append t u)) ((headersWhole_append t u).mp hwrite).1
    ((headersRead_append t u).mp hread).1 hbefore
  rcases Client.called_value c0._socket (c.setTimeout task.timeout) c' task.T _ t u v hstands hpaced
    ((headersRead_append t u).mp hread).2 (Client.call_runs _ c' _ _ _ u _ hcall) with
    ⟨ws, ys, y, rest, hws, hys, hthen, hput, hgot, hlen, hvalue⟩
  rw [← hnow] at hput hgot
  have hread' := (hfifo' now List.prefix_rfl).1
  rw [hgot] at hread'
  rcases conversation_last s peer _ n c0 _ now ms hms hfifo' ws _ hws hput (by
    intro zs hzs hpre
    rw [hgot] at hpre
    have hle := (beHeader.prefix_of_frames _ zs hys hzs hpre).length_le
    rw [List.length_append, List.length_singleton] at hle
    omega) with ⟨zs, s1, w, s2, buf, j, hcount, hzs, hsent, hsplit, hplace, hresponding, -⟩
  -- There are as many responses as requests, so what was read is the last of them.
  have hall : ys ++ [y] = zs ++ [(Codec.dump j).content] := by
    refine (beHeader.prefix_of_frames _ _ hys hzs (hread'.trans hsent)).eq_of_length ?_
    rw [List.length_append, List.length_append, ← hlen, hcount]
    rfl
  rcases List.append_inj hall (by rw [← hlen, hcount]) with ⟨_, hy⟩
  cases hy
  refine ⟨s1, w, s2 ++ projection .server later, buf, j, rest, ?_, hplace.trans hthen.symm,
    hresponding, hvalue⟩
  rw [projection_append, hsplit]
  simp only [List.append_assoc]

/-! ## What the turn has called -/

/-- What the function has come to can be reported: the value or the message is plain, and the
    response is of a length that its header can hold. -/
structure Invocation.Plain [DecimalImpl D] (x : Invocation D) : Prop where
  result : ∀ v, x.reply = .ok v → PlainValue (x.sig.wrap v)
  message : ∀ code message, x.reply = .error (.protocol code message) → rawSafe message = true
  length : ∀ id, (dump (settled id x.outcome)).length < 4294967296

/-- A call of the function that `task` names, with the arguments that it passes, has returned
    what `v` is made of: `v` itself, if that is the type of its result. -/
structure Returns [DecimalImpl D] (table : Table) (task : Client.Task D) (x : Invocation D)
    (v : task.T.denote D) : Prop where
  executes : Executes table task x
  value : ∃ result, x.reply = .ok result ∧ (x.sig.wrap result).convert task.T = .ok v
  same : ∀ Ts, table task.function = some ⟨Ts, some task.T⟩ → ∃ values : Args D Ts,
    x = ⟨task.function, ⟨Ts, some task.T⟩, values, (.ok v : Except Exn (task.T.denote D))⟩

/-- A response that reports an error is not much longer than the message in it. -/
theorem length_errorResponse [DecimalImpl D] (id code : Int32) (message : Str) :
    (dump (errorResponse id code message : Json D)).length < message.length + 200 := by
  have hid := length_printInt id
  have hcode := length_printInt code
  have hrest : Field.error.length + Field.id.length + Field.jsonrpc.length + Field.code.length
      + Field.message.length + Attribute.version.length < 100 := by decide +kernel
  unfold errorResponse errorObject
  split
  all_goals
    simp only [dump, dumpMembers, printString, List.length_append, List.length_cons,
      List.length_nil, List.isEmpty_cons, List.isEmpty_nil, Bool.false_eq_true, if_false, if_true]
    omega

/-- A client that reads the report of an error has no value of it. -/
theorem error_valueless [DecimalImpl D] (T : Ty) (id : Int32) (e : Exn) (rest : Str)
    (v : T.denote D) (hsafe : rawSafe (caught e).2 = true)
    (hlen : (dump (settled id (.throw e) : Json D)).length < 4294967296)
    (h : (parse ((Codec.dump (settled id (.throw e) : Json D)).content ++ rest)).bind (makeResult T)
      = .ok (some v)) : False := by
  have hprint := errorResponse_printable (D := D) id (caught e).1 (caught e).2 hsafe
  rw [dump_content _ hlen] at h
  rw [settled, parse_dump_append _ hprint rfl, Res.ok_bind, makeResult_errorResponse] at h
  cases h

/-- The same of an error that is the server's own. -/
theorem own_error_valueless [DecimalImpl D] (T : Ty) (id : Int32) (e : Exn) (rest : Str)
    (v : T.denote D) (hsafe : rawSafe (caught e).2 = true) (hshort : (caught e).2.length ≤ 100)
    (h : (parse ((Codec.dump (settled id (.throw e) : Json D)).content ++ rest)).bind (makeResult T)
      = .ok (some v)) : False := by
  refine error_valueless T id e rest v hsafe ?_ h
  have hlen := length_errorResponse (D := D) id (caught e).1 (caught e).2
  rw [settled]
  omega

/-- A turn from whose response a value was read has called the function once, and it has
    returned this value. -/
theorem responding_returns [DecimalImpl D] (s : Server) (peer : Int) (buf w : Str)
    (task : Client.Task D) (t : Trace D) (j : Json D) (rest : Str) (v : task.T.denote D)
    (hplain : task.Plain) (hw : Client.Requested task w) (hunedited : Unedited t)
    (hresults : ∀ x ∈ invocations t, x.Plain) (h : s.Responding peer buf w t j)
    (hvalue : (parse ((Codec.dump j).content ++ rest)).bind (makeResult task.T) = .ok (some v)) :
    ∃ x, invocations t = [x] ∧ Returns s._table task x v := by
  rcases hw with ⟨token, rfl⟩
  have hrequest : IsRequest (requestOf token task.function task.arguments) token task.function
      (.array task.arguments) := ⟨_, rfl, rfl, rfl, rfl⟩
  cases h with
  | mk t1 t2 t3 t4 t5 request shown _ id method args outcome ht hp h2 hc h3 h4 _ _ hs =>
      rw [dump_content _ (hplain.length token),
        parse_dump_append _ (requestOf_printable token _ _ hplain.function hplain.arguments) rfl]
        at hp
      cases hp
      -- Neither callback has changed what it was shown.
      rcases (unedited_append t1 _).mp hunedited with ⟨_, hunedited⟩
      rcases (unedited_append t2 _).mp hunedited with ⟨hunedited2, hunedited⟩
      rcases (unedited_append t4 t5).mp ((unedited_append t3 _).mp hunedited).2 with ⟨hunedited4, _⟩
      obtain rfl := s.asked_unedited _ shown t2 true h2 hunedited2
      obtain rfl := s.shown_unedited _ j t4 true h4 hunedited4
      rcases callable_unique _ token id task.function method _ args
        (isRequest_callable _ token _ _ hrequest) hc with ⟨-, rfl, rfl⟩
      have hcalls : invocations (t1 ++ (t2 ++ (t3 ++ (t4 ++ t5)))) = invocations t3 := by
        simp only [invocations_append, ht.moves.silent.invocations, (h2.unmoved peer).2.2.2,
          (h4.unmoved peer).2.2.2, hs.invocations, List.nil_append, List.append_nil]
      rw [hcalls] at hresults ⊢
      cases h3 with
      | unbound =>
          exact (own_error_valueless _ id _ rest v (by decide +kernel) (by decide +kernel)
            hvalue).elim
      | refused sig e hsig hunpack =>
          rcases unpack_cases sig (.array task.arguments) with
            ⟨_, _, _, _, hok⟩ | ⟨_, hthrow⟩ | ⟨_, _, what, hthrow⟩
          · rw [hunpack] at hok
            cases hok
          · rw [hunpack] at hthrow
            cases hthrow
            exact (own_error_valueless _ id _ rest v (by decide +kernel) (by decide +kernel)
              hvalue).elim
          · rw [hunpack] at hthrow
            cases hthrow
            exact (own_error_valueless _ id (.std what) rest v
              (by decide +kernel : rawSafe Attribute.internalError = true)
              (by decide +kernel : Attribute.internalError.length ≤ 100) hvalue).elim
      | threw sig tuple e hsig hunpack =>
          have hx := hresults _ (List.mem_singleton_self _)
          refine (error_valueless _ id e rest v (caught_safe e ?_) (hx.length id) hvalue).elim
          rintro code message rfl
          exact hx.message code message rfl
      | returned sig tuple result hsig hunpack =>
          have hx := hresults _ (List.mem_singleton_self _)
          have hprint := resultResponse_printable id _ (hx.result result rfl)
          have hlookup : SortedMap.lookup Field.result
              [(Field.id, Json.integer id), (Field.jsonrpc, .string Attribute.version),
                (Field.result, sig.wrap result)] = some (sig.wrap result) := rfl
          have hlen : (dump (settled id (.ok (sig.wrap result)))).length < 4294967296 :=
            hx.length id
          rw [dump_content _ hlen] at hvalue
          rw [settled, parse_dump_append _ hprint rfl, Res.ok_bind, resultResponse,
            Client.makeResult_result _ _ rfl, hlookup, Option.getD_some] at hvalue
          have hconv : (sig.wrap result).convert task.T = .ok v := by
            cases hres : (sig.wrap result).convert task.T with
            | ok v' =>
                rw [hres, Res.ok_bind] at hvalue
                cases hvalue
                rfl
            | throw e =>
                rw [hres] at hvalue
                cases hvalue
            | fault f =>
                rw [hres] at hvalue
                cases hvalue
          refine ⟨_, rfl, ⟨rfl, hsig, hunpack⟩, ⟨result, rfl, hconv⟩, fun Ts hT => ?_⟩
          rw [hsig] at hT
          cases hT
          -- What was made of a value of type `T` converts back to it.
          have hback : Res.ok result = Res.ok v :=
            (Json.convert_toJson task.T (result : task.T.denote D)).symm.trans hconv
          cases hback
          exact ⟨tuple, rfl⟩

/-- Whatever else fails, a call that returns a value returns what the function has returned when
    the worker of its connection called it for this request, with the arguments of this call;
    provided that no header was cut, that the callbacks do not edit and that what came of the
    functions can be reported. -/
theorem sessions_answered {ι : Type} [DecidableEq ι] [DecimalImpl D] (s : Server) (peer : ι → Int)
    (n : ι → Nat) (c0 : ι → Client) (tasks : ι → List (Client.Task D))
    (joint : List ((ι × Party) × Ev D)) (qs : (i : ι × Party) → Proc D i.2.Result)
    (hjoint : Interleaved (connections s peer n c0 tasks) joint qs)
    (hfifo : ∀ i, Fifo (c0 i)._socket (peer i) (link i joint))
    (hfresh : ∀ i, (c0 i)._health._state = .noRead)
    (hunedited : ∀ i, Unedited (projection (i, .server) joint))
    (hresults : ∀ i, ∀ x ∈ invocations (projection (i, .server) joint), x.Plain)
    (i : ι) (before after : List (Client.Task D)) (task : Client.Task D)
    (htasks : tasks i = before ++ task :: after) (hplain : task.Plain)
    (t u : Trace D) (hinit : t ++ u <+: projection (i, .client) joint)
    (hwrite : HeadersWhole (t ++ u)) (hread : HeadersRead (t ++ u))
    (c c' : Client) (hbefore : Runs (Client.session before (c0 i)) t (.ok c))
    (v : task.T.denote D) (hcall : Runs (c.perform task) u (c', .ok (some v))) :
    ∃ s1 w s2 x, projection (i, .server) joint = s1 ++ (w ++ s2) ∧
      received (peer i) s1 = sent (c0 i)._socket t ∧ invocations w = [x] ∧
      Returns s._table task x v := by
  have hpair := link_joint s peer n c0 tasks joint qs hjoint i
  rw [htasks] at hpair
  rw [← projection_link] at hinit
  rcases session_turn s (peer i) (n i) (c0 i) before after task (link i joint) _ hpair (hfifo i)
    (hfresh i) t u hinit c c' hbefore v hcall hwrite hread with
    ⟨s1, w, s2, buf, j, rest, hsplit, hplace, hresponding, hvalue⟩
  rw [projection_link] at hsplit
  have hquiet := hunedited i
  have hall := hresults i
  rw [hsplit] at hquiet hall
  have hquiet := ((unedited_append w s2).mp ((unedited_append s1 _).mp hquiet).2).1
  have hall : ∀ x ∈ invocations w, x.Plain := by
    intro x hx
    refine hall x ?_
    rw [invocations_append, invocations_append]
    exact List.mem_append_right _ (List.mem_append_left _ hx)
  rcases responding_returns s (peer i) buf _ task w j rest v hplain ⟨_, rfl⟩ hquiet hall hresponding
    hvalue with ⟨x, hx, hreturns⟩
  exact ⟨s1, w, s2, x, hsplit, hplace, hx, hreturns⟩

/-- What a function has come to that returns 7. -/
theorem seven_plain (x : Invocation Unit) (hx : x.outcome = .ok (.integer 7)) : x.Plain where
  result := by
    intro v hv
    rw [Invocation.outcome, hv] at hx
    rw [Res.ok.inj hx]
    exact ⟨trivial, trivial, trivial⟩
  message := by
    intro code message hm
    rw [Invocation.outcome, hm] at hx
    cases hx
  length := by
    intro id
    have hid := length_printInt id
    have hrest : Field.id.length + Field.jsonrpc.length + Field.result.length
        + Attribute.version.length + (printInt 7).length < 100 := by decide +kernel
    rw [hx]
    simp only [settled, resultResponse, dump, dumpMembers, printString, List.length_append,
      List.length_cons, List.length_nil, List.isEmpty_cons, List.isEmpty_nil, Bool.false_eq_true,
      if_false, if_true]
    omega

/-- One connection and one call, which returns 7. -/
theorem sessions_answered_seven : ∃ s1 w s2 x,
    projection ((), Party.server) (lone sevenJoint) = s1 ++ (w ++ s2) ∧ received 4 s1 = [] ∧
      invocations w = [x] ∧ Returns sevenTable Client.callF x (7 : Int32) := by
  have hout : (invocations (projection .server sevenJoint)).map Invocation.outcome
      = [.ok (.integer 7)] := by
    rw [sevenJoint_server]
    decide +kernel
  have hcall := sevenCall_runs bareClient calledOnce (by decide +kernel)
  refine sessions_answered (D := Unit) (bareServer sevenTable) (fun _ : Unit => 4) (fun _ => 1)
    (fun _ => bareClient) (fun _ => [Client.callF]) (lone sevenJoint) _
    (lone_joint _ 4 1 bareClient [Client.callF] sevenJoint _ sevenJoint_pair) ?_ (fun _ => rfl)
    ?_ ?_ () [] [] Client.callF rfl callF_plain [] _ ?_ (by decide +kernel) (by decide +kernel)
    bareClient calledOnce (Runs.ret _) (7 : Int32) hcall
  · intro _
    rw [link_lone]
    exact piped_fifo 3 4 sevenJoint (by decide +kernel)
  · intro _
    rw [← projection_link, link_lone]
    exact sevenJoint_unedited
  · intro _ x hx
    rw [← projection_link, link_lone] at hx
    have hmem := List.mem_map_of_mem (f := Invocation.outcome) hx
    rw [hout, List.mem_singleton] at hmem
    exact seven_plain x hmem
  · rw [← projection_link, link_lone, sevenJoint_client]
    rfl

end Trpc
