import Trpc.Theory.Rpc.Conversation
import Trpc.Theory.Rpc.Dispatch
import Trpc.Theory.Rpc.Outcome
import Trpc.Theory.Rpc.Service
import Trpc.Theory.Text.RoundTrip

/-!
# Calls Across a Connection

What a call is for: it returns what the function returns, as if it were called in
place, and the function runs once. A client and a worker are joined as in
`Conversation`, the client has made any calls before, and this time its transfers
complete.

The call passes through eleven steps, on both sides and on the way there and back.
Texts survive printing and parsing because they hold nothing that has a meaning to the
parser. The one text that the program prints and that nobody has looked at is the
message of an exception: a function may throw a `protocol::Exception` with a quote in
it, and then the client's parser throws where the call should return nothing.

## Main definitions

* `PlainText`, `PlainValue`: What may be passed and returned.
* `Level`: As many responses as requests.
* `Transparent`: What a call is to come to.

## Theorems

* `called_whole`: A call whose transfers complete.
* `session_level`: A session of such calls.
* `call_transparent`: When a call is transparent.
* `call_opaque`: A message with a quote in it.
-/

namespace Trpc

open Vsjson Interaction

variable {D : Type}

/-! ## Values -/

/-- A string without quotes, backslashes and terminators. -/
def PlainText (s : Str) : Prop := ∀ c ∈ s, c ≠ Ch.quote ∧ c ≠ Ch.backslash ∧ c ≠ Ch.nul

/-- A value made of nulls, booleans, integers, plain strings, arrays and objects with
    plain keys. -/
def PlainValue (j : Json D) : Prop := j.Wf ∧ j.NoDecimal ∧ j.Strings PlainText

theorem rawSafe_of_plainText (s : Str) (h : PlainText s) : rawSafe s = true :=
  rawSafe_of_plain s (fun c hc => ⟨(h c hc).1, (h c hc).2.1⟩)

theorem printable_of_plainValue (j : Json D) (h : PlainValue j) : j.Printable :=
  ⟨⟨h.1, Json.strings_mono PlainText _ rawSafe_of_plainText j h.2.2⟩, h.2.1⟩

/-- The arguments of a call, each through the `Json` constructor of its type. -/
def Args.toJson : (Ts : List Ty) → Args D Ts → List (Json D)
  | [], _ => []
  | T :: Ts, (v, vs) => T.toJson v :: toJson Ts vs

/-- There are as many values as types. -/
theorem length_toJson (Ts : List Ty) :
    ∀ vs : Args D Ts, (Args.toJson Ts vs).length = Ts.length := by
  induction Ts with
  | nil => exact fun _ => rfl
  | cons T Ts ih =>
      rintro ⟨v, vs⟩
      rw [Args.toJson, List.length_cons, List.length_cons, ih vs]

/-- Each value is converted back to what it was. -/
theorem makeArgs_toJson [DecimalImpl D] (Ts : List Ty) :
    ∀ vs : Args D Ts, makeArgs Ts (Args.toJson Ts vs) = .ok vs := by
  induction Ts with
  | nil => exact fun _ => rfl
  | cons T Ts ih =>
      rintro ⟨v, vs⟩
      simp only [Args.toJson, makeArgs, Json.movedConvert_toJson, Res.bind_def, Res.ok_bind, ih vs]
      rfl

/-- The proxy of a function gets the arguments that were passed. -/
theorem unpack_toJson [DecimalImpl D] (sig : Signature) (vs : Args D sig.params) :
    unpack sig (.array (Args.toJson sig.params vs)) = .ok vs := by
  -- The values are in an array, so their number is looked at next.
  have hunpack : unpack sig (Json.array (Args.toJson sig.params vs))
      = if sig.params.length ≠ (Args.toJson sig.params vs).length then
          .throw (.protocol Attribute.invalidParamsCode Attribute.invalidParams)
        else makeArgs sig.params (Args.toJson sig.params vs) := rfl
  rw [hunpack, length_toJson, if_neg (not_not.mpr rfl), makeArgs_toJson]

theorem unpack_length [DecimalImpl D] (sig : Signature) (js : List (Json D))
    (vs : Args D sig.params) (h : unpack sig (.array js) = .ok vs) :
    sig.params.length = js.length := by
  rcases unpack_ok sig (.array js) vs h with ⟨js', hjs, hconv⟩
  cases hjs
  exact converted_length sig.params js vs hconv

/-! ## Messages -/

/-- An object is printed and read back if its members are. -/
theorem printable_object (ks : List Str) (ms : List (Str × Json D))
    (hnames : ks.Pairwise (· < ·) ∧ ∀ k ∈ ks, rawSafe k = true) (hks : ms.map Prod.fst = ks)
    (hms : ∀ e ∈ ms, e.2.Printable) : (Json.object ms).Printable := by
  subst hks
  refine ⟨(Json.readable_object ms).mpr ⟨List.pairwise_map.mp hnames.1, fun e he => ?_⟩, ?_⟩
  · exact ⟨hnames.2 e.1 (List.mem_map_of_mem he), (hms e he).1⟩
  · exact (Json.noDecimalMembers_iff ms).mpr (fun e he => (hms e he).2)

theorem printable_integer (i : Int32) : (Json.integer i : Json D).Printable :=
  ⟨⟨trivial, trivial⟩, trivial⟩

theorem printable_string (s : Str) (h : rawSafe s = true) : (Json.string s : Json D).Printable :=
  ⟨⟨trivial, h⟩, trivial⟩

theorem printable_version : (Json.string Attribute.version : Json D).Printable :=
  printable_string _ (by decide +kernel)

theorem printable_array (js : List (Json D)) (h : ∀ j ∈ js, j.Printable) :
    (Json.array js).Printable :=
  ⟨(Json.readable_array js).mpr (fun j hj => (h j hj).1),
    (Json.noDecimalElems_iff js).mpr (fun j hj => (h j hj).2)⟩

/-- A request with a plain method and plain parameters is read back. -/
theorem requestOf_printable (token : Int32) (method : Str) (params : List (Json D))
    (hmethod : PlainText method) (hparams : ∀ j ∈ params, PlainValue j) :
    (requestOf token method params).Printable := by
  refine printable_object [Field.id, Field.jsonrpc, Field.method, Field.params] _
    (by decide +kernel) rfl ?_
  have harray := printable_array params (fun j hj => printable_of_plainValue j (hparams j hj))
  simp only [List.forall_mem_cons]
  exact ⟨printable_integer token, printable_version,
    printable_string method (rawSafe_of_plainText method hmethod), harray,
    fun _ h => absurd h List.not_mem_nil⟩

theorem resultResponse_printable (id : Int32) (result : Json D) (h : PlainValue result) :
    (resultResponse id result).Printable := by
  refine printable_object [Field.id, Field.jsonrpc, Field.result] _ (by decide +kernel) rfl ?_
  simp only [List.forall_mem_cons]
  exact ⟨printable_integer id, printable_version, printable_of_plainValue result h,
    fun _ h => absurd h List.not_mem_nil⟩

/-- A response that reports an error is read back if the message in it is. -/
theorem errorResponse_printable (id code : Int32) (message : Str) (h : rawSafe message = true) :
    (errorResponse id code message : Json D).Printable := by
  have herror : (errorObject code message : Json D).Printable := by
    -- An empty message is left out of the error.
    unfold errorObject
    split
    · refine printable_object [Field.code] _ (by decide +kernel) rfl ?_
      exact List.forall_mem_singleton.mpr (printable_integer code)
    · refine printable_object [Field.code, Field.message] _ (by decide +kernel) rfl ?_
      exact List.forall_mem_cons.mpr ⟨printable_integer code,
        List.forall_mem_singleton.mpr (printable_string message h)⟩
  refine printable_object [Field.error, Field.id, Field.jsonrpc] _ (by decide +kernel) rfl ?_
  simp only [List.forall_mem_cons]
  exact ⟨herror, printable_integer id, printable_version, fun _ h => absurd h List.not_mem_nil⟩

/-- What a client makes of a result. -/
theorem makeResult_resultResponse [DecimalImpl D] (T : Ty) (id : Int32) (v : T.denote D) :
    makeResult T (resultResponse id (T.toJson v)) = .ok (some v) := by
  -- The result is what was put under that name, and no error is there.
  have hlookup : SortedMap.lookup Field.result
      [(Field.id, Json.integer id), (Field.jsonrpc, .string Attribute.version),
        (Field.result, T.toJson v)] = some (T.toJson v) := rfl
  rw [resultResponse, Client.makeResult_result T _ rfl, hlookup, Option.getD_some,
    Json.convert_toJson]
  rfl

/-- And of an error. -/
theorem makeResult_errorResponse [DecimalImpl D] (T : Ty) (id code : Int32) (message : Str) :
    makeResult T (errorResponse id code message : Json D) = .ok none := by
  rw [errorResponse, Client.makeResult_error T _ (errorObject code message) rfl]
  unfold errorObject
  split <;> rfl

/-! ## The client's side -/

namespace Client

/-- A client that has nothing to read away passes its health check at once. -/
theorem check_ready (c : Client) (t : Trace D) (x : Except Fault (Health × Bool))
    (hopen : 0 ≤ c._socket) (hready : c._health._state = .noRead)
    (hr : Runs (c._health.check c._socket) t x) : t = [] ∧ x = .ok (c._health, true) := by
  unfold Health.check at hr
  -- There is a socket, and nothing is left from before.
  rw [if_neg (by omega), if_pos hready] at hr
  exact (runs_ret_iff ..).mp hr

/-- A call whose transfers complete has sent its request and has read a response,
    unless the header of that announced more than the buffer holds. -/
theorem called_whole [DecimalImpl D] (c c' : Client) (T : Ty) (d : Dumped) (u : Trace D)
    (r : Res (Option (T.denote D))) (hopen : 0 ≤ c._socket) (hready : c._health._state = .noRead)
    (hcomplete : Complete u) (h : Called c T d u c' r) :
    sent c._socket u = d.frame ∧
      ((∃ head, head.length = headerSize ∧ bufSizeOnStack < headerSize + ntohl head ∧
          received c._socket u = head ∧ c'._socket = socketInvalid) ∨
        ∃ y rest, beHeader.Fits y ∧ received c._socket u = beHeader.frame y ∧
          c'._socket = c._socket ∧ c'._health._state = .noRead ∧
          r = (parse (y ++ rest)).bind (makeResult T)) := by
  have hcheck := fun t x => check_ready (D := D) c t x hopen hready
  cases h with
  | unhealthy t h hc => cases (hcheck _ _ hc).2
  | faulted t f hc => cases (hcheck _ _ hc).2
  | unwritten t1 t2 h put reps c' hc hm hw =>
      -- A send that failed or fell short is no complete transfer.
      have hwhole := ((complete_append t1 t2).mp hcomplete).2
      rw [Complete, hm.reports] at hwhole
      cases hw with
      | closed _ _ e hfail =>
          rcases hfail with ⟨x, hx, hret⟩
          exact absurd (hwhole x hx) hret
      | unsent x e hret he =>
          have hfull : x.ret = headerSize := hwhole _ (List.mem_singleton_self _)
          rw [hfull] at hret
          exact absurd hret (by decide)
  | answered t1 t2 t3 h reps got reps' c' r hc hm hreps hm' hback =>
      -- The request is whole, so only the way back can differ.
      rcases hcheck _ _ hc with ⟨rfl, hh⟩
      cases hh
      have hwhole := ((complete_append t2 t3).mp hcomplete).2
      rw [Complete, hm'.reports] at hwhole
      have hput : sent c._socket ([] ++ (t2 ++ t3)) = d.frame := by
        rw [List.nil_append, sent_append, hm.sent, hm'.sent, List.append_nil]
      have hgot : received c._socket ([] ++ (t2 ++ t3)) = got := by
        rw [List.nil_append, received_append, hm.received, hm'.received, List.nil_append]
      refine ⟨hput, ?_⟩
      rw [hgot]
      cases hback with
      | noHeader x e hret he => exact absurd (hwhole _ (List.mem_singleton_self _)) hret
      | tooLong _ _ hhead hlong => exact Or.inl ⟨got, hhead, hlong, rfl, rfl⟩
      | noContent head x e hhead hfit hret he =>
          exact absurd (hwhole _ (List.mem_cons_of_mem _ (List.mem_singleton_self _))) hret
      | whole y rest reps' hfits hroom => exact Or.inr ⟨y, rest, hfits, rfl, rfl, hready, rfl⟩

/-- A client that has read a response to each of its requests, or is closed. -/
def Level (fd : Int) (t : Trace D) (c : Client) : Prop :=
  c._socket < 0 ∨ c._socket = fd ∧ c._health._state = .noRead ∧
    ∃ ws ys, (∀ w ∈ ws, beHeader.Fits w) ∧ (∀ y ∈ ys, beHeader.Fits y) ∧
      sent fd t = beHeader.frames ws ∧ received fd t = beHeader.frames ys ∧ ws.length = ys.length

/-- It is so behind a call whose transfers complete, if it was so before. -/
theorem called_level [DecimalImpl D] (fd : Int) (c c' : Client) (T : Ty) (j : Json D)
    (t u : Trace D) (r : Res (Option (T.denote D))) (hlevel : Level fd t c)
    (hcomplete : Complete u) (h : Called c T (Codec.dump j) u c' r) : Level fd (t ++ u) c' := by
  -- Without a socket a call does nothing.
  by_cases hopen : 0 ≤ c._socket
  swap
  · rw [(called_closed c c' T _ u r h (not_le.mp hopen)).2]
    exact Or.inl (not_le.mp hopen)
  rcases hlevel with hclosed | ⟨rfl, hready, ws, ys, hws, hys, hput, hgot, hlen⟩
  · omega
  -- A length that is too large closes the client. Otherwise one more request has one more
  -- response.
  rcases called_whole c c' T _ u r hopen hready hcomplete h with
    ⟨hput', ⟨_, _, _, _, hclosed⟩ | ⟨y, rest, hy, hgot', hsame, hready', _⟩⟩
  · left
    rw [hclosed]
    decide
  · refine Or.inr ⟨hsame, hready', ws ++ [(Codec.dump j).content], ys ++ [y], ?_, ?_, ?_, ?_, ?_⟩
    · exact List.forall_mem_append.mpr ⟨hws, List.forall_mem_singleton.mpr (content_fits j)⟩
    · exact List.forall_mem_append.mpr ⟨hys, List.forall_mem_singleton.mpr hy⟩
    · rw [sent_append, hput, hput', dump_frame, beHeader.frames_append, beHeader.frames_singleton]
    · rw [received_append, hgot, hgot', beHeader.frames_append, beHeader.frames_singleton]
    · rw [List.length_append, List.length_append, hlen, List.length_singleton,
        List.length_singleton]

/-- A session of calls whose transfers complete leaves the client level. -/
theorem session_level [DecimalImpl D] (fd : Int) (tasks : List (Task D)) :
    ∀ (c c' : Client) (t u : Trace D), Level fd t c → Complete u →
      Runs (session tasks c) u (.ok c') → Level fd (t ++ u) c' := by
  induction tasks with
  | nil =>
      intro c c' t u hlevel _ hr
      rcases (runs_ret_iff ..).mp hr with ⟨rfl, hc⟩
      cases hc
      rwa [List.append_nil]
  | cons task tasks ih =>
      intro c c' t u hlevel hcomplete hr
      rcases session_cons_runs task tasks c c' u hr with ⟨u1, u2, c1, r, rfl, hcall, _, hrest⟩
      rcases (complete_append u1 u2).mp hcomplete with ⟨hcomplete1, hcomplete2⟩
      -- The timeout of the task has no part in what is level.
      have hlevel1 := called_level fd (c.setTimeout task.timeout) c1 _ _ t u1 r hlevel hcomplete1
          hcall
      rw [← List.append_assoc]
      exact ih c1 c' (t ++ u1) u2 hlevel1 hcomplete2 hrest

end Client

/-! ## The worker's side -/

/-- The turn that serves a plain request has called the function of that name with the
    arguments in it. -/
theorem responding_plain [DecimalImpl D] (s : Server) (peer : Int) (buf : Str) (id : Int32)
    (method : Str) (args : List (Json D)) (w : Trace D) (j : Json D)
    (hask : s._requestCallback = false) (hshow : s._responseCallback = false)
    (hplain : (requestOf id method args).Printable)
    (hsize : headerSize + (dump (requestOf id method args)).length ≤ Server.bufSizeOnStack)
    (h : s.Responding peer buf (Codec.dump (requestOf id method args)).content w j) :
    ∃ t outcome, NetCalled s._table method (.array args) t outcome ∧ j = settled id outcome ∧
      invocations w = invocations t := by
  have hrequest : IsRequest (requestOf id method args) id method (.array args) :=
    ⟨_, rfl, rfl, rfl, rfl⟩
  have hbound : Server.bufSizeOnStack < 4294967296 := by decide
  rw [dump_content _ (by omega)] at h
  cases h with
  | mk t1 t2 t3 t4 t5 request shown _ id' method' args' outcome ht hp h2 hc h3 h4 _ _ hs =>
      -- The worker parses the request that the client printed.
      rw [parse_dump_append _ hplain rfl] at hp
      cases hp
      cases h2 with
      | set _ _ hset =>
          rw [hask] at hset
          cases hset
      | unset =>
          cases h4 with
          | set _ _ hset =>
              rw [hshow] at hset
              cases hset
          | unset =>
              rcases callable_unique _ id id' method method' _ args'
                (isRequest_callable _ id method _ hrequest) hc with ⟨rfl, rfl, rfl⟩
              refine ⟨t3, outcome, h3, rfl, ?_⟩
              simp only [invocations_append, ht.moves.silent.invocations, hs.invocations,
                List.nil_append, List.append_nil]

/-- What a call is to come to, where `ran` is what has run on its behalf: what the
    function has returned, if it is bound and the arguments are of the types of its
    parameters; and nothing if the function has thrown, and if there is none to run. -/
structure Transparent [DecimalImpl D] (table : Table) (task : Client.Task D)
    (ran : List (Invocation D)) (r : Res (Option (task.T.denote D))) : Prop where
  bound : ∀ (Ts : List Ty) (values : Args D Ts), table task.function = some ⟨Ts, some task.T⟩ →
    task.arguments = Args.toJson Ts values →
    ∃ reply : Except Exn (task.T.denote D),
      ran = [⟨task.function, ⟨Ts, some task.T⟩, values, reply⟩] ∧
        (∀ v, reply = .ok v → r = .ok (some v)) ∧ ∀ e, reply = .error e → r = .ok none
  unbound : table task.function = none → ran = [] ∧ r = .ok none
  mismatched : ∀ sig, table task.function = some sig →
    sig.params.length ≠ task.arguments.length → ran = [] ∧ r = .ok none

/-- The messages of the exceptions that are not the protocol's own are safe. -/
theorem caught_safe (e : Exn)
    (h : ∀ code message, e = .protocol code message → rawSafe message = true) :
    rawSafe (caught e).2 = true := by
  -- Only the protocol's own exceptions bring a message along.
  cases e with
  | protocol code message => exact h code message rfl
  | json what => exact (by decide +kernel : rawSafe Attribute.parseError = true)
  | std what => exact (by decide +kernel : rawSafe Attribute.internalError = true)

/-- A client that reads the response to what was called finds the call transparent. -/
theorem transparent_of_called [DecimalImpl D] (table : Table) (task : Client.Task D)
    (id : Int32) (t : Trace D) (outcome : Res (Json D)) (rest : Str)
    (hnet : NetCalled table task.function (.array task.arguments) t outcome)
    (hresults : ∀ x ∈ invocations t, ∀ v, x.reply = .ok v → PlainValue (x.sig.wrap v))
    (hsafe : ∀ x ∈ invocations t, ∀ code message, x.reply = .error (.protocol code message) →
      rawSafe message = true) :
    Transparent table task (invocations t)
      ((parse (dump (settled id outcome) ++ rest)).bind (makeResult task.T)) := by
  -- An error comes through only if its message ends where it is meant to.
  have herror : ∀ e : Exn, rawSafe (caught e).2 = true →
      (parse (D := D) (dump (settled id (.throw e) : Json D) ++ rest)).bind (makeResult task.T)
        = .ok none := by
    intro e he
    have hprint := errorResponse_printable (D := D) id (caught e).1 (caught e).2 he
    rw [settled, parse_dump_append _ hprint rfl, Res.ok_bind, makeResult_errorResponse]
  cases hnet with
  | unbound hnone =>
      -- The message of the worker's own error is a fixed text.
      have hsafe := herror (.protocol Attribute.methodNotFoundCode Attribute.methodNotFound)
        (by decide +kernel)
      refine ⟨fun Ts values hsig => ?_, fun _ => ⟨rfl, hsafe⟩, fun sig hsig => ?_⟩
      · rw [hnone] at hsig
        cases hsig
      · rw [hnone] at hsig
        cases hsig
  | refused sig e hsig hunpack =>
      refine ⟨fun Ts values hsig' hargs => ?_, fun hnone => ?_, fun sig' hsig' hlen => ?_⟩
      · -- Arguments made for the signature unpack.
        rw [hsig] at hsig'
        cases hsig'
        rw [hargs, unpack_toJson ⟨Ts, some task.T⟩ values] at hunpack
        cases hunpack
      · rw [hsig] at hnone
        cases hnone
      · -- Nothing but the number of arguments has been looked at.
        rw [hsig] at hsig'
        cases hsig'
        rcases unpack_cases sig (.array task.arguments) with
          ⟨js, tuple, hjs, hconv, _⟩ | ⟨_, hthrow⟩ | ⟨_, hmis, _⟩
        · cases hjs
          exact absurd (converted_length _ _ tuple hconv) hlen
        · rw [hunpack] at hthrow
          cases hthrow
          exact ⟨rfl, herror _ (by decide +kernel)⟩
        · exact absurd ⟨_, rfl, hlen⟩ hmis
  | returned sig tuple v hsig hunpack =>
      refine ⟨fun Ts values hsig' hargs => ?_, fun hnone => ?_, fun sig' hsig' hlen => ?_⟩
      · rw [hsig] at hsig'
        cases hsig'
        rw [hargs, unpack_toJson ⟨Ts, some task.T⟩ values] at hunpack
        cases hunpack
        -- The value is read back as it was written, and converted back to what it was.
        have hplain : PlainValue (task.T.toJson v) := hresults _ (List.mem_singleton_self _) v rfl
        have hprint := resultResponse_printable id _ hplain
        refine ⟨.ok v, rfl, fun v' hv => ?_, fun e he => (by cases he)⟩
        cases hv
        change (parse (dump (resultResponse id (task.T.toJson v)) ++ rest)).bind _ = _
        rw [parse_dump_append _ hprint rfl, Res.ok_bind]
        exact makeResult_resultResponse task.T id v
      · rw [hsig] at hnone
        cases hnone
      · rw [hsig] at hsig'
        cases hsig'
        exact absurd (unpack_length sig _ tuple hunpack) hlen
  | threw sig tuple e hsig hunpack =>
      refine ⟨fun Ts values hsig' hargs => ?_, fun hnone => ?_, fun sig' hsig' hlen => ?_⟩
      · rw [hsig] at hsig'
        cases hsig'
        rw [hargs, unpack_toJson ⟨Ts, some task.T⟩ values] at hunpack
        cases hunpack
        refine ⟨.error e, rfl, fun v hv => (by cases hv), fun _ _ => herror e (caught_safe e ?_)⟩
        rintro code message rfl
        exact hsafe _ (List.mem_singleton_self _) code message rfl
      · rw [hsig] at hnone
        cases hnone
      · rw [hsig] at hsig'
        cases hsig'
        exact absurd (unpack_length sig _ tuple hunpack) hlen

/-! ## Both sides -/

/-- A call of which nothing gets in the way. In `past` the client has made the calls
    `before`, of whatever kind, and `during` it makes the call of `task`, with a socket;
    its transfers complete, in any pieces, and there are no callbacks. What is passed and
    returned is plain, and the request and the response, whichever it is, fit the
    buffers. -/
structure Unhindered [DecimalImpl D] (s : Server) (peer : Int) (n : Nat) (c0 : Client)
    (before after : List (Client.Task D)) (task : Client.Task D)
    (past during : List (Party × Ev D)) (c c' : Client) (r : Res (Option (task.T.denote D))) :
    Prop where
  joint : ∃ ps, Interleaved (parties s peer n c0 (before ++ task :: after)) (past ++ during) ps
  fifo : Fifo c0._socket peer (past ++ during)
  fresh : c0._health._state = .noRead
  unasked : s._requestCallback = false
  unshown : s._responseCallback = false
  before : Runs (Client.session before c0) (projection .client past) (.ok c)
  connected : 0 ≤ c._socket
  called : Runs (c.perform task) (projection .client during) (c', r)
  complete : Complete (projection .client (past ++ during))
  method : PlainText task.function
  arguments : ∀ j ∈ task.arguments, PlainValue j
  results : ∀ x ∈ invocations (projection .server during), ∀ v, x.reply = .ok v →
    PlainValue (x.sig.wrap v)
  request_fits : headerSize
    + (dump (requestOf (c._token + 1) task.function task.arguments)).length ≤ Client.bufSizeOnStack
  response_fits : ∀ t outcome, NetCalled s._table task.function (.array task.arguments) t outcome →
    invocations t = invocations (projection .server during) →
    headerSize + (dump (settled (c._token + 1) outcome)).length ≤ Client.bufSizeOnStack

/-- What the worker has called, when the client has read the beginning `g` of a
    response. -/
theorem unhindered_served [DecimalImpl D] (s : Server) (peer : Int) (n : Nat) (c0 : Client)
    (before after : List (Client.Task D)) (task : Client.Task D)
    (past during : List (Party × Ev D)) (c c' : Client) (r : Res (Option (task.T.denote D)))
    (h : Unhindered s peer n c0 before after task past during c c' r) (ws ys : List Str) (g : Str)
    (hws : ∀ w ∈ ws, beHeader.Fits w) (hys : ∀ y ∈ ys, beHeader.Fits y)
    (hlen : ws.length = ys.length)
    (hput : sent c0._socket (projection .client past) = beHeader.frames ws)
    (hgot : received c0._socket (projection .client past) = beHeader.frames ys)
    (hput' : sent c0._socket (projection .client during)
      = (Codec.dump (requestOf (c._token + 1) task.function task.arguments)).frame)
    (hgot' : received c0._socket (projection .client during) = g) (hg : g ≠ []) :
    ∃ t outcome, NetCalled s._table task.function (.array task.arguments) t outcome ∧
      invocations (projection .server during) = invocations t ∧
      headerSize + (dump (settled (c._token + 1) outcome)).length ≤ Client.bufSizeOnStack ∧
      g <+: beHeader.frame (dump (settled (c._token + 1) outcome)) := by
  rcases h.joint with ⟨ps, hjoint⟩
  have hreach : Reaches (s.worker peer n) (projection .server past ++ projection .server during)
      (ps .server) := by
    rw [← projection_append]
    exact interleaved_projection _ ps _ hjoint .server
  -- What the two have of each other's bytes, before the call and now.
  have hthen := h.fifo past (List.prefix_append past during)
  have hnow := h.fifo (past ++ during) List.prefix_rfl
  -- The client has sent a request more than it has read responses.
  have hsent : sent c0._socket (projection .client (past ++ during)) = beHeader.frames
      (ws ++ [(Codec.dump (requestOf (c._token + 1) task.function task.arguments)).content]) := by
    rw [projection_append, sent_append, hput, hput', dump_frame, beHeader.frames_append,
      beHeader.frames_singleton]
  have hread : received c0._socket (projection .client (past ++ during))
      = beHeader.frames ys ++ g := by
    rw [projection_append, received_append, hgot, hgot']
  rw [hput, hgot] at hthen
  rw [hsent, hread, projection_append] at hnow
  rcases s.worker_served peer n _ _ _ hreach ws ys _ g
    (List.forall_mem_append.mpr ⟨hws, List.forall_mem_singleton.mpr (content_fits _)⟩) hys hlen
    hthen.2 hthen.1 hnow.2 hnow.1 hg with ⟨buf, w, j, hresp, hbegins, hcalls⟩
  rcases responding_plain s peer buf _ _ _ w j h.unasked h.unshown
    (requestOf_printable _ _ _ h.method h.arguments) h.request_fits hresp with
    ⟨t, outcome, hnet, rfl, hsame⟩
  have hfits := h.response_fits t outcome hnet (hsame.symm.trans hcalls.symm)
  have hbound : Client.bufSizeOnStack < 4294967296 := by decide
  -- The response fits its buffer, so the length in its header is its own.
  rw [dump_content _ (by omega)] at hbegins
  exact ⟨t, outcome, hnet, hcalls.trans hsame, hfits, hbegins⟩

/-- A call is transparent, whatever calls the client has made before and in whatever
    pieces the bytes have come, provided that no exception of the protocol is thrown
    with a message that is not safe between quotes. -/
theorem call_transparent [DecimalImpl D] (s : Server) (peer : Int) (n : Nat) (c0 : Client)
    (before after : List (Client.Task D)) (task : Client.Task D)
    (past during : List (Party × Ev D)) (c c' : Client) (r : Res (Option (task.T.denote D)))
    (h : Unhindered s peer n c0 before after task past during c c' r)
    (hsafe : ∀ x ∈ invocations (projection .server during), ∀ code message,
      x.reply = .error (.protocol code message) → rawSafe message = true) :
    Transparent s._table task (invocations (projection .server during)) r := by
  have hcomplete := h.complete
  rw [projection_append, complete_append] at hcomplete
  have hfirst : Client.Level c0._socket ([] : Trace D) c0 :=
    Or.inr ⟨rfl, h.fresh, [], [], fun _ h => absurd h List.not_mem_nil,
      fun _ h => absurd h List.not_mem_nil, rfl, rfl, rfl⟩
  have hlevel := Client.session_level c0._socket before c0 c [] _ hfirst hcomplete.1 h.before
  rw [List.nil_append] at hlevel
  have hopen := h.connected
  rcases hlevel with hclosed | ⟨hfd, hready, ws, ys, hws, hys, hput, hgot, hlen⟩
  · omega
  -- All calls so far have read a response each, so this one's is the next.
  have hwhole := Client.called_whole (c.setTimeout task.timeout) c' task.T _ _ r hopen hready
    hcomplete.2 (Client.call_runs _ c' task.T task.function task.arguments _ r h.called)
  -- The timeout changes neither the socket nor the token.
  change sent c._socket (projection .client during)
    = (Codec.dump (requestOf (c._token + 1) task.function task.arguments)).frame ∧ _ at hwhole
  rcases hwhole with ⟨hput', hend⟩
  have hserved := fun g =>
    unhindered_served s peer n c0 before after task past during c c' r h ws ys g hws hys hlen hput
      hgot (hfd ▸ hput')
  have hbound : Client.bufSizeOnStack < 4294967296 := by decide
  rcases hend with ⟨head, hhead, hlong, hgot', _⟩ | ⟨y, rest, hy, hgot', _, _, rfl⟩
  · -- The header would be that of a response that fits.
    have hne : head ≠ [] := by
      rintro rfl
      cases hhead
    rcases hserved head (hfd ▸ hgot') hne with ⟨t, outcome, _, _, hfits, hbegins⟩
    rw [← List.append_nil head] at hbegins
    have hcontent : beHeader.Fits (dump (settled (c._token + 1) outcome)) := by
      rw [← dump_content _ (by omega)]
      exact content_fits _
    have hsame : ntohl head = _ := (beHeader.frame_head head [] _ hhead hcontent hbegins).1
    omega
  · rcases hserved _ (hfd ▸ hgot') (beHeader.frame_ne_nil y) with
      ⟨t, outcome, hnet, hcalls, hfits, hbegins⟩
    have hcontent : beHeader.Fits (dump (settled (c._token + 1) outcome)) := by
      rw [← dump_content _ (by omega)]
      exact content_fits _
    rw [← List.append_nil (beHeader.frame y),
      ← List.append_nil (beHeader.frame (dump _))] at hbegins
    -- Of two frames that begin alike, neither is longer.
    have hsame := (beHeader.frame_prefix y _ [] [] hy hcontent hbegins).1
    have hresults := h.results
    rw [hcalls] at hresults hsafe ⊢
    rw [hsame]
    exact transparent_of_called s._table task _ t outcome rest hnet hresults hsafe

/-! ## Runs on given streams -/

/-- What the proxy makes of what the function has come to. -/
def Invocation.outcome (x : Invocation D) : Res (Json D) :=
  match x.reply with
  | .ok v => .ok (x.sig.wrap v)
  | .error e => .throw e

/-- A call in which something has run comes to what that has come to. -/
theorem netCalled_outcome [DecimalImpl D] (table : Table) (method : Str) (args : Json D)
    (t : Trace D) (outcome out : Res (Json D)) (h : NetCalled table method args t outcome)
    (hout : (invocations t).map Invocation.outcome = [out]) : outcome = out := by
  -- Where nothing has run there is nothing to compare.
  cases h with
  | unbound => cases hout
  | refused => cases hout
  | returned => exact List.head_eq_of_cons_eq hout
  | threw => exact List.head_eq_of_cons_eq hout

/-- One call by a new client, and one turn of a worker. -/
theorem unhindered_one (joint : List (Party × Ev Unit)) (c' : Client) (r : Res (Option Int32))
    (exit : Str ⊕ Exit) (out : Res (Json Unit))
    (hclient : Runs (bareClient.perform Client.callF) (projection .client joint) (c', r))
    (hfault : ∀ f, r ≠ .fault f)
    (hserver : Runs ((bareServer sevenTable).worker 4 1) (projection .server joint) exit)
    (hpiped : piped 3 4 [] [] joint = true)
    (hcomplete : ∀ x ∈ reports (projection .client joint), x.ret = x.size)
    (hout : (invocations (projection .server joint)).map Invocation.outcome = [out])
    (hplain : ∀ v, out = .ok v → PlainValue v)
    (hfits : headerSize + (dump (settled 1 out)).length ≤ Client.bufSizeOnStack) :
    Unhindered (bareServer sevenTable) 4 1 bareClient [] [] Client.callF [] joint bareClient
      c' r where
  joint := by
    have hsession : Runs (Client.session [Client.callF] bareClient) (projection .client joint)
        (.ok c') := by
      rw [← List.append_nil (projection _ _)]
      exact Client.session_of_runs Client.callF [] bareClient c' _ [] r _ hclient hfault
        (Runs.ret _)
    exact ⟨_, interleaved_done _ 4 1 bareClient c' [Client.callF] exit joint hsession hserver⟩
  fifo := piped_fifo 3 4 joint hpiped
  fresh := rfl
  unasked := rfl
  unshown := rfl
  before := Runs.ret _
  connected := by decide
  called := hclient
  complete := hcomplete
  method := by
    have hall : ∀ c ∈ text "f", c ≠ Ch.quote ∧ c ≠ Ch.backslash ∧ c ≠ Ch.nul := by
      decide +kernel
    exact hall
  arguments := fun _ h => absurd h List.not_mem_nil
  results := by
    intro x hx v hv
    have hmem := List.mem_map_of_mem (f := Invocation.outcome) hx
    -- The one function that ran has come to `out`.
    rw [hout, List.mem_singleton, Invocation.outcome, hv] at hmem
    exact hplain _ hmem.symm
  request_fits := by decide +kernel
  response_fits := by
    intro t outcome hnet hsame
    -- And whatever the worker settles is what came of it.
    rw [← hsame] at hout
    rw [netCalled_outcome _ _ _ t outcome out hnet hout]
    exact hfits

/-- The function returns 7. -/
theorem call_transparent_seven :
    Transparent sevenTable Client.callF (invocations (projection .server sevenJoint))
      (.ok (some (7 : Int32))) := by
  have hout : (invocations (projection .server sevenJoint)).map Invocation.outcome
      = [.ok (.integer 7)] := by
    rw [sevenJoint_server]
    decide +kernel
  have hcall := sevenCall_runs bareClient calledOnce (by decide +kernel)
  rw [← sevenJoint_client] at hcall
  refine call_transparent (D := Unit) (bareServer sevenTable) 4 1 bareClient [] [] Client.callF []
    sevenJoint bareClient calledOnce _ (unhindered_one sevenJoint calledOnce _ _ _ hcall
      (fun f h => (by cases h)) sevenWorker_runs (by decide +kernel) ?_ hout ?_
      (by decide +kernel)) ?_
  · rw [sevenJoint_client]
    decide +kernel
  · rintro v hv
    cases hv
    exact ⟨trivial, trivial, trivial⟩
  · intro x hx code message hreply
    have hmem := List.mem_map_of_mem (f := Invocation.outcome) hx
    rw [hout, List.mem_singleton, Invocation.outcome, hreply] at hmem
    cases hmem

/-- A call that is answered with an error whose message is a quote. -/
def quoteCall : Trace Unit × (Client × Res (Option Int32)) :=
  sevenCall bareClient (Codec.dump (errorResponse (D := Unit) 1 1 [Ch.quote])).frame

/-- The turn of the worker. The function throws an exception with that message. -/
def quoteTurn : Trace Unit × (Str ⊕ Exit) :=
  drive Network.reply { Network.carrying (sevenRequest 1) with
    bound := fun _ _ => .error (.protocol 1 [Ch.quote]) } ((bareServer sevenTable).worker 4 1)

/-- The request, the turn, and the way back. -/
def quoteJoint : List (Party × Ev Unit) :=
  alone .client (quoteCall.1.take 10) ++ (alone .server quoteTurn.1 ++
    alone .client (quoteCall.1.drop 10))

theorem quoteJoint_client : projection .client quoteJoint = quoteCall.1 := by
  simp only [quoteJoint, projection_append, projection_alone,
    projection_alone_other Party.client Party.server _ (by decide), List.nil_append,
    List.take_append_drop]

theorem quoteJoint_server : projection .server quoteJoint = quoteTurn.1 := by
  simp only [quoteJoint, projection_append, projection_alone,
    projection_alone_other Party.server Party.client _ (by decide), List.nil_append,
    List.append_nil]

/-- The text of the response ends behind the quote for the client's parser, which throws. -/
theorem call_opaque :
    ¬ ∀ (s : Server) (peer : Int) (n : Nat) (c0 : Client) (before after : List (Client.Task Unit))
        (task : Client.Task Unit) (past during : List (Party × Ev Unit)) (c c' : Client)
        (r : Res (Option (task.T.denote Unit))),
      Unhindered s peer n c0 before after task past during c c' r →
      Transparent s._table task (invocations (projection .server during)) r := by
  intro h
  have hthrow : quoteCall.2 = (calledOnce,
      .throw (.json "object parse failure: unknown reason")) := by decide +kernel
  have hout : (invocations (projection .server quoteJoint)).map Invocation.outcome
      = [.throw (.protocol 1 [Ch.quote])] := by
    rw [quoteJoint_server]
    decide +kernel
  have hcall := runs_drive Network.reply
    (Network.carrying (Codec.dump (errorResponse (D := Unit) 1 1 [Ch.quote])).frame)
    (bareClient.perform Client.callF)
  change Runs _ quoteCall.1 quoteCall.2 at hcall
  rw [hthrow, ← quoteJoint_client] at hcall
  have hserver : Runs ((bareServer sevenTable).worker 4 1) (projection .server quoteJoint)
      quoteTurn.2 := by
    rw [quoteJoint_server]
    exact runs_drive ..
  have htransparent := h _ _ _ _ _ _ _ _ _ _ _ _ (unhindered_one quoteJoint calledOnce _ _ _ hcall
    (fun f h => (by cases h)) hserver (by decide +kernel)
    (by rw [quoteJoint_client]; decide +kernel) hout (fun v hv => (by cases hv))
    (by decide +kernel))
  -- A transparent call would have returned nothing and thrown nothing.
  rcases htransparent.bound [] () (by decide) rfl with ⟨reply, hran, _, herror⟩
  rw [hran] at hout
  cases reply with
  | ok v => cases hout
  | error e => cases herror e rfl

end Trpc
