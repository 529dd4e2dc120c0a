import Trpc.Theory.Rpc.Accounts
import Trpc.Theory.Rpc.Alignment
import Trpc.Theory.Rpc.Requests

/-!
# A Client and its Worker

One client and the worker that serves its connection, joined by two streams that
deliver in order, in any pieces and as late as they like. The client makes one call
after the other, any transfer may fail, and the client does not compare ids. Whose
response does a call return?

The client's account of the connection and the server's have to be put together.
From the server's side there are never more responses than requests, and the
responses are to some of the requests, in order. From the client's side a call that
returns a value has sent as many requests as it has read responses. So every
request was answered, and the last response is to the last request.

All this rests on the client's being at a boundary when it seems to be, for which
no header may have been cut: `session_split_replay` is a run in which one was, and
in which a call returns the value of another call.

## Main definitions

* `Party`, `parties`: The client and the worker.
* `Fifo`: The streams between them.
* `HasId`, `KeepsIds`: The ids of messages, and callbacks that leave them alone.

## Theorems

* `conversation_account`: The server's account, for the client.
* `called_value`: The client's account of a call that returns a value.
* `session_paired`: A call returns the response to its own request.
* `session_split_replay`: A run with a cut header in which one does not.
-/

namespace Trpc

open Vsjson Interaction

variable {D : Type}

/-! ## The two parties -/

/-- Who moves. -/
inductive Party where
  | client
  | server
  deriving DecidableEq

/-- How a party can end. -/
def Party.Result : Party → Type
  | .client => Except Fault Client
  | .server => Str ⊕ Exit

/-- A client with calls to make, and a worker of the server. -/
def parties [DecimalImpl D] (s : Server) (peer : Int) (n : Nat) (c : Client)
    (tasks : List (Client.Task D)) : (i : Party) → Proc D i.Result
  | .client => Client.session tasks c
  | .server => s.worker peer n

/-- What one party has read is a prefix of what the other has sent, at every moment. -/
def Fifo (fd peer : Int) (joint : List (Party × Ev D)) : Prop :=
  ∀ u, u <+: joint →
    received fd (projection .client u) <+: sent peer (projection .server u) ∧
      received peer (projection .server u) <+: sent fd (projection .client u)

theorem fifo_initial (fd peer : Int) (joint u : List (Party × Ev D)) (h : Fifo fd peer joint)
    (hu : u <+: joint) : Fifo fd peer u := fun v hv => h v (hv.trans hu)

/-- When the client has sent whole requests, the worker has answered some of them, in
    order, and what the client has read of that is among the responses. -/
theorem conversation_account [DecimalImpl D] (s : Server) (peer fd : Int) (n : Nat) (c : Client)
    (tasks : List (Client.Task D)) (joint : List (Party × Ev D))
    (ps : (i : Party) → Proc D i.Result)
    (hjoint : Interleaved (parties s peer n c tasks) joint ps) (hfifo : Fifo fd peer joint)
    (ws : List Str) (hws : ∀ w ∈ ws, beHeader.Fits w)
    (hput : sent fd (projection .client joint) = beHeader.frames ws) :
    ∃ answered zs, answered.Sublist ws.zipIdx ∧ (∀ z ∈ zs, beHeader.Fits z) ∧
      sent peer (projection .server joint) <+: beHeader.frames zs ∧
      List.Forall₂ (s.Responded peer (projection .server joint)
        (sent peer (projection .server joint) = beHeader.frames zs)) answered zs := by
  have hreach : Reaches (s.worker peer n) (projection .server joint) (ps .server) :=
    interleaved_projection _ ps joint hjoint .server
  rcases s.worker_account peer n _ _ hreach with ⟨taken, answered, zs, hacc⟩
  -- What the worker has taken it has read, and that was sent by the client.
  have hpre : beHeader.frames taken <+: beHeader.frames ws := by
    rw [← hput]
    exact hacc.took.trans (hfifo joint List.prefix_rfl).2
  rcases beHeader.prefix_of_frames taken ws hacc.taken_fits hws hpre with ⟨rest, rfl⟩
  refine ⟨answered, zs, hacc.sublist.trans ?_, hacc.responses_fit, hacc.put, hacc.responded⟩
  rw [List.zipIdx_append]
  exact List.sublist_append_left _ _

/-- The worker does not send more than the client expects. -/
theorem conversation_paced [DecimalImpl D] (s : Server) (peer fd : Int) (n : Nat) (c : Client)
    (tasks : List (Client.Task D)) (joint : List (Party × Ev D))
    (ps : (i : Party) → Proc D i.Result)
    (hjoint : Interleaved (parties s peer n c tasks) joint ps) (hfifo : Fifo fd peer joint) :
    Paced fd (projection .client joint) := by
  intro t ht ws hws hput
  -- A moment of the client's run is one of the joint run.
  rcases projection_prefix .client joint t ht with ⟨u, ⟨v, rfl⟩, rfl⟩
  rcases interleaved_prefix _ ps u v hjoint with ⟨ms, hms⟩
  have hfifo' := fifo_initial fd peer _ u hfifo (List.prefix_append u v)
  rcases conversation_account s peer fd n c tasks u ms hms hfifo' ws hws hput with
    ⟨answered, zs, hsub, hzs, hpre, hall⟩
  refine ⟨zs, hzs, ?_, (hfifo' u List.prefix_rfl).1.trans hpre⟩
  rw [← hall.length_eq, ← List.length_zipIdx (l := ws) (i := 0)]
  exact hsub.length_le

/-- When the client has sent whole requests and has read so much that there are as many
    responses, the last of them is to the last request, and was written behind what was
    read of the others. -/
theorem conversation_last [DecimalImpl D] (s : Server) (peer fd : Int) (n : Nat) (c : Client)
    (tasks : List (Client.Task D)) (joint : List (Party × Ev D))
    (ps : (i : Party) → Proc D i.Result)
    (hjoint : Interleaved (parties s peer n c tasks) joint ps) (hfifo : Fifo fd peer joint)
    (ws : List Str) (x : Str) (hws : ∀ w ∈ ws ++ [x], beHeader.Fits w)
    (hput : sent fd (projection .client joint) = beHeader.frames (ws ++ [x]))
    (hmany : ∀ zs, (∀ z ∈ zs, beHeader.Fits z) →
      received fd (projection .client joint) <+: beHeader.frames zs → ws.length < zs.length) :
    ∃ zs s1 w s2 buf j, zs.length = ws.length ∧
      (∀ z ∈ zs ++ [(Codec.dump j).content], beHeader.Fits z) ∧
      sent peer (projection .server joint) <+: beHeader.frames (zs ++ [(Codec.dump j).content]) ∧
      projection .server joint = s1 ++ (w ++ s2) ∧ received peer s1 = beHeader.frames ws ∧
      s.Responding peer buf x w j ∧
      (sent peer (projection .server joint) = beHeader.frames (zs ++ [(Codec.dump j).content]) →
        sent peer w = beHeader.frame (Codec.dump j).content) := by
  rcases conversation_account s peer fd n c tasks joint ps hjoint hfifo (ws ++ [x]) hws hput with
    ⟨answered, zs, hsub, hzs, hsent, hall⟩
  have hread := hfifo joint List.prefix_rfl
  have hle := hsub.length_le
  have hcount := hall.length_eq
  have hlt := hmany zs hzs (hread.1.trans hsent)
  rw [List.length_zipIdx, List.length_append, List.length_singleton] at hle
  -- As many responses as requests: none of the requests is left out.
  have hwhole : answered = (ws ++ [x]).zipIdx :=
    hsub.eq_of_length (by rw [List.length_zipIdx, List.length_append, List.length_singleton]; omega)
  subst hwhole
  -- The last of the pairs.
  rcases List.eq_nil_or_concat' zs with rfl | ⟨zs, z, rfl⟩
  · exact absurd hlt (Nat.not_lt_zero _)
  rw [List.length_zipIdx, List.length_append, List.length_append, List.length_singleton,
    List.length_singleton] at hcount
  have hlast := List.forall₂_drop_append _ _ _ hall
  rw [List.zipIdx_append, Nat.zero_add, ← Nat.succ_injective hcount,
    ← List.length_zipIdx (l := ws) (i := 0), List.drop_left] at hlast
  rcases (List.forall₂_cons.mp hlast).1 with
    ⟨s1, w, s2, buf, j, front, hsplit, hfront, hgot, hplace, hresponding, rfl, hfinished⟩
  -- Whatever it was taken behind are the other requests.
  have hbehind : beHeader.frames front <+: beHeader.frames (ws ++ [x]) := by
    rw [← hgot, ← hput]
    refine List.IsPrefix.trans ?_ hread.2
    rw [hsplit, received_append]
    exact List.prefix_append _ _
  rcases beHeader.prefix_of_frames front (ws ++ [x]) hfront hws hbehind with ⟨us, hus⟩
  rw [List.length_zipIdx] at hplace
  rcases List.append_inj hus hplace with ⟨rfl, _⟩
  exact ⟨zs, s1, w, s2, buf, j, (Nat.succ_injective hcount).symm, hzs, hsent, hsplit, hgot,
    hresponding, hfinished⟩

/-! ## A call that returns a value -/

/-- A call that returns a value has read one response for each request. -/
theorem Client.called_value [DecimalImpl D] (fd : Int) (c c' : Client) (T : Ty) (j : Json D)
    (t u : Trace D) (v : T.denote D) (hstands : Client.Stands fd t c) (hpaced : Paced fd (t ++ u))
    (hread : HeadersRead u) (h : Client.Called c T (Codec.dump j) u c' (.ok (some v))) :
    ∃ ws ys y rest, (∀ w ∈ ws ++ [(Codec.dump j).content], beHeader.Fits w) ∧
      (∀ z ∈ ys ++ [y], beHeader.Fits z) ∧ sent fd t = beHeader.frames ws ∧
      sent fd (t ++ u) = beHeader.frames (ws ++ [(Codec.dump j).content]) ∧
      received fd (t ++ u) = beHeader.frames (ys ++ [y]) ∧ ws.length = ys.length ∧
      (parse (y ++ rest)).bind (makeResult T) = .ok (some v) := by
  generalize hr : (Res.ok (some v) : Res (Option (T.denote D))) = r at h
  cases h with
  | unhealthy => cases hr
  | faulted => cases hr
  | unwritten => cases hr
  | answered t1 t2 t3 x reps got reps' c' r hc hm _ hm' hback =>
      -- A client that is closed gets through no health check.
      rcases hstands with hclosed | ⟨rfl, ha⟩
      · unfold Health.check at hc
        rw [if_pos hclosed] at hc
        cases ((runs_ret_iff ..).mp hc).2
      have hpre : Paced c._socket (t ++ t1) := paced_initial _ _ _ hpaced
        (by rw [← List.append_assoc]; exact List.prefix_append _ _)
      -- Behind the check the client has read a response to all it sent before.
      rcases Client.written_aligned _ j t t1 t2 _ x reps ha hpre
        ((headersRead_append t1 _).mp hread).1 hc hm with
        ⟨ws, ys, hws, hys, hbefore, hput, hgot, hlen, _⟩
      cases hback with
      | noHeader => cases hr
      | tooLong => cases hr
      | noContent => cases hr
      | whole y rest reps' hfits =>
          refine ⟨ws, ys, y, rest, ?_, ?_, hbefore, ?_, ?_, hlen, rfl⟩
          · exact List.forall_mem_append.mpr ⟨hws, List.forall_mem_singleton.mpr (content_fits j)⟩
          · exact List.forall_mem_append.mpr ⟨hys, List.forall_mem_singleton.mpr hfits⟩
          · rw [← hput]
            simp only [sent_append, hm'.sent, List.append_nil]
          · rw [beHeader.frames_append, ← hgot, beHeader.frames_singleton]
            simp only [received_append, hm'.received, List.append_assoc]

/-! ## Ids -/

/-- A message with an `int` under `id`. -/
def HasId (j : Json D) (id : Int32) : Prop :=
  ∃ ms, j = .object ms ∧ SortedMap.lookup Field.id ms = some (.integer id)

/-- The callbacks leave the ids of the messages alone. -/
def KeepsIds (t : Trace D) : Prop :=
  ∀ x ∈ requestCalls t ++ responseCalls t, ∀ id, HasId x.1 id → HasId x.2.2 id

theorem keepsIds_append (t u : Trace D) : KeepsIds (t ++ u) ↔ KeepsIds t ∧ KeepsIds u := by
  simp only [KeepsIds, requestCalls_append, responseCalls_append, List.forall_mem_append]
  exact and_and_and_comm

/-- The id a request is called under is the one in it. -/
theorem callable_id [DecimalImpl D] (j : Json D) (id id' : Int32) (method : Str) (args : Json D)
    (h : Callable j id method args) (h' : HasId j id') : id = id' := by
  rcases h with ⟨ms, v, rfl, hid, hint, _⟩
  rcases h' with ⟨ms', hms, hid'⟩
  cases hms
  rw [hid] at hid'
  cases hid'
  cases hint
  rfl

theorem isResponse_hasId (id : Int32) (response : Json D) (h : IsResponse id response) :
    HasId response id := by
  rcases isResponse_carries id response h with ⟨ms, hms, hid, _⟩
  exact ⟨ms, hms, hid⟩

/-- A response has the id of its request. -/
theorem Server.responding_id [DecimalImpl D] (s : Server) (peer : Int) (buf x : Str) (t : Trace D)
    (request j : Json D) (id : Int32) (hparse : parse x = .ok request) (hid : HasId request id)
    (hkeeps : KeepsIds t) (h : s.Responding peer buf x t j) : HasId j id := by
  cases h with
  | mk t1 t2 t3 t4 t5 request' shown j id' method args outcome ht hp h2 hc h3 h4 =>
      rw [Scan.parse_append _ _ (by rw [hparse]; simp), hparse] at hp
      cases hp
      rcases (keepsIds_append t1 _).mp hkeeps with ⟨_, hkeeps⟩
      rcases (keepsIds_append t2 _).mp hkeeps with ⟨hkeeps2, hkeeps⟩
      rcases (keepsIds_append t3 _).mp hkeeps with ⟨_, hkeeps⟩
      rcases (keepsIds_append t4 _).mp hkeeps with ⟨hkeeps4, _⟩
      -- The id passes the request callback, the call, and the response callback.
      have hshown : HasId shown id := by
        cases h2 with
        | unset => exact hid
        | set => exact hkeeps2 _ (List.mem_append_left _ (List.mem_singleton_self _)) id hid
      rw [callable_id shown id' id method args hc hshown] at h4
      have hsettled := isResponse_hasId id _ (settled_isResponse _ _ _ id t3 outcome h3)
      cases h4 with
      | unset => exact hsettled
      | set => exact hkeeps4 _ (List.mem_append_right _ (List.mem_singleton_self _)) id hsettled

/-! ## Sessions -/

/-- Every frame on a stream holds a text that the parser finishes within it. -/
def Finished (D : Type) [DecimalImpl D] (stream : Str) : Prop :=
  ∀ zs, (∀ z ∈ zs, beHeader.Fits z) → beHeader.frames zs <+: stream →
    ∀ z ∈ zs, parse (D := D) z ≠ .fault .overrun

/-- Whenever a call returns a value, it has decoded the response that the worker wrote
    for its own request, which carries its own token: provided that no header was cut,
    that the request and the responses are texts that read back by themselves, and that
    the callbacks leave ids alone. -/
theorem session_paired [DecimalImpl D] (s : Server) (peer : Int) (n : Nat) (c0 : Client)
    (before after : List (Client.Task D)) (task : Client.Task D)
    (joint : List (Party × Ev D)) (ps : (i : Party) → Proc D i.Result)
    (hjoint : Interleaved (parties s peer n c0 (before ++ task :: after)) joint ps)
    (hfifo : Fifo c0._socket peer joint) (hfresh : c0._health._state = .noRead)
    (t u : Trace D) (hinit : t ++ u <+: projection .client joint)
    (c c' : Client) (hbefore : Runs (Client.session before c0) t (.ok c))
    (v : task.T.denote D) (hcall : Runs (c.perform task) u (c', .ok (some v)))
    (hwrite : HeadersWhole (t ++ u)) (hread : HeadersRead (t ++ u))
    (request : Json D)
    (hrequest : parse (c.request task.function task.arguments).content = .ok request)
    (hid : HasId request (c._token + 1))
    (hkeeps : KeepsIds (projection .server joint))
    (htexts : Finished D (sent peer (projection .server joint))) :
    ∃ s1 w s2 buf j, projection .server joint = s1 ++ (w ++ s2) ∧
      received peer s1 = sent c0._socket t ∧
      s.Responding peer buf (c.request task.function task.arguments).content w j ∧
      sent peer w = beHeader.frame (Codec.dump j).content ∧ HasId j (c._token + 1) ∧
      (parse (Codec.dump j).content).bind (makeResult task.T) = .ok (some v) := by
  -- The moment at which the call returns.
  rcases projection_prefix .client joint (t ++ u) hinit with ⟨now, ⟨later, rfl⟩, hnow⟩
  rcases interleaved_prefix _ ps now later hjoint with ⟨ms, hms⟩
  have hfifo' := fifo_initial _ _ _ now hfifo (List.prefix_append now later)
  have hpaced := conversation_paced s peer _ n c0 _ now ms hms hfifo'
  rw [hnow] at hpaced
  have hfirst : Client.Stands c0._socket ([] : Trace D) c0 :=
    Or.inr ⟨rfl, Health.Aligned.ready [] [] hfresh (fun _ h => absurd h List.not_mem_nil)
      (fun _ h => absurd h List.not_mem_nil) rfl rfl rfl⟩
  have hstands := Client.session_aligned c0._socket before c0 c [] t hfirst
    (paced_initial _ _ _ hpaced (List.prefix_append t u)) ((headersWhole_append t u).mp hwrite).1
    ((headersRead_append t u).mp hread).1 hbefore
  rw [List.nil_append] at hstands
  rcases Client.called_value c0._socket (c.setTimeout task.timeout) c' task.T _ t u v hstands hpaced
    ((headersRead_append t u).mp hread).2 (Client.call_runs _ c' _ _ _ u _ hcall) with
    ⟨ws, ys, y, rest, hws, hys, hbefore', hput, hgot, hlen, hvalue⟩
  rw [← hnow] at hput hgot
  have hmany : ∀ zs, (∀ z ∈ zs, beHeader.Fits z) →
      received c0._socket (projection .client now) <+: beHeader.frames zs →
      ws.length < zs.length := by
    intro zs hzs hpre
    rw [hgot] at hpre
    have hle := (beHeader.prefix_of_frames _ zs hys hzs hpre).length_le
    rw [List.length_append, List.length_singleton] at hle
    omega
  rcases conversation_last s peer _ n c0 _ now ms hms hfifo' ws _ hws hput hmany with
    ⟨zs, s1, w, s2, buf, j, hcount, hzs, hsent, hsplit, hplace, hresponding, hwhole⟩
  -- The client has read all that the worker has written.
  have hread' := (hfifo' now List.prefix_rfl).1
  rw [hgot] at hread'
  have hall : ys ++ [y] = zs ++ [(Codec.dump j).content] := by
    refine (beHeader.prefix_of_frames _ _ hys hzs (hread'.trans hsent)).eq_of_length ?_
    rw [List.length_append, List.length_append, ← hlen, hcount]
    rfl
  rcases List.append_inj hall (by rw [← hlen, hcount]) with ⟨_, hy⟩
  cases hy
  have hserver : projection .server (now ++ later)
      = s1 ++ (w ++ (s2 ++ projection .server later)) := by
    rw [projection_append, hsplit]
    simp only [List.append_assoc]
  -- The response ends within its frame, so the buffer behind it does not matter.
  have hfinished : parse (D := D) (Codec.dump j).content ≠ .fault .overrun := by
    refine htexts (ys ++ [(Codec.dump j).content]) hys ?_ _
      (List.mem_append_right _ (List.mem_singleton_self _))
    rw [← hgot, projection_append, sent_append]
    exact (hfifo' now List.prefix_rfl).1.trans (List.prefix_append _ _)
  rw [Scan.parse_append _ _ hfinished] at hvalue
  rw [hserver, keepsIds_append, keepsIds_append] at hkeeps
  exact ⟨s1, w, _, buf, j, hserver, hplace.trans hbefore'.symm, hresponding,
    hwhole (hsent.eq_of_length_le (hall ▸ hread').length_le),
    s.responding_id peer buf _ w request j _ hrequest hid hkeeps.2.1 hresponding, hvalue⟩

/-! ## Runs on given streams -/

/-- Whether a joint run delivers what was sent, in order; `up` and `down` are on their
    way to the worker and to the client. -/
def piped (fd peer : Int) : Str → Str → List (Party × Ev D) → Bool
  | _, _, [] => true
  | up, down, (.client, e) :: t =>
    (e.received fd).isPrefixOf down &&
      piped fd peer (up ++ e.sent fd) (down.drop (e.received fd).length) t
  | up, down, (.server, e) :: t =>
    (e.received peer).isPrefixOf up &&
      piped fd peer (up.drop (e.received peer).length) (down ++ e.sent peer) t

theorem piped_received (fd peer : Int) (t : List (Party × Ev D)) :
    ∀ up down, piped fd peer up down t = true → ∀ u, u <+: t →
      received fd (projection .client u) <+: down ++ sent peer (projection .server u) ∧
        received peer (projection .server u) <+: up ++ sent fd (projection .client u) := by
  -- What has been read is gone from the front, what is behind it is still to read.
  have hdrop : ∀ a b c d : Str, a.isPrefixOf b = true → c <+: b.drop a.length ++ d →
      a ++ c <+: b ++ d := by
    intro a b c d hab hc
    rcases List.isPrefixOf_iff_prefix.mp hab with ⟨r, rfl⟩
    rw [List.drop_left] at hc
    rw [List.append_assoc]
    exact (List.prefix_append_right_inj a).mpr hc
  induction t with
  | nil =>
      intro up down _ u hu
      rw [List.prefix_nil.mp hu]
      exact ⟨List.nil_prefix, List.nil_prefix⟩
  | cons x t ih =>
      rcases x with ⟨i, e⟩
      intro up down hpiped u hu
      cases u with
      | nil => exact ⟨List.nil_prefix, List.nil_prefix⟩
      | cons y u =>
          rcases List.cons_prefix_cons.mp hu with ⟨rfl, hrest⟩
          -- Each event takes from one stream and adds to the other.
          cases i with
          | client =>
              rw [piped, Bool.and_eq_true] at hpiped
              rcases ih _ _ hpiped.2 u hrest with ⟨h1, h2⟩
              rw [projection_cons_self, projection_cons_other .server .client e u (by decide)]
              exact ⟨hdrop _ _ _ _ hpiped.1 h1, by rw [List.append_assoc] at h2; exact h2⟩
          | server =>
              rw [piped, Bool.and_eq_true] at hpiped
              rcases ih _ _ hpiped.2 u hrest with ⟨h1, h2⟩
              rw [projection_cons_self, projection_cons_other .client .server e u (by decide)]
              exact ⟨by rw [List.append_assoc] at h1; exact h1, hdrop _ _ _ _ hpiped.1 h2⟩

theorem piped_fifo (fd peer : Int) (t : List (Party × Ev D)) (h : piped fd peer [] [] t = true) :
    Fifo fd peer t := piped_received fd peer t [] [] h

/-- A function that returns 7, and a table with it. -/
def seven : (sig : Signature) → Args Unit sig.params → Except Exn (sig.Result Unit)
  | ⟨_, some .int⟩, _ => .ok (7 : Int32)
  | _, _ => .error (.std "none")

/-- The table with that function and no other. -/
def sevenTable : Table := fun method =>
  if method = text "f" then some ⟨[], some .int⟩ else none

/-- The request for it under a token, and the response to it. -/
def sevenRequest (token : Int32) : Str :=
  (Codec.dump (requestOf (D := Unit) token (text "f") [])).frame

/-- The response to the request under a token. -/
def sevenResponse (token : Int32) : Str :=
  (Codec.dump (resultResponse (D := Unit) token (.integer 7))).frame

/-- A call of it, with `response` to come. -/
def sevenCall (c : Client) (response : Str) : Trace Unit × (Client × Res (Option Int32)) :=
  drive Network.reply (Network.carrying response) (c.perform Client.callF)

/-- A worker that serves it for `n` turns, with `requests` to come. -/
def sevenTurns (n : Nat) (requests : Str) : Trace Unit × (Str ⊕ Exit) :=
  drive Network.reply { Network.carrying requests with bound := seven }
    ((bareServer sevenTable).worker 4 n)

/-- How a worker and a client go on when both are done. -/
def bothDone (c : Client) (r : Str ⊕ Exit) : (i : Party) → Proc Unit i.Result
  | .client => .ret (.ok c)
  | .server => .ret r

/-- A joint run of a finished session and a finished worker. -/
theorem interleaved_done (s : Server) (peer : Int) (n : Nat) (c c' : Client)
    (tasks : List (Client.Task Unit)) (r : Str ⊕ Exit) (joint : List (Party × Ev Unit))
    (hclient : Runs (Client.session tasks c) (projection .client joint) (.ok c'))
    (hserver : Runs (s.worker peer n) (projection .server joint) r) :
    Interleaved (parties s peer n c tasks) joint (bothDone c' r) := by
  rw [interleaved_iff]
  intro i
  cases i with
  | client => exact (reaches_ret_iff _ _ _).mpr hclient
  | server => exact (reaches_ret_iff _ _ _).mpr hserver

/-- The call, the turn of the worker, and the rest of the call. -/
def sevenJoint : List (Party × Ev Unit) :=
  let call := (sevenCall bareClient (sevenResponse 1)).1
  alone .client (call.take 10) ++
    (alone .server (sevenTurns 1 (sevenRequest 1)).1 ++ alone .client (call.drop 10))

theorem sevenJoint_client :
    projection .client sevenJoint = (sevenCall bareClient (sevenResponse 1)).1 := by
  simp only [sevenJoint, projection_append, projection_alone,
    projection_alone_other Party.client Party.server _ (by decide), List.nil_append,
    List.take_append_drop]

theorem sevenJoint_server :
    projection .server sevenJoint = (sevenTurns 1 (sevenRequest 1)).1 := by
  simp only [sevenJoint, projection_append, projection_alone,
    projection_alone_other Party.server Party.client _ (by decide), List.nil_append,
    List.append_nil]

/-- The client of `bareClient` after a call that returned. -/
def calledOnce : Client := ⟨3, 1000, 0, 1, Health.fresh⟩

/-- The call returns 7 when that response comes. -/
theorem sevenCall_runs (c c' : Client)
    (hx : (sevenCall c (sevenResponse 1)).2 = (c', .ok (some 7))) :
    Runs (c.perform Client.callF) (sevenCall c (sevenResponse 1)).1
      (c', .ok (some (7 : Int32))) := by
  have hr := runs_drive Network.reply (Network.carrying (sevenResponse 1))
    (c.perform Client.callF)
  change Runs _ _ (sevenCall c (sevenResponse 1)).2 at hr
  rw [hx] at hr
  exact hr

/-- A session of the one call. -/
theorem sevenSession_runs :
    Runs (Client.session [Client.callF] bareClient) (projection .client sevenJoint)
      (.ok calledOnce) := by
  have hcall := sevenCall_runs bareClient calledOnce (by decide +kernel)
  rw [sevenJoint_client, ← List.append_nil (sevenCall _ _).1]
  exact Client.session_of_runs Client.callF [] bareClient calledOnce _ [] _ _ hcall
    (fun f h => (by cases h)) (Runs.ret _)

/-- And the worker on the other side. -/
theorem sevenWorker_runs :
    Runs ((bareServer sevenTable).worker 4 1) (projection .server sevenJoint)
      (sevenTurns 1 (sevenRequest 1)).2 := by
  rw [sevenJoint_server]
  exact runs_drive ..

/-- A call that returns 7. -/
theorem session_paired_seven :
    ∃ s1 w s2 buf, ∃ j : Json Unit, projection .server sevenJoint = s1 ++ (w ++ s2) ∧
      received 4 s1 = [] ∧
      (bareServer sevenTable).Responding 4 buf
        (Codec.dump (requestOf (D := Unit) 1 (text "f") [])).content w j ∧
      sent 4 w = beHeader.frame (Codec.dump j).content ∧ HasId j 1 ∧
      (parse (D := Unit) (Codec.dump j).content).bind (makeResult (D := Unit) .int)
        = .ok (some (7 : Int32)) := by
  have hcall := sevenCall_runs bareClient calledOnce (by decide +kernel)
  -- The request is read back as it was made.
  have hparse : parse (D := Unit) (bareClient.request (D := Unit) (text "f") []).content
      = .ok (requestOf 1 (text "f") []) := by decide +kernel
  have hsent : sent 4 (sevenTurns 1 (sevenRequest 1)).1 = sevenResponse 1 := by decide +kernel
  -- There are no callbacks to change an id.
  have hquiet : (requestCalls (sevenTurns 1 (sevenRequest 1)).1
      ++ responseCalls (sevenTurns 1 (sevenRequest 1)).1).isEmpty = true := by decide +kernel
  refine session_paired (D := Unit) (bareServer sevenTable) 4 1 bareClient [] [] Client.callF
    sevenJoint _
    (interleaved_done _ 4 1 bareClient calledOnce _ _ sevenJoint sevenSession_runs
      sevenWorker_runs)
    (piped_fifo (D := Unit) 3 4 sevenJoint (by decide +kernel)) rfl [] _
    (by rw [sevenJoint_client]; rfl)
    bareClient calledOnce (Runs.ret _) (7 : Int32) hcall (by decide +kernel)
    (by decide +kernel) _ hparse ⟨_, rfl, rfl⟩ ?_ ?_
  · rw [sevenJoint_server, KeepsIds, List.isEmpty_iff.mp hquiet]
    exact fun _ h => absurd h List.not_mem_nil
  · rw [sevenJoint_server, hsent, sevenResponse, dump_frame]
    intro zs hzs hpre
    rw [← beHeader.frames_singleton] at hpre
    rcases beHeader.prefix_of_frames zs _ hzs (List.forall_mem_singleton.mpr (content_fits _))
      hpre with ⟨us, hus⟩
    intro z hz
    have hmem := List.mem_append_left us hz
    rw [hus] at hmem
    rw [List.mem_singleton.mp hmem]
    have hok : parse (D := Unit) (Codec.dump (resultResponse (D := Unit) 1 (.integer 7))).content
        = .ok (resultResponse 1 (.integer 7)) := by decide +kernel
    rw [hok]
    exact fun h => (by cases h)

/-! ## A header that was cut -/

/-- A call of which one byte gets out. -/
def splitCall (c : Client) : Trace Unit × (Client × Res (Option Int32)) :=
  drive Network.reply (Client.onePoll 1) (c.perform Client.callF)

/-- The client after the second call, and after the third. -/
def calledTwice : Client := ⟨3, 1000, 110, 2, Health.fresh⟩

/-- The client behind the third call, which has returned. -/
def calledThrice : Client := ⟨3, 1000, 110, 3, Health.fresh⟩

/-- One call that is answered, one that leaves a byte of its header on the stream,
    and one that sends its request behind that byte. The worker takes the four zeros
    for an empty frame, and what is still in its buffer for the text in it. -/
def splitCalls : Trace Unit :=
  (sevenCall bareClient (sevenResponse 1)).1 ++ (splitCall calledOnce).1

/-- The worker's two turns. -/
def splitTurns : Trace Unit := (sevenTurns 2 (sevenRequest 1 ++ 0 :: sevenRequest 3)).1

/-- The three calls and the two turns, in the order in which the bytes allow them. -/
def splitJoint : List (Party × Ev Unit) :=
  let third := (sevenCall calledTwice (sevenResponse 1)).1
  alone .client (splitCalls.take 10) ++ (alone .server (splitTurns.take 26) ++
    (alone .client (splitCalls.drop 10 ++ third.take 10) ++ (alone .server (splitTurns.drop 26) ++
      alone .client (third.drop 10))))

/-- The client's part of it. -/
theorem splitJoint_client :
    projection .client splitJoint
      = splitCalls ++ (sevenCall calledTwice (sevenResponse 1)).1 := by
  simp only [splitJoint, projection_append, projection_alone,
    projection_alone_other Party.client Party.server _ (by decide), List.nil_append,
    List.append_assoc, List.take_append_drop]
  rw [← List.append_assoc, List.take_append_drop]

theorem splitJoint_server : projection .server splitJoint = splitTurns := by
  simp only [splitJoint, projection_append, projection_alone,
    projection_alone_other Party.server Party.client _ (by decide), List.nil_append,
    List.append_nil, List.take_append_drop]

/-- The first two calls, and whatever comes behind. -/
theorem splitCalls_runs (tasks : List (Client.Task Unit)) (u : Trace Unit)
    (x : Except Fault Client) (hrest : Runs (Client.session tasks calledTwice) u x) :
    Runs (Client.session (Client.callF :: Client.callF :: tasks) bareClient) (splitCalls ++ u)
      x := by
  have hr := runs_drive Network.reply (Client.onePoll 1) (calledOnce.perform Client.callF)
  -- The one byte is out, and the call says that nothing is.
  have hx : (splitCall calledOnce).2 = (calledTwice, .ok none) := by decide +kernel
  change Runs _ (splitCall calledOnce).1 (splitCall calledOnce).2 at hr
  rw [hx] at hr
  rw [splitCalls, List.append_assoc]
  refine Client.session_of_runs Client.callF _ bareClient calledOnce _ _ _ _
    (sevenCall_runs bareClient calledOnce (by decide +kernel)) (fun f h => (by cases h)) ?_
  exact Client.session_of_runs Client.callF _ calledOnce calledTwice _ _ _ _ hr
    (fun f h => (by cases h)) hrest

/-- The third call returns the value of the first, and no frame of its own request
    was ever taken. -/
theorem session_split_replay :
    ¬ ∀ (s : Server) (peer : Int) (n : Nat) (c0 : Client) (before after : List (Client.Task Unit))
        (task : Client.Task Unit) (joint : List (Party × Ev Unit))
        (ps : (i : Party) → Proc Unit i.Result),
      Interleaved (parties s peer n c0 (before ++ task :: after)) joint ps →
      Fifo c0._socket peer joint → c0._health._state = .noRead →
      ∀ t u : Trace Unit, t ++ u <+: projection .client joint →
      ∀ c c' : Client, Runs (Client.session before c0) t (.ok c) →
      ∀ v : task.T.denote Unit, Runs (c.perform task) u (c', .ok (some v)) →
      ∃ s1 w s2 buf j, projection .server joint = s1 ++ (w ++ s2) ∧
        s.Responding peer buf (c.request task.function task.arguments).content w j := by
  intro h
  have hcall := sevenCall_runs calledTwice calledThrice (by decide +kernel)
  have hclient : Runs (Client.session [Client.callF, Client.callF, Client.callF] bareClient)
      (projection .client splitJoint) (.ok calledThrice) := by
    rw [splitJoint_client, ← List.append_nil (sevenCall _ _).1]
    exact splitCalls_runs _ _ _ (Client.session_of_runs Client.callF [] calledTwice calledThrice
      _ [] _ _ hcall (fun f h => (by cases h)) (Runs.ret _))
  have hserver : Runs ((bareServer sevenTable).worker 4 2) (projection .server splitJoint)
      (sevenTurns 2 (sevenRequest 1 ++ 0 :: sevenRequest 3)).2 := by
    rw [splitJoint_server]
    exact runs_drive ..
  rcases h (bareServer sevenTable) 4 2 bareClient [Client.callF, Client.callF] [] Client.callF
      splitJoint _ (interleaved_done _ 4 2 bareClient calledThrice _ _ splitJoint hclient hserver)
      (piped_fifo (D := Unit) 3 4 splitJoint (by decide +kernel)) rfl splitCalls _
      (by rw [splitJoint_client]) calledTwice calledThrice
      (by rw [← List.append_nil splitCalls]; exact splitCalls_runs [] [] _ (Runs.ret _))
      (7 : Int32) hcall with
    ⟨s1, w, s2, buf, j, hsplit, hresponding⟩
  have hw := (Server.responding_moved _ 4 buf _ w j hresponding).2.1
  have hmoved : received 4 splitTurns = received 4 s1 ++ (sevenRequest 3 ++ received 4 s2) := by
    rw [← splitJoint_server, hsplit, received_append, received_append, hw]
    rfl
  -- The bytes of the third request come one byte late, and are never taken for a frame.
  have hnot : ¬ sevenRequest 3 <:+: received 4 splitTurns := by decide +kernel
  exact hnot ⟨received 4 s1, received 4 s2, by rw [hmoved, List.append_assoc]⟩

end Trpc
