import Trpc.Theory.Rpc.Conversation
import Trpc.Theory.Rpc.Dispatch

/-!
# The Server as a Function of the Stream

A worker reads with timeouts and in whatever pieces the network brings, into a buffer
that keeps what was there before, and writes in pieces as well. Nothing of this shows in
what it answers. `Server.stream` says what a connection comes to: the frames are cut off
the stream one by one, each is parsed in front of what the buffer holds behind it, and
the answer, if there is to be one, goes out as a frame.

The functions and callbacks of the program are an environment with a state of its own,
so a function may count its calls, or answer differently the second time. What the
worker asks it, it asks in the order of the frames.

## Main definitions

* `Call.App`: What is asked of the functions and callbacks.
* `Server.answering`: From the request to the response.
* `Server.stream`: What a stream is answered.

## Theorems

* `turn_stream`: One turn.
* `rounds_stream`: Turns in a row.
* `worker_streams`: A worker answers what its stream is answered.
* `workers_agree`: Two workers with the same stream answer alike.
-/

namespace Trpc

open Vsjson Interaction

variable {D : Type}

/-! ## The application -/

/-- A call of a function or a callback, or the mark in front of one. -/
def Call.App : Call D → Prop
  | .requestCallback _ => True
  | .responseCallback _ => True
  | .invoke _ _ _ => True
  | .netCall _ _ => True
  | _ => False

/-- Where nobody is called, the application is not asked. -/
theorem silent_apart (t : Trace D) (h : Silent t) : ∀ e ∈ t, ¬ e.1.App := by
  intro e he happ
  have hnil : ∀ {β : Type} (f : Ev D → List β), t.flatMap f = [] → f e = [] :=
    fun f hf => List.flatMap_eq_nil_iff.mp hf e he
  rcases e with ⟨c, r⟩
  cases c with
  | requestCallback j => cases hnil Ev.requestCalls h.requestCalls
  | responseCallback j => cases hnil Ev.responseCalls h.responseCalls
  | invoke method sig args => cases hnil Ev.invocations h.invocations
  | netCall method args => cases hnil Ev.netCalls h.netCalls
  | _ => exact happ

namespace Server

/-- From the request to the response that is to be sent, if there is to be one. -/
def answering [DecimalImpl D] (s : Server) (request : Json D) :
    Proc D (Res (Option (Json D))) :=
  (s.onRequest request).bind fun x =>
    if !x.1 then .ret (.ok none)
    else (respond s._table x.2).bind fun outcome =>
      match outcome with
      | .throw e => .ret (.throw e)
      | .fault f => .ret (.fault f)
      | .ok response => (s.onResponse response).bind fun y =>
        if !y.1 then .ret (.ok none) else .ret (.ok (some y.2))

/-- The response goes out. -/
def wire [DecimalImpl D] (s : Server) (peer : Int) (response : Json D) : Proc D (Option Exit) :=
  (s.bestEffortWrite peer .writeHeader (Codec.dump response).beLength headerSize).bind
    fun success =>
      if !success then .ret (some .broke)
      else (s.bestEffortWrite peer .writeContent (Codec.dump response).dump
        (Codec.dump response).length).bind fun success =>
          if !success then .ret (some .broke) else .ret none

/-- How a turn ends once the response is there. -/
def ship [DecimalImpl D] (s : Server) (peer : Int) :
    Res (Option (Json D)) → Proc D (Option Exit)
  | .throw e => .ret (some (.threw e))
  | .fault f => .ret (some (.fault f))
  | .ok none => .ret none
  | .ok (some response) => s.wire peer response

theorem reply_wire [DecimalImpl D] (s : Server) (peer : Int) (response : Json D) :
    s.reply peer response = (s.onResponse response).bind fun y =>
      if !y.1 then .ret none else s.wire peer y.2 := rfl

/-- A turn asks the application first, and writes then. -/
theorem answer_answering [DecimalImpl D] (s : Server) (peer : Int) (request : Json D) :
    s.answer peer request = (s.answering request).bind (s.ship peer) := by
  rw [answer_respond, answering, Prog.bind_assoc]
  congr 1
  funext x
  by_cases hx : x.1
  · simp only [hx, Bool.not_true, Bool.false_eq_true, if_false]
    rw [Prog.bind_assoc]
    congr 1
    funext outcome
    cases outcome with
    | throw e => rfl
    | fault f => rfl
    | ok response =>
        simp only [deliver, reply_wire, Prog.bind_assoc]
        congr 1
        funext y
        -- The callback may drop the response at the very end.
        by_cases hy : y.1
        · simp only [hy, Bool.not_true, Bool.false_eq_true, if_false, Prog.ret_bind, ship]
        · simp only [hy, Bool.not_false, if_true, Prog.ret_bind, ship]
  · simp only [hx, Bool.not_false, if_true, Prog.ret_bind, ship]

theorem onRequest_app (s : Server) (request : Json D) : (s.onRequest request).Only Call.App := by
  unfold onRequest
  split
  · exact only_perform _ trivial
  · exact trivial

theorem onResponse_app (s : Server) (response : Json D) :
    (s.onResponse response).Only Call.App := by
  unfold onResponse
  split
  · exact only_perform _ trivial
  · exact trivial

/-- A function is part of the application, with the mark in front of it. -/
theorem netCall_app [DecimalImpl D] (table : Table) (method : Str) (args : Json D) :
    (netCall table method args).Only Call.App := by
  simp only [netCall, Prog.bind_def]
  refine only_bind _ _ (only_perform _ trivial) (fun _ => ?_)
  split
  · unfold dispatch
    split
    · exact trivial
    · exact trivial
    · refine only_bind _ _ (only_perform _ trivial) (fun r => ?_)
      cases r with
      | error e => exact trivial
      | ok v => exact trivial
  · exact trivial

/-- From the request to the response nobody else is asked. -/
theorem respond_app [DecimalImpl D] (table : Table) (request : Json D) :
    (respond table request).Only Call.App := by
  unfold respond
  split
  · exact trivial
  · exact trivial
  split
  · exact trivial
  · exact trivial
  · exact only_bind _ _ (netCall_app table _ _) (fun _ => trivial)

/-- All of answering is done by the application. -/
theorem answering_app [DecimalImpl D] (s : Server) (request : Json D) :
    (s.answering request).Only Call.App := by
  refine only_bind _ _ (onRequest_app s request) (fun x => ?_)
  split
  · exact trivial
  refine only_bind _ _ (respond_app s._table x.2) (fun outcome => ?_)
  cases outcome with
  | throw e => exact trivial
  | fault f => exact trivial
  -- The response callback is asked about a response, and about nothing else.
  | ok response =>
      refine only_bind _ _ (onResponse_app s response) (fun y => ?_)
      split <;> exact trivial

/-- Writing a response. -/
theorem wire_runs [DecimalImpl D] (s : Server) (peer : Int) (response : Json D) (t : Trace D)
    (exit : Option Exit) (hr : Runs (s.wire peer response) t exit) :
    ∃ put reps, Moves peer 0 t [] put reps ∧ Wired (Codec.dump response) put reps exit := by
  -- A server without a callback for responses does just this.
  have hreply := reply_runs { s with _responseCallback := false } peer response t exit hr
  generalize hs : ({ s with _responseCallback := false } : Server) = s' at hreply
  have hoff : s'._responseCallback = false := by rw [← hs]
  cases hreply with
  | dropped t j hask =>
      cases hask with
      | set b j hon => rw [hoff] at hon; cases hon
  | wired t1 t2 j put reps exit hask hm hw =>
      cases hask with
      | unset _ => exact ⟨put, reps, hm, hw⟩
      | set b j hon => rw [hoff] at hon; cases hon

/-! ## One frame -/

variable {σ : Type}

/-- What a content is answered, with the buffer it is read into, and the state behind it;
    nothing if the loop is left without an answer. -/
def handling [DecimalImpl D] (s : Server) (g : σ → (c : Call D) → Reply D c × σ) (state : σ)
    (buf content : Str) : Option (Str × σ) :=
  match parse (content ++ buf.drop (headerSize + content.length)) with
  | .ok request =>
    match (s.answering request).play g state with
    | (.ok (some response), state) => some ((Codec.dump response).frame, state)
    | (.ok none, state) => some ([], state)
    | _ => none
  | _ => none

/-- The buffer with a content in it. -/
def holding (buf content : Str) : Str :=
  beHeader.frame content ++ buf.drop (headerSize + content.length)

/-- What the first `n` frames of a stream are answered. -/
def stream [DecimalImpl D] (s : Server) (g : σ → (c : Call D) → Reply D c × σ) :
    Nat → σ → Str → Str → Str
  | 0, _, _, _ => []
  | n + 1, state, buf, input =>
    match beHeader.first input with
    | none => []
    | some (content, rest) =>
      -- What is longer than the buffer is not answered.
      if buf.length < headerSize + content.length then []
      else
        match s.handling g state buf content with
        | none => []
        | some (out, state) => out ++ s.stream g n state (holding buf content) rest

/-- How a turn can come out that has asked the application `g`. -/
inductive TurnedBy [DecimalImpl D] (s : Server) (g : σ → (c : Call D) → Reply D c × σ)
    (state state' : σ) (peer : Int) (buf : Str) (t : Trace D) : Str ⊕ Exit → Prop
  /-- There was no whole frame, or none that fits. -/
  | unread (exit : Exit) : sent peer t = [] →
      (Complete t → ∀ content rest, beHeader.first (received peer t) = some (content, rest) →
        buf.length < headerSize + content.length) →
      TurnedBy s g state state' peer buf t (.inr exit)
  | unanswered (content : Str) (exit : Exit) : beHeader.Fits content →
      headerSize + content.length ≤ buf.length → received peer t = beHeader.frame content →
      s.handling g state buf content = none → sent peer t = [] →
      TurnedBy s g state state' peer buf t (.inr exit)
  | cut (content out : Str) (state1 : σ) (exit : Exit) : beHeader.Fits content →
      headerSize + content.length ≤ buf.length → received peer t = beHeader.frame content →
      s.handling g state buf content = some (out, state1) → sent peer t <+: out →
      ¬ Complete t → TurnedBy s g state state' peer buf t (.inr exit)
  | whole (content out : Str) : beHeader.Fits content →
      headerSize + content.length ≤ buf.length → received peer t = beHeader.frame content →
      s.handling g state buf content = some (out, state') → sent peer t = out →
      TurnedBy s g state state' peer buf t (.inl (holding buf content))

/-- A turn that ends before a frame is there. -/
theorem unread_first (peer : Int) (buf : Str) (t : Trace D) (got : Str) (limit : Nat)
    (reps : List Report) (exit : Exit) (hm : Moves peer limit t got [] reps)
    (hrec : Received buf got limit reps (.error exit)) (hcomplete : Complete t)
    (content rest : Str) (hfirst : beHeader.first (received peer t) = some (content, rest)) :
    buf.length < headerSize + content.length := by
  rw [hm.received] at hfirst
  unfold Complete at hcomplete
  rw [hm.reports] at hcomplete
  cases hrec with
  | idle =>
      rw [beHeader.first_short [] beHeader.width_pos] at hfirst
      cases hfirst
  | noHeader got ret hle hret => exact absurd (hcomplete _ List.mem_cons_self) hret
  | noContent h got ret hh hle hret =>
      exact absurd (hcomplete _ (List.mem_cons_of_mem _ List.mem_cons_self)) hret
  | overflow h got ret hh hle hbuf =>
      -- A header alone is no frame; with all of its content it would be one.
      rw [beHeader.first_header h got hh] at hfirst
      by_cases hlen : got.length < beHeader.decode h
      · rw [if_pos hlen] at hfirst
        cases hfirst
      · rw [if_neg hlen] at hfirst
        cases hfirst
        have hall : got.length ≤ beHeader.decode h := hle
        rw [List.length_take]
        omega

/-- How shipping what the application has come to can come out. -/
inductive Shipped [DecimalImpl D] (peer : Int) (t : Trace D) :
    Res (Option (Json D)) → Option Exit → Prop
  | lost (x : Res (Option (Json D))) (exit : Exit) : (∀ o, x ≠ .ok o) → sent peer t = [] →
      Shipped peer t x (some exit)
  | dropped : sent peer t = [] → Shipped peer t (.ok none) none
  | whole (response : Json D) : sent peer t = (Codec.dump response).frame →
      Shipped peer t (.ok (some response)) none
  | cut (response : Json D) : sent peer t <+: (Codec.dump response).frame → ¬ Complete t →
      Shipped peer t (.ok (some response)) (some .broke)

/-- Shipping reads nothing and asks nobody. -/
theorem ship_runs [DecimalImpl D] (s : Server) (peer : Int) (x : Res (Option (Json D)))
    (t : Trace D) (exit : Option Exit) (hr : Runs (s.ship peer x) t exit) :
    received peer t = [] ∧ Silent t ∧ Shipped peer t x exit := by
  rcases x with (_ | response) | e | f
  · rcases (runs_ret_iff ..).mp hr with ⟨rfl, rfl⟩
    exact ⟨rfl, silent_nil, Shipped.dropped rfl⟩
  · rcases wire_runs s peer response t exit hr with ⟨put, reps, hm, hw⟩
    refine ⟨hm.received, hm.silent, ?_⟩
    cases hw with
    | whole reps hreps => exact Shipped.whole response hm.sent
    | cut put reps hput hfailed =>
        -- A transfer that fell short is in the reports.
        refine Shipped.cut response (by rw [hm.sent]; exact hput) (fun hcomplete => ?_)
        rcases hfailed with ⟨r, hr, hne⟩
        exact hne (hcomplete r (by rw [hm.reports]; exact hr))
  · rcases (runs_ret_iff ..).mp hr with ⟨rfl, rfl⟩
    exact ⟨rfl, silent_nil, Shipped.lost _ _ (fun o h => by cases h) rfl⟩
  · rcases (runs_ret_iff ..).mp hr with ⟨rfl, rfl⟩
    exact ⟨rfl, silent_nil, Shipped.lost _ _ (fun o h => by cases h) rfl⟩

/-- The application moves nothing on a connection. -/
theorem app_moves (peer : Int) (t : Trace D) (h : ∀ e ∈ t, e.1.App) :
    received peer t = [] ∧ sent peer t = [] := by
  refine ⟨List.flatMap_eq_nil_iff.mpr (fun e he => ?_),
    List.flatMap_eq_nil_iff.mpr (fun e he => ?_)⟩
  · have happ := h e he
    rcases e with ⟨c, r⟩
    cases c with
    | read fd off n => exact happ.elim
    | sysRead fd n => exact happ.elim
    | _ => rfl
  · have happ := h e he
    rcases e with ⟨c, r⟩
    cases c with
    | write fd data => exact happ.elim
    | _ => rfl

/-- What an application does, and calls that come to nothing, move no bytes. -/
theorem finished_nothing (peer : Int) (t : Trace D)
    (h : ∀ e ∈ t, e.1.App ∨ e = ⟨e.1, refuse e.1⟩) : received peer t = [] ∧ sent peer t = [] := by
  -- One event at a time: the sums over the trace are then empty.
  have heach : ∀ e ∈ t, received peer [e] = [] ∧ sent peer [e] = [] := by
    intro e he
    rcases h e he with happ | hrefused
    · exact app_moves peer [e] (List.forall_mem_singleton.mpr happ)
    · exact refused_nothing peer [e] (List.forall_mem_singleton.mpr hrefused)
  refine ⟨List.flatMap_eq_nil_iff.mpr (fun e he => ?_),
    List.flatMap_eq_nil_iff.mpr (fun e he => ?_)⟩
  · rw [← received_singleton]
    exact (heach e he).1
  · rw [← sent_singleton]
    exact (heach e he).2

/-- In front of what is shipped, nothing is sent. -/
theorem shipped_behind [DecimalImpl D] (peer : Int) (t u : Trace D) (x : Res (Option (Json D)))
    (exit : Option Exit) (ht : sent peer t = []) (h : Shipped peer u x exit) :
    Shipped peer (t ++ u) x exit := by
  have hput : sent peer (t ++ u) = sent peer u := by rw [sent_append, ht, List.nil_append]
  cases h with
  | lost x exit hnot hnil => exact Shipped.lost x exit hnot (hput.trans hnil)
  | dropped hnil => exact Shipped.dropped (hput.trans hnil)
  | whole response hsent => exact Shipped.whole response (hput.trans hsent)
  | cut response hsent hnot =>
      exact Shipped.cut response (by rw [hput]; exact hsent)
        (fun hcomplete => hnot ((complete_append t u).mp hcomplete).2)

/-- What is shipped is what the environment makes of the request. -/
theorem answer_stream [DecimalImpl D] (s : Server) (g : σ → (c : Call D) → Reply D c × σ)
    (state state' : σ) (peer : Int) (request : Json D) (t : Trace D) (exit : Option Exit)
    (hr : Runs (s.answer peer request) t exit) (hd : Driven Call.App g state t state') :
    ∃ x, (s.answering request).play g state = (x, state') ∧ received peer t = [] ∧
      Shipped peer t x exit := by
  rw [answer_answering] at hr
  rcases (runs_bind_iff ..).mp hr with ⟨t1, t2, x, rfl, h1, h2⟩
  rcases (driven_append ..).mp hd with ⟨m, hd1, hd2⟩
  rcases ship_runs s peer x t2 exit h2 with ⟨hgot2, hsilent, hshipped⟩
  have hm := driven_apart m state' t2 (silent_apart t2 hsilent) hd2
  subst hm
  -- What is asked in front of the writing is all the application's.
  have happ := answering_app s request
  rcases app_moves peer t1 (runs_only _ t1 x happ h1) with ⟨hgot1, hput1⟩
  refine ⟨x, driven_play state _ _ t1 x happ h1 hd1, ?_, shipped_behind peer t1 t2 x exit hput1
    hshipped⟩
  rw [received_append, hgot1, hgot2, List.append_nil]

/-- A frame that was read and shipped something for. -/
theorem shipped_turn [DecimalImpl D] (s : Server) (g : σ → (c : Call D) → Reply D c × σ)
    (state state' : σ) (peer : Int) (buf content : Str) (request : Json D) (t : Trace D)
    (x : Res (Option (Json D))) (exit : Option Exit) (hfits : beHeader.Fits content)
    (hsize : headerSize + content.length ≤ buf.length)
    (hparse : parse (content ++ buf.drop (headerSize + content.length)) = .ok request)
    (hplay : (s.answering request).play g state = (x, state'))
    (hgot : received peer t = beHeader.frame content) (h : Shipped peer t x exit) :
    TurnedBy s g state state' peer buf t (after (holding buf content) exit) := by
  cases h with
  | lost x exit hnot hnil =>
      refine TurnedBy.unanswered content exit hfits hsize hgot ?_ hnil
      -- The loop is left, so the stream has no answer here.
      simp only [handling, hparse, hplay]
      cases x with
      | ok o => exact absurd rfl (hnot o)
      | throw e => rfl
      | fault f => rfl
  | dropped hnil =>
      exact TurnedBy.whole content [] hfits hsize hgot (by simp only [handling, hparse, hplay]) hnil
  | whole response hsent =>
      exact TurnedBy.whole content _ hfits hsize hgot (by simp only [handling, hparse, hplay])
        hsent
  | cut response hsent hnot =>
      exact TurnedBy.cut content _ state' _ hfits hsize hgot
        (by simp only [handling, hparse, hplay]) hsent hnot

/-- A turn handles one frame as the stream does, or ends the run. -/
theorem turn_stream [DecimalImpl D] (s : Server) (g : σ → (c : Call D) → Reply D c × σ)
    (state state' : σ) (peer : Int) (buf : Str) (hbuf : headerSize ≤ buf.length) (t : Trace D)
    (r : Str ⊕ Exit) (hr : Runs (s.turn peer buf) t r) (hd : Driven Call.App g state t state') :
    TurnedBy s g state state' peer buf t r := by
  simp only [turn, Prog.bind_def] at hr
  rcases (runs_bind_iff ..).mp hr with ⟨t1, t2, frame, rfl, h1, h2⟩
  rcases receive_runs s peer buf hbuf t1 frame h1 with ⟨got, limit, reps, hm, hrec⟩
  rcases (driven_append ..).mp hd with ⟨m, hd1, hd2⟩
  -- Reading asks the application nothing.
  have hm1 := driven_apart state m t1 (silent_apart t1 hm.silent) hd1
  subst hm1
  cases frame with
  | error exit =>
      rcases (runs_ret_iff ..).mp h2 with ⟨rfl, rfl⟩
      rw [List.append_nil]
      exact TurnedBy.unread exit hm.sent (unread_first peer buf t1 got limit reps exit hm hrec)
  | ok frame =>
      cases hrec with
      | whole content hfits hsize =>
          simp only [handle, decode_frame] at h2
          cases hparse : parse (D := D) (content ++ buf.drop (headerSize + content.length)) with
          | throw e =>
              -- What the parser throws leaves the loop, like any other way to end it.
              rw [hparse] at h2
              rcases (runs_ret_iff ..).mp h2 with ⟨rfl, rfl⟩
              rw [List.append_nil]
              exact TurnedBy.unanswered content _ hfits hsize hm.received
                (by simp only [handling, hparse]) hm.sent
          | fault f =>
              rw [hparse] at h2
              rcases (runs_ret_iff ..).mp h2 with ⟨rfl, rfl⟩
              rw [List.append_nil]
              exact TurnedBy.unanswered content _ hfits hsize hm.received
                (by simp only [handling, hparse]) hm.sent
          | ok request =>
              rw [hparse] at h2
              rcases (runs_bind_iff ..).mp h2 with ⟨t3, t4, exit, rfl, h3, h4⟩
              have hend : t4 = [] ∧ r = after (holding buf content) exit := by
                cases exit with
                | none => exact (runs_ret_iff ..).mp h4
                | some exit => exact (runs_ret_iff ..).mp h4
              rcases hend with ⟨rfl, rfl⟩
              rw [List.append_nil] at hd2 ⊢
              rcases answer_stream s g m state' peer request t3 exit h3 hd2 with
                ⟨x, hplay, hgot, hshipped⟩
              refine shipped_turn s g m state' peer buf content request (t1 ++ t3) x exit hfits
                hsize hparse hplay ?_ (shipped_behind peer t1 t3 x exit hm.sent hshipped)
              rw [received_append, hm.received, hgot, List.append_nil]

/-! ## Networks that bring a request -/

/-- The bound functions of a network, as an application. -/
def applied (bound : (sig : Signature) → Args Unit sig.params → Except Exn (sig.Result Unit))
    (c : Call Unit) :
    Reply Unit c × ((sig : Signature) → Args Unit sig.params → Except Exn (sig.Result Unit)) :=
  ((Network.reply { Network.carrying [] with bound := bound } c).1, bound)

/-- A buffer of zeros. -/
def clean : { bs : Str // bs.length = bufSizeOnStack } :=
  ⟨List.replicate bufSizeOnStack 0, List.length_replicate⟩

/-- A worker that serves the request for `sevenTable`, with the pieces of `n` bytes. -/
def served (peer : Int) (n : Nat) : Trace Unit × (Str ⊕ Exit) :=
  drive Network.reply { Network.carrying (sevenRequest 1) with bound := seven, piece := n }
    ((bareServer sevenTable).worker peer 1)

theorem served_begins (peer : Int) (n : Nat) : (served peer n).1 =
    ⟨Call.stack bufSizeOnStack, clean⟩ :: (served peer n).1.tail := rfl

theorem served_reaches (peer : Int) (n : Nat) : Reaches ((bareServer sevenTable).worker peer 1)
    (⟨Call.stack bufSizeOnStack, clean⟩ :: (served peer n).1.tail) (.ret (served peer n).2) := by
  rw [reaches_ret_iff, ← served_begins]
  exact runs_drive ..

/-- The function of the network is the whole application. -/
theorem served_driven (peer : Int) (n : Nat) :
    ∃ state, Driven Call.App applied seven (served peer n).1.tail state := by
  rcases driven_drive (P := Call.App) (g := applied) Network.reply Network.bound
    (fun x c hc => by
      cases c with
      | requestCallback j => exact ⟨rfl, rfl⟩
      | responseCallback j => exact ⟨rfl, rfl⟩
      | invoke method sig args => exact ⟨rfl, rfl⟩
      | netCall method args => exact ⟨rfl, rfl⟩
      | _ => exact hc.elim)
    (fun x c _ => by cases c <;> rfl)
    { Network.carrying (sevenRequest 1) with bound := seven, piece := n }
    ((bareServer sevenTable).worker peer 1) with ⟨state, hd⟩
  change Driven Call.App applied seven (served peer n).1 state at hd
  rw [served_begins] at hd
  cases hd with
  | asked _ _ _ _ happ => exact happ.elim
  | skipped _ _ _ _ _ _ hd => exact ⟨state, hd⟩

/-! ## The stream -/

variable [DecimalImpl D] (s : Server) (g : σ → (c : Call D) → Reply D c × σ)

/-- The first frame of a stream, and the rest of it. -/
theorem stream_frame (n : Nat) (state : σ) (buf content rest : Str)
    (hfits : beHeader.Fits content) (hsize : headerSize + content.length ≤ buf.length) :
    s.stream g (n + 1) state buf (beHeader.frame content ++ rest) =
      match s.handling g state buf content with
      | none => []
      | some (out, state) => out ++ s.stream g n state (holding buf content) rest := by
  rw [stream, beHeader.first_frame content rest hfits]
  simp only [if_neg (not_lt.mpr hsize)]

/-- More of a stream is answered with more. -/
theorem stream_mono (n m : Nat) (hnm : n ≤ m) : ∀ (state : σ) (buf x y : Str), x <+: y →
    s.stream g n state buf x <+: s.stream g m state buf y := by
  induction n generalizing m with
  | zero => exact fun state buf x y _ => List.nil_prefix
  | succ n ih =>
      intro state buf x y hxy
      obtain ⟨k, rfl⟩ : ∃ k, m = k + 1 := ⟨m - 1, by omega⟩
      rcases hxy with ⟨z, rfl⟩
      cases hfirst : beHeader.first x with
      | none =>
          rw [stream, hfirst]
          exact List.nil_prefix
      | some frame =>
          rcases frame with ⟨content, rest⟩
          -- The first frame of the shorter stream is that of the longer one.
          rw [stream, stream, hfirst, beHeader.first_append x z content rest hfirst]
          simp only
          split
          · exact List.nil_prefix
          split
          · exact List.nil_prefix
          · rw [List.prefix_append_right_inj]
            exact ih k (by omega) _ _ _ _ (List.prefix_append rest z)

theorem length_holding (buf content : Str) (h : headerSize + content.length ≤ buf.length) :
    (holding buf content).length = buf.length := by
  have hwidth : beHeader.width = headerSize := rfl
  rw [holding, List.length_append, beHeader.length_frame, List.length_drop, hwidth]
  omega

/-- Turns in a row send a beginning of what the stream is answered, and all of it if every
    transfer was finished. -/
theorem rounds_stream (peer : Int) (buf : Str) (ts : List (Trace D)) (r : Str ⊕ Exit)
    (h : Rounds (s.turn peer) buf ts r) : headerSize ≤ buf.length → ∀ (state state' : σ) (n : Nat),
      Driven Call.App g state ts.flatten state' → (received peer ts.flatten).length < n →
        sent peer ts.flatten <+: s.stream g n state buf (received peer ts.flatten) ∧
        (Complete ts.flatten →
          sent peer ts.flatten = s.stream g n state buf (received peer ts.flatten)) := by
  induction h with
  | halt buf =>
      intro _ state state' n _ hn
      obtain ⟨k, rfl⟩ : ∃ k, n = k + 1 := ⟨n - 1, by omega⟩
      have hnil : s.stream g (k + 1) state buf [] = [] := by
        rw [stream, beHeader.first_short [] beHeader.width_pos]
      exact ⟨List.nil_prefix, fun _ => hnil.symm⟩
  | stop buf t exit ht =>
      intro hbuf state state' n hd hn
      obtain ⟨k, rfl⟩ : ∃ k, n = k + 1 := ⟨n - 1, by omega⟩
      rw [List.flatten_singleton] at hd ⊢
      cases turn_stream s g state state' peer buf hbuf t _ ht hd with
      | unread exit hput hfirst =>
          rw [hput]
          refine ⟨List.nil_prefix, fun hcomplete => ?_⟩
          -- What came in was no whole frame, or one that is too long.
          rw [stream]
          split
          · rfl
          · rename_i content rest hsome
            rw [if_pos (hfirst hcomplete content rest hsome)]
      | unanswered content exit hfits hsize hgot hnone hput =>
          rw [hput]
          refine ⟨List.nil_prefix, fun _ => ?_⟩
          rw [hgot, ← List.append_nil (beHeader.frame content),
            stream_frame s g k state buf content [] hfits hsize, hnone]
      -- The answer was cut off on its way, and the run is over.
      | cut content out state1 exit hfits hsize hgot hsome hput hnot =>
          refine ⟨?_, fun hcomplete => absurd hcomplete hnot⟩
          rw [hgot, ← List.append_nil (beHeader.frame content),
            stream_frame s g k state buf content [] hfits hsize, hsome]
          exact hput.trans (List.prefix_append _ _)
  | next buf buf' t ts r ht _ ih =>
      intro hbuf state state' n hd hn
      obtain ⟨k, rfl⟩ : ∃ k, n = k + 1 := ⟨n - 1, by omega⟩
      rw [List.flatten_cons] at hd hn ⊢
      rcases (driven_append ..).mp hd with ⟨m, hd1, hd2⟩
      cases turn_stream s g state m peer buf hbuf t _ ht hd1 with
      | whole content out hfits hsize hgot hsome hput =>
          -- A frame is not empty, so what is left of the stream is shorter.
          rw [received_append, List.length_append, hgot, beHeader.length_frame] at hn
          have hpos := beHeader.width_pos
          rcases ih (by rw [length_holding buf content hsize]; exact hbuf) m state' k hd2
            (by omega) with ⟨hpre, heq⟩
          rw [sent_append, received_append, hput, hgot,
            stream_frame s g k state buf content _ hfits hsize, hsome]
          refine ⟨(List.prefix_append_right_inj out).mpr hpre, fun hcomplete => ?_⟩
          simp only
          rw [heq ((complete_append _ _).mp hcomplete).2]

/-- The timeouts do not show in what a stream is answered. -/
theorem stream_settings (timeout pending : Int) (n : Nat) : ∀ (state : σ) (buf input : Str),
    ((s.setTimeout timeout).setPending pending).stream g n state buf input
      = s.stream g n state buf input := by
  induction n with
  | zero => exact fun _ _ _ => rfl
  | succ n ih =>
      intro state buf input
      unfold stream
      split
      · rfl
      · rename_i content rest hfirst
        have hsame : ((s.setTimeout timeout).setPending pending).handling g state buf content
            = s.handling g state buf content := rfl
        rw [hsame]
        split
        · rfl
        split
        · rfl
        · rw [ih]

/-- What a stream is answered. -/
def answers (state : σ) (buf input : Str) : Str := s.stream g (input.length + 1) state buf input

/-- A worker that has ended. -/
theorem worker_stream (peer : Int) (n : Nat) (state state' : σ)
    (buf : { bs : Str // bs.length = bufSizeOnStack }) (t : Trace D) (r : Str ⊕ Exit)
    (h : Runs (s.worker peer n) (⟨Call.stack bufSizeOnStack, buf⟩ :: t) r)
    (hd : Driven Call.App g state t state') :
    sent peer t <+: s.answers g state buf.1 (received peer t) ∧
      (Complete t → sent peer t = s.answers g state buf.1 (received peer t)) := by
  rcases worker_rounds s peer n _ r h with ⟨buf', ts, hts, _, hall⟩
  cases hall
  -- Behind the turns the application is not asked any more.
  rcases (driven_append ..).mp hd with ⟨m, hd1, _⟩
  have hclose := moves_closing (D := D) peer r
  rw [sent_append, received_append, hclose.sent, hclose.received, List.append_nil,
    List.append_nil, complete_append]
  rcases rounds_stream s g peer buf.1 ts r hts (by rw [buf.2]; decide) state m _ hd1
    (Nat.lt_succ_self _) with ⟨hpre, heq⟩
  exact ⟨hpre, fun hcomplete => heq hcomplete.1⟩

/-- A worker whose functions and callbacks are `g` has sent at any time a beginning of what
    the stream it has received is answered; and all of it, when it has ended and every
    transfer was finished. -/
theorem worker_streams (peer : Int) (n : Nat) (state state' : σ)
    (buf : { bs : Str // bs.length = bufSizeOnStack }) (t : Trace D) (q : Proc D (Str ⊕ Exit))
    (h : Reaches (s.worker peer n) (⟨Call.stack bufSizeOnStack, buf⟩ :: t) q)
    (hd : Driven Call.App g state t state') :
    sent peer t <+: s.answers g state buf.1 (received peer t) ∧
      ∀ r, q = .ret r → Complete t →
        sent peer t = s.answers g state buf.1 (received peer t) := by
  -- The run is finished with the same application, and with calls that move nothing.
  rcases driven_finish (P := Call.App) (g := g) refuse (s.worker peer n) q _ state' h with
    ⟨u, r, state2, hr, hd2, hall⟩
  rcases finished_nothing peer u hall with ⟨hgot, hput⟩
  have hfinished := (worker_stream s g peer n state state2 buf (t ++ u) r hr
    ((driven_append ..).mpr ⟨state', hd, hd2⟩)).1
  rw [sent_append, received_append, hput, hgot, List.append_nil, List.append_nil] at hfinished
  refine ⟨hfinished, fun r hq hcomplete => ?_⟩
  subst hq
  exact (worker_stream s g peer n state state' buf t r ((reaches_ret_iff ..).mp h) hd).2 hcomplete

/-- The answer to a request for a function that returns 7. -/
theorem worker_streams_seven :
    (bareServer sevenTable).answers applied seven clean.1 (sevenRequest 1) = sevenResponse 1 := by
  rcases served_driven 4 16384 with ⟨state, hd⟩
  have hcomplete : Complete (served 4 16384).1.tail := by
    unfold Complete
    decide +kernel
  have hgot : received 4 (served 4 16384).1.tail = sevenRequest 1 := by decide +kernel
  have hput : sent 4 (served 4 16384).1.tail = sevenResponse 1 := by decide +kernel
  have hall := (worker_streams (bareServer sevenTable) applied 4 1 seven state clean _ _
    (served_reaches 4 16384) hd).2 _ rfl hcomplete
  rw [← hput, hall, hgot]

/-- Two workers of servers with the same functions and callbacks, whatever their timeouts,
    that have found the same in their buffers: if one has received a beginning of what the
    other has, one has sent a beginning of what the other has; and if the other has ended
    and every transfer was finished, it is the one. -/
theorem workers_agree (timeout pending : Int) (peer1 peer2 : Int) (n1 n2 : Nat)
    (state state1 state2 : σ) (buf : { bs : Str // bs.length = bufSizeOnStack })
    (t1 t2 : Trace D) (q1 q2 : Proc D (Str ⊕ Exit))
    (h1 : Reaches (s.worker peer1 n1) (⟨Call.stack bufSizeOnStack, buf⟩ :: t1) q1)
    (h2 : Reaches (((s.setTimeout timeout).setPending pending).worker peer2 n2)
      (⟨Call.stack bufSizeOnStack, buf⟩ :: t2) q2)
    (hd1 : Driven Call.App g state t1 state1) (hd2 : Driven Call.App g state t2 state2)
    (hgot : received peer1 t1 <+: received peer2 t2) :
    (sent peer1 t1 <+: sent peer2 t2 ∨ sent peer2 t2 <+: sent peer1 t1) ∧
      ∀ r, q2 = .ret r → Complete t2 → sent peer1 t1 <+: sent peer2 t2 := by
  have hsame : ∀ input, ((s.setTimeout timeout).setPending pending).answers g state buf.1 input
      = s.answers g state buf.1 input :=
    fun input => stream_settings s g timeout pending _ state buf.1 input
  rcases worker_streams s g peer1 n1 state state1 buf t1 q1 h1 hd1 with ⟨hpre1, _⟩
  rcases worker_streams _ g peer2 n2 state state2 buf t2 q2 h2 hd2 with ⟨hpre2, heq2⟩
  rw [hsame] at hpre2
  -- The shorter stream is answered with a beginning of the other's answers.
  have hmore := hpre1.trans (stream_mono s g _ _ (Nat.succ_le_succ hgot.length_le) state buf.1 _ _
    hgot)
  refine ⟨List.prefix_or_prefix_of_prefix hmore hpre2, fun r hq hcomplete => ?_⟩
  rw [heq2 r hq hcomplete, hsame]
  exact hmore

/-- One of them reads and writes pieces of 20 bytes. -/
theorem workers_agree_seven : sent 5 (served 5 20).1.tail <+: sent 4 (served 4 16384).1.tail := by
  rcases served_driven 5 20 with ⟨state1, hd1⟩
  rcases served_driven 4 16384 with ⟨state2, hd2⟩
  refine (workers_agree (bareServer sevenTable) applied 1000 1000 5 4 1 1 seven state1 state2 clean
    _ _ _ _ (served_reaches 5 20) (served_reaches 4 16384) hd1 hd2 ?_).2 _ rfl ?_
  · decide +kernel
  · unfold Complete
    decide +kernel

end Server

end Trpc
