import Mathlib.Data.Nat.Digits.Lemmas
import Trpc.Theory.Rpc.Conversation
import Trpc.Theory.Rpc.Transparency

/-!
# What Is Run on Behalf of a Session

Any number of clients, each with a worker of its own on the other side, in any order of
steps and with any failures: polls that run out, transfers that end early, responses that
come too late, requests that a callback refuses. What the workers have called by any moment
can still be read off the calls that the clients make. The calls of a worker are those of
some of its client's calls, in their order, with their arguments. So nothing is run twice,
nothing is run for another connection, and nothing is run that was not asked for.

The worker calls at most one function for each frame it takes, and the frames it takes are
the first of those that were sent. The client sends for each of its calls a frame, nothing,
or the beginning of a frame, and behind the last it sends no more.

## Main definitions

* `Server.Executed`: What the worker may have called for a frame.
* `Client.Requested`: The frame of a call.
* `connections`, `link`: Many pairs of a client and a worker, and one of them.
* `Executes`: A call of a function on behalf of a call of the client.

## Theorems

* `worker_executed`: One call at most for each frame.
* `session_requested`: One frame at most for each call.
* `sessions_executed`: One call at most for each call of each client.
-/

namespace Trpc

open Vsjson Interaction

variable {D : Type}

theorem prefix_invocations (t u : Trace D) (hu : u <+: t) : invocations u <+: invocations t := by
  rcases hu with ⟨v, rfl⟩
  rw [invocations_append]
  exact List.prefix_append _ _

theorem prefix_sent (fd : Int) (t u : Trace D) (hu : u <+: t) : sent fd u <+: sent fd t := by
  rcases hu with ⟨v, rfl⟩
  rw [sent_append]
  exact List.prefix_append _ _

/-- A run that has called somebody has got past a part that calls nobody. -/
theorem prefix_called (a b u : Trace D) (hu : u <+: a ++ b) (ha : invocations a = [])
    (hne : invocations u ≠ []) : ∃ c, u = a ++ c ∧ c <+: b := by
  rcases prefix_append_cases a b u hu with hu | h
  · have hcalls := prefix_invocations a u hu
    rw [ha, List.prefix_nil] at hcalls
    exact absurd hcalls hne
  · exact h

/-- A `netCall` calls nobody, or the function bound under its method. -/
theorem netCalled_calls [DecimalImpl D] (table : Table) (method : Str) (args : Json D)
    (t : Trace D) (outcome : Res (Json D)) (h : NetCalled table method args t outcome) :
    invocations t = [] ∨ ∃ x, invocations t = [x] ∧ x.method = method ∧
      table method = some x.sig ∧ unpack x.sig args = .ok x.args := by
  cases h with
  | unbound => exact Or.inl rfl
  | refused => exact Or.inl rfl
  | returned sig tuple v hsig hunpack => exact Or.inr ⟨_, rfl, rfl, hsig, hunpack⟩
  | threw sig tuple e hsig hunpack => exact Or.inr ⟨_, rfl, rfl, hsig, hunpack⟩

namespace Server

/-! ## The worker -/

/-- What a worker may have called for the frame of `x`: nothing, or the function bound under
    the method in it, with the arguments in it. -/
inductive Executed [DecimalImpl D] (table : Table) (x : Str) : List (Invocation D) → Prop
  | none : Executed table x []
  | once (rest : Str) (request args : Json D) (id : Int32) (y : Invocation D) :
      parse (x ++ rest) = .ok request → Callable request id y.method args →
      table y.method = some y.sig → unpack y.sig args = .ok y.args → Executed table x [y]

/-- Replying calls nobody. -/
theorem replied_calls [DecimalImpl D] (s : Server) (peer : Int) (response : Json D) (t : Trace D)
    (exit : Option Exit) (h : Replied s peer response t exit) : invocations t = [] := by
  -- A response is dropped by the callback, or goes out on the wire.
  cases h with
  | dropped t j hask => exact (hask.unmoved peer).2.2.2
  | wired t1 t2 j put reps exit hask hm =>
      rw [invocations_append, (hask.unmoved peer).2.2.2, hm.silent.invocations, List.append_nil]

/-- A turn stopped anywhere has called nobody, or has taken a frame and called for it. -/
theorem turned_executed [DecimalImpl D] (s : Server) (peer : Int) (buf : Str) (t u : Trace D)
    (r : Str ⊕ Exit) (h : Turned s peer buf t r) (hu : u <+: t) (hunedited : Unedited u) :
    invocations u = [] ∨ ∃ x y, beHeader.Fits x ∧ beHeader.frame x <+: received peer u ∧
      Executed s._table x [y] ∧ invocations u = [y] := by
  by_cases hnone : invocations u = []
  · exact Or.inl hnone
  right
  cases h with
  | unread t got limit reps exit hm =>
      exact absurd (moves_initial peer limit t u got [] reps hm hu).2.2.invocations hnone
  | undecoded t content e ht =>
      exact absurd (moves_initial peer _ t u _ [] _ ht.moves hu).2.2.invocations hnone
  | faulted t content f ht =>
      exact absurd (moves_initial peer _ t u _ [] _ ht.moves hu).2.2.invocations hnone
  | answered t1 t2 content request exit ht hparse hans =>
      rcases prefix_called t1 t2 u hu ht.moves.silent.invocations hnone with ⟨v, rfl, hv⟩
      rw [invocations_append, ht.moves.silent.invocations, List.nil_append] at hnone ⊢
      refine ⟨content, ?_⟩
      have hcalls := prefix_invocations t2 v hv
      cases hans with
      | declined t j hask =>
          rw [(hask.unmoved peer).2.2.2, List.prefix_nil] at hcalls
          exact absurd hcalls hnone
      | threw t j e hask =>
          rw [(hask.unmoved peer).2.2.2, List.prefix_nil] at hcalls
          exact absurd hcalls hnone
      | called t0 t3 t4 j id method args outcome exit hask hcall hnet hrep =>
          rcases prefix_called t0 _ v hv (hask.unmoved peer).2.2.2 hnone with ⟨w, rfl, _⟩
          rw [invocations_append, invocations_append, invocations_append,
            (hask.unmoved peer).2.2.2, replied_calls s peer _ t4 exit hrep, List.nil_append,
            List.nil_append, List.append_nil] at hcalls
          rw [invocations_append, (hask.unmoved peer).2.2.2, List.nil_append] at hnone ⊢
          -- The callback has accepted the request and left it as it was.
          have hj := asked_unedited s request j t0 true hask
            ((unedited_append t0 w).mp ((unedited_append t1 _).mp hunedited).2).1
          subst hj
          -- The call of the function is the one call that the turn makes.
          rcases netCalled_calls _ _ _ t3 outcome hnet with hnil | ⟨y, hy, rfl, hsig, hunpack⟩
          · rw [hnil, List.prefix_nil] at hcalls
            exact absurd hcalls hnone
          · rw [hy] at hcalls
            have hw : invocations w = [y] :=
              hcalls.eq_of_length_le (List.length_pos_of_ne_nil hnone)
            refine ⟨y, ht.fits, ?_, .once _ j args id y hparse hcall hsig hunpack, hw⟩
            rw [received_append, ht.moves.received]
            exact List.prefix_append _ _

/-- A loop stopped anywhere has taken some frames and has called one function at most for
    each of them. -/
theorem rounds_executed [DecimalImpl D] (s : Server) (peer : Int) (buf : Str)
    (ts : List (Trace D)) (r : Str ⊕ Exit) (hr : Rounds (s.turn peer) buf ts r) :
    headerSize ≤ buf.length → ∀ u, u <+: ts.flatten → Unedited u →
      ∃ taken calls, (∀ x ∈ taken, beHeader.Fits x) ∧
        beHeader.frames taken <+: received peer u ∧
        List.Forall₂ (Executed s._table) taken calls ∧ invocations u = calls.flatten := by
  -- The turn that has not ended.
  have hturned : ∀ (buf : Str) (t u : Trace D) (r : Str ⊕ Exit), headerSize ≤ buf.length →
      Runs (s.turn peer buf) t r → u <+: t → Unedited u →
      ∃ taken calls, (∀ x ∈ taken, beHeader.Fits x) ∧
        beHeader.frames taken <+: received peer u ∧
        List.Forall₂ (Executed s._table) taken calls ∧ invocations u = calls.flatten := by
    intro buf t u r hbuf ht hu hunedited
    rcases turned_executed s peer buf t u r (turn_runs s peer buf hbuf t r ht) hu hunedited with
      hnil | ⟨x, y, hx, htook, hy, hcalls⟩
    · exact ⟨[], [], fun _ h => absurd h List.not_mem_nil, List.nil_prefix, .nil, hnil⟩
    · refine ⟨[x], [[y]], List.forall_mem_singleton.mpr hx, ?_, .cons hy .nil, hcalls⟩
      rw [beHeader.frames_singleton]
      exact htook
  induction hr with
  | halt buf =>
      intro _ u hu _
      rw [List.prefix_nil.mp hu]
      exact ⟨[], [], fun _ h => absurd h List.not_mem_nil, List.nil_prefix, .nil, rfl⟩
  | stop buf t exit ht =>
      intro hbuf u hu hunedited
      rw [List.flatten_singleton] at hu
      exact hturned buf t u _ hbuf ht hu hunedited
  | next buf buf' t ts r ht _ ih =>
      intro hbuf u hu hunedited
      rcases prefix_append_cases t ts.flatten u hu with hu | ⟨v, rfl, hv⟩
      · exact hturned buf t u _ hbuf ht hu hunedited
      · rcases (unedited_append t v).mp hunedited with ⟨hunedited, hunedited'⟩
        have hbuf' : headerSize ≤ buf'.length := by
          rw [turn_length s peer buf buf' hbuf t ht]
          exact hbuf
        rcases ih hbuf' v hv hunedited' with ⟨taken, calls, hfits, htook, heach, hcalls⟩
        have hturn := turn_runs s peer buf hbuf t _ ht
        rcases turned_frame s peer buf buf' t hturn with ⟨x, hx, hgot⟩
        -- The turn that is over has taken a frame, whether it has called somebody or not.
        have hfirst : ∃ ys, Executed s._table x ys ∧ invocations t = ys := by
          rcases turned_executed s peer buf t t _ hturn List.prefix_rfl hunedited with
            hnil | ⟨x', y, hx', htook', hy, hcall⟩
          · exact ⟨[], .none, hnil⟩
          · rw [hgot, ← List.append_nil (beHeader.frame x'), ← List.append_nil (beHeader.frame x)]
              at htook'
            rw [(beHeader.frame_prefix x' x [] [] hx' hx htook').1] at hy
            exact ⟨[y], hy, hcall⟩
        rcases hfirst with ⟨ys, hys, hcall⟩
        refine ⟨x :: taken, ys :: calls, List.forall_mem_cons.mpr ⟨hx, hfits⟩, ?_,
          .cons hys heach, ?_⟩
        · rw [beHeader.frames_cons, received_append, hgot, List.prefix_append_right_inj]
          exact htook
        · rw [invocations_append, hcall, hcalls, List.flatten_cons]

/-- The same for a worker. -/
theorem worker_executed [DecimalImpl D] (s : Server) (peer : Int) (n : Nat) (t : Trace D)
    (q : Proc D (Str ⊕ Exit)) (h : Reaches (s.worker peer n) t q) (hunedited : Unedited t) :
    ∃ taken calls, (∀ x ∈ taken, beHeader.Fits x) ∧ beHeader.frames taken <+: received peer t ∧
      List.Forall₂ (Executed s._table) taken calls ∧ invocations t = calls.flatten := by
  rcases worker_turns s peer n t q h with ⟨buf, ts, r, hts, hsize, hall⟩
  rcases hall t List.prefix_rfl with ⟨a, v, b, rfl, hv, ha, hb⟩
  -- What comes before the turns and behind them neither moves nor calls.
  have hunedited' := ((unedited_append v b).mp ((unedited_append a _).mp hunedited).2).1
  rcases rounds_executed s peer buf ts r hts hsize v hv hunedited' with
    ⟨taken, calls, hfits, htook, heach, hcalls⟩
  refine ⟨taken, calls, hfits, ?_, heach, ?_⟩
  · rw [received_append, received_append, ha.received, hb.received, List.nil_append,
      List.append_nil]
    exact htook
  · rw [invocations_append, invocations_append, ha.silent.invocations, hb.silent.invocations,
      List.nil_append, List.append_nil, hcalls]

end Server

namespace Client

/-! ## The client -/

/-- Writing a request puts a part of its frame on the wire, from the beginning on. -/
theorem writeRequest_sent (c c' : Client) (d : Dumped) (ok : Bool) (t : Trace D)
    (hbe : d.beLength.length = headerSize) (hr : Runs (c.writeRequest d) t (c', ok)) :
    sent c._socket t <+: d.frame := by
  simp only [writeRequest, Prog.bind_def, runs_bind_iff] at hr
  rcases hr with ⟨t1, t2, ⟨⟨c1, s1⟩, x⟩, rfl, h1, h2⟩
  rcases bestEffortWrite_reports c _ _ _ t1 _ h1 with ⟨hm1, he1, hdata1, hc1⟩
  simp only at hm1 he1 hdata1 hc1 h2
  rw [sent_append, hm1.sent]
  have hhead : x.moved <+: d.beLength := by
    rw [hdata1]
    exact List.take_prefix _ _
  cases s1 with
  | false =>
      simp only [Bool.not_false, if_true] at h2
      -- Behind a header that failed nothing more is written.
      have hnone : sent c._socket t2 = [] := by
        split at h2
        · rcases (runs_bind_iff ..).mp h2 with ⟨t3, t4, c2, rfl, h3, h4⟩
          rcases close_runs _ c2 c._socket 0 t3 h3 with ⟨hm3, _⟩
          rw [((runs_ret_iff ..).mp h4).1, List.append_nil, hm3.sent]
        · rw [((runs_ret_iff ..).mp h2).1, sent_nil]
      rw [hnone, List.append_nil]
      exact hhead.trans (List.prefix_append _ _)
  | true =>
      rcases conclude_eq_true c c1 _ x hc1 with ⟨hret, rfl⟩
      simp only [Bool.not_true, Bool.false_eq_true, if_false] at h2
      rcases (runs_bind_iff ..).mp h2 with ⟨t3, t4, ⟨⟨c3, s3⟩, y⟩, rfl, h3, h4⟩
      rcases bestEffortWrite_reports c1 _ _ _ t3 _ h3 with ⟨hm3, he3, hdata3, hc3⟩
      simp only at hm3 he3 hdata3 hc3 h4
      -- The header is out in whole, and of the content some part is.
      have hcontent : y.moved <+: d.content := by
        rw [hdata3, Dumped.content]
        exact List.take_prefix_take_left he3.length_le
      have hnone : sent c1._socket t4 = [] := by
        split at h4
        · rcases (runs_bind_iff ..).mp h4 with ⟨t5, t6, c5, rfl, h5, h6⟩
          rcases close_runs _ c5 c1._socket 0 t5 h5 with ⟨hm5, _⟩
          rw [((runs_ret_iff ..).mp h6).1, List.append_nil, hm5.sent]
        · rw [((runs_ret_iff ..).mp h4).1, sent_nil]
      -- A transfer that succeeded has moved all of it.
      have hwhole : x.moved = d.beLength :=
        hhead.eq_of_length (by rw [Ended.full _ x he1 hret, hbe])
      rw [sent_append, hm3.sent, hnone, List.append_nil, hwhole, Dumped.frame,
        List.prefix_append_right_inj]
      exact hcontent

/-- A call puts a part of the frame of its request on the wire. -/
theorem call_sent [DecimalImpl D] (c c' : Client) (T : Ty) (function : Str)
    (arguments : List (Json D)) (t : Trace D) (r : Res (Option (T.denote D)))
    (hr : Runs (c.call T function arguments) t (c', r)) :
    sent c._socket t <+: (c.request function arguments).frame := by
  simp only [call, Prog.bind_def] at hr
  rcases (runs_bind_iff ..).mp hr with ⟨t1, t2, x, rfl, h1, h2⟩
  rcases Health.check_moves _ _ t1 _ h1 with ⟨got, reps, hm1⟩
  rw [sent_append, hm1.sent, List.nil_append]
  rcases x with f | ⟨h, healthy⟩
  · rw [((runs_ret_iff ..).mp h2).1]
    exact List.nil_prefix
  cases healthy with
  | false =>
      rw [((runs_ret_iff ..).mp h2).1]
      exact List.nil_prefix
  | true =>
      simp only [Bool.not_true, Bool.false_eq_true, if_false, makeRequest_eq] at h2
      rcases (runs_bind_iff ..).mp h2 with ⟨t3, t4, ⟨c1, ok⟩, rfl, h3, h4⟩
      have hpart := writeRequest_sent _ c1 _ ok t3 rfl h3
      -- The response sends nothing, and without it there is nothing.
      have hnone : sent c._socket t4 = [] := by
        cases ok with
        | false => rw [((runs_ret_iff ..).mp h4).1, sent_nil]
        | true =>
            rcases writeRequest_runs _ c1 _ true t3 rfl h3 with ⟨put, reps, hm, hw⟩
            cases hw with
            | whole reps hreps =>
                rcases readResponse_runs _ c' T r t4 h4 with ⟨got, reps', hm', _⟩
                exact hm'.sent
      rw [sent_append, hnone, List.append_nil]
      exact hpart

theorem session_cons_performs [DecimalImpl D] (task : Task D) (tasks : List (Task D)) (c : Client)
    (t : Trace D) (x : Except Fault Client) (hr : Runs (session (task :: tasks) c) t x) :
    ∃ t1 t2 c1 r, t = t1 ++ t2 ∧ Runs (c.perform task) t1 (c1, r) ∧
      (t2 = [] ∨ Runs (session tasks c1) t2 x) := by
  simp only [session, Prog.bind_def] at hr
  rcases (runs_bind_iff ..).mp hr with ⟨t1, t2, ⟨c1, r⟩, rfl, h1, h2⟩
  refine ⟨t1, t2, c1, r, rfl, h1, ?_⟩
  change Res (Option (task.T.denote D)) at r
  cases r with
  | ok v => exact Or.inr h2
  | throw e => exact Or.inr h2
  | fault f => exact Or.inl ((runs_ret_iff ..).mp h2).1

/-- A session on a client without a socket makes no system call. -/
theorem session_closed_nothing [DecimalImpl D] (tasks : List (Task D)) :
    ∀ (c : Client) (t : Trace D) (x : Except Fault Client), Runs (session tasks c) t x →
      c._socket < 0 → t = [] := by
  induction tasks with
  | nil =>
      intro c t x hr _
      exact ((runs_ret_iff ..).mp hr).1
  | cons task tasks ih =>
      intro c t x hr hclosed
      rcases session_cons_performs task tasks c t x hr with ⟨t1, t2, c1, r, rfl, hcall, hrest⟩
      -- A call on a closed client returns at once.
      rcases called_closed _ c1 _ _ t1 r (call_runs _ c1 _ _ _ t1 r hcall) hclosed with ⟨rfl, rfl⟩
      rcases hrest with rfl | hrest
      · rfl
      · exact ih _ t2 x hrest hclosed

/-- What a call of `task` sends as the content of its frame, under some token. -/
def Requested [DecimalImpl D] (task : Task D) (w : Str) : Prop :=
  ∃ token, w = (Codec.dump (requestOf token task.function task.arguments)).content

theorem requested_fits [DecimalImpl D] (task : Task D) (w : Str) (h : Requested task w) :
    beHeader.Fits w := by
  rcases h with ⟨token, rfl⟩
  exact content_fits _

/-- A session stopped anywhere has sent the frames of some of its calls, in their order, the
    last of them maybe not to its end. -/
theorem session_requested [DecimalImpl D] (tasks : List (Task D)) :
    ∀ (c : Client) (t u : Trace D) (x : Except Fault Client), Runs (session tasks c) t x →
      u <+: t → HeadersWhole u →
      ∃ asked ws, asked.Sublist tasks ∧ List.Forall₂ Requested asked ws ∧
        sent c._socket u <+: beHeader.frames ws := by
  induction tasks with
  | nil =>
      intro c t u x hr hu _
      rw [((runs_ret_iff ..).mp hr).1, List.prefix_nil] at hu
      rw [hu]
      exact ⟨[], [], List.Sublist.refl _, .nil, List.nil_prefix⟩
  | cons task tasks ih =>
      intro c t u x hr hu hwhole
      rcases session_cons_performs task tasks c t x hr with ⟨t1, t2, c1, r, rfl, hcall, hrest⟩
      have hpart := call_sent _ c1 _ _ _ t1 r hcall
      rw [request, dump_frame] at hpart
      change sent c._socket t1 <+: beHeader.frame
        (Codec.dump (requestOf (c._token + 1) task.function task.arguments)).content at hpart
      have hrequested : Requested task
          (Codec.dump (requestOf (c._token + 1) task.function task.arguments)).content := ⟨_, rfl⟩
      -- The first call alone.
      have hfirst : ∀ v, v <+: t1 → ∃ asked ws, asked.Sublist (task :: tasks) ∧
          List.Forall₂ Requested asked ws ∧ sent c._socket v <+: beHeader.frames ws := by
        intro v hv
        refine ⟨[task], [_], (List.nil_sublist tasks).cons_cons task,
          .cons hrequested .nil, ?_⟩
        rw [beHeader.frames_singleton]
        exact (prefix_sent c._socket t1 v hv).trans hpart
      rcases prefix_append_cases t1 t2 u hu with hu | ⟨v, rfl, hv⟩
      · exact hfirst u hu
      rcases (headersWhole_append t1 v).mp hwhole with ⟨hwhole1, hwhole2⟩
      rcases hrest with rfl | hrest
      · rw [List.prefix_nil.mp hv, List.append_nil]
        exact hfirst t1 List.prefix_rfl
      by_cases hopen : c1._socket = socketInvalid
      · -- The call has closed the socket, and nothing comes behind it.
        rw [session_closed_nothing tasks c1 t2 x hrest (by rw [hopen]; decide),
          List.prefix_nil] at hv
        rw [hv, List.append_nil]
        exact hfirst t1 List.prefix_rfl
      rcases called_frames _ c1 _ _ t1 r (call_runs _ c1 _ _ _ t1 r hcall) hwhole1 hopen with
        ⟨hsame, xs, hxs, hsent⟩
      change c1._socket = c._socket at hsame
      change sent c._socket t1 = _ at hsent
      rcases ih c1 t2 v x hrest hv hwhole2 with ⟨asked, ws, hsub, hall, hput⟩
      rw [hsame] at hput
      rw [hsent, ← beHeader.frames_singleton] at hpart
      have hfew := beHeader.prefix_of_frames xs [_] hxs
        (List.forall_mem_singleton.mpr (content_fits _)) hpart
      -- The call has sent all of its frame, or nothing.
      rcases List.prefix_cons_iff.mp hfew with rfl | ⟨rest, rfl, hnil⟩
      · refine ⟨asked, ws, hsub.cons task, hall, ?_⟩
        rw [sent_append, hsent, beHeader.frames_nil, List.nil_append]
        exact hput
      · rw [List.prefix_nil.mp hnil] at hsent
        refine ⟨task :: asked, _ :: ws, hsub.cons_cons task, .cons hrequested hall, ?_⟩
        rw [sent_append, hsent, beHeader.frames_singleton, beHeader.frames_cons,
          List.prefix_append_right_inj]
        exact hput

end Client

/-! ## Many connections -/

section Connections

variable {ι : Type} [DecidableEq ι]

/-- A client with calls to make and a worker of the server, for each connection. -/
def connections [DecimalImpl D] (s : Server) (peer : ι → Int) (n : ι → Nat) (c : ι → Client)
    (tasks : ι → List (Client.Task D)) : (i : ι × Party) → Proc D i.2.Result :=
  fun i => parties s (peer i.1) (n i.1) (c i.1) (tasks i.1) i.2

/-- What has happened on connection `i`. -/
def link (i : ι) (joint : List ((ι × Party) × Ev D)) : List (Party × Ev D) :=
  joint.filterMap fun e => if e.1.1 = i then some (e.1.2, e.2) else none

theorem projection_link (i : ι) (p : Party) (joint : List ((ι × Party) × Ev D)) :
    projection p (link i joint) = projection (i, p) joint := by
  induction joint with
  | nil => rfl
  | cons e joint ih =>
      rcases e with ⟨⟨j, q⟩, e⟩
      by_cases hj : j = i
      · subst hj
        have hlink : link j (((j, q), e) :: joint) = (q, e) :: link j joint := by
          simp only [link, List.filterMap_cons, if_true]
        rw [hlink]
        by_cases hq : q = p
        · subst hq
          rw [projection_cons_self, projection_cons_self, ih]
        · rw [projection_cons_other p q e _ hq,
            projection_cons_other (j, p) (j, q) e joint (fun h => hq (congrArg Prod.snd h)), ih]
      · have hlink : link i (((j, q), e) :: joint) = link i joint := by
          simp only [link, List.filterMap_cons, if_neg hj]
        rw [hlink, ih,
          projection_cons_other (i, p) (j, q) e joint (fun h => hj (congrArg Prod.fst h))]

/-- Each connection runs as if it were the only one. -/
theorem link_joint [DecimalImpl D] (s : Server) (peer : ι → Int) (n : ι → Nat) (c : ι → Client)
    (tasks : ι → List (Client.Task D)) (joint : List ((ι × Party) × Ev D))
    (qs : (i : ι × Party) → Proc D i.2.Result)
    (h : Interleaved (connections s peer n c tasks) joint qs) (i : ι) :
    Interleaved (parties s (peer i) (n i) (c i) (tasks i)) (link i joint) fun p => qs (i, p) := by
  -- What one party has done is the same in the link and in the joint run.
  rw [interleaved_iff]
  intro p
  rw [projection_link]
  exact interleaved_projection _ qs joint h (i, p)

/-- A run of one pair, as one of many pairs. -/
def lone (joint : List (Party × Ev D)) : List ((Unit × Party) × Ev D) :=
  joint.map fun e => (((), e.1), e.2)

theorem link_lone (joint : List (Party × Ev D)) : link () (lone joint) = joint := by
  induction joint with
  | nil => rfl
  | cons e joint ih =>
      have hlink : link () (lone (e :: joint)) = e :: link () (lone joint) := by
        simp only [lone, List.map_cons, link, List.filterMap_cons, if_true]
      rw [hlink, ih]

theorem lone_joint [DecimalImpl D] (s : Server) (peer : Int) (n : Nat) (c : Client)
    (tasks : List (Client.Task D)) (joint : List (Party × Ev D))
    (ps : (i : Party) → Proc D i.Result) (h : Interleaved (parties s peer n c tasks) joint ps) :
    Interleaved (connections s (fun _ : Unit => peer) (fun _ => n) (fun _ => c) (fun _ => tasks))
      (lone joint) fun i => ps i.2 := by
  rw [interleaved_iff]
  rintro ⟨u, p⟩
  rw [← projection_link, link_lone]
  exact interleaved_projection _ ps joint h p

end Connections

/-! ## Calls and executions -/

/-- A call that can be made: the name and the arguments are plain, and the length of the
    request is one that its header can hold. -/
structure Client.Task.Plain [DecimalImpl D] (task : Client.Task D) : Prop where
  function : PlainText task.function
  arguments : ∀ j ∈ task.arguments, PlainValue j
  length : ∀ token,
    (dump (requestOf token task.function task.arguments)).length < 4294967296

/-- A call of the function that `task` names, with the arguments that it passes. -/
def Executes [DecimalImpl D] (table : Table) (task : Client.Task D) (x : Invocation D) : Prop :=
  x.method = task.function ∧ table task.function = some x.sig ∧
    unpack x.sig (.array task.arguments) = .ok x.args

theorem length_printInt (i : Int32) : (printInt i).length ≤ 11 := by
  have hnat : (printNat i.toInt.natAbs).length ≤ 10 := by
    have hlow := i.le_toInt
    have hhigh := i.toInt_lt
    unfold printNat
    split
    · decide
    · rw [List.length_map, List.length_reverse, Nat.digits_length_le_iff (by omega)]
      omega
  unfold printInt
  split
  · rw [List.length_cons]
    omega
  · omega

/-- The call of `f` without arguments. Its request is the longer the longer its token is. -/
theorem callF_plain : Client.callF.Plain where
  function := by
    have hall : ∀ c ∈ text "f", c ≠ Ch.quote ∧ c ≠ Ch.backslash ∧ c ≠ Ch.nul := by
      decide +kernel
    exact hall
  arguments := fun _ h => absurd h List.not_mem_nil
  length := by
    intro token
    have hlen := length_printInt token
    have hrest : Field.id.length + Field.jsonrpc.length + Attribute.version.length
        + Field.method.length + (text "f").length + Field.params.length < 100 := by decide +kernel
    simp only [requestOf, Client.callF, dump, dumpMembers, dumpElems, printString,
      List.length_append, List.length_cons, List.length_nil, List.isEmpty_cons, List.isEmpty_nil,
      Bool.false_eq_true, if_false, if_true]
    omega

/-- What is called for the frame of a call is called on behalf of that call. -/
theorem executed_requested [DecimalImpl D] (table : Table) (task : Client.Task D) (w : Str)
    (xs : List (Invocation D)) (hplain : task.Plain) (hw : Client.Requested task w)
    (h : Server.Executed table w xs) : xs = [] ∨ ∃ x, xs = [x] ∧ Executes table task x := by
  cases h with
  | none => exact Or.inl rfl
  | once rest request args id y hparse hcall hsig hunpack =>
      right
      rcases hw with ⟨token, rfl⟩
      have hrequest : IsRequest (requestOf token task.function task.arguments) token task.function
          (.array task.arguments) := ⟨_, rfl, rfl, rfl, rfl⟩
      rw [dump_content _ (hplain.length token),
        parse_dump_append _ (requestOf_printable token _ _ hplain.function hplain.arguments) rfl]
        at hparse
      cases hparse
      -- What the worker has parsed is the request, with one method and one list of
      -- arguments.
      rcases callable_unique _ token id task.function y.method _ args
        (isRequest_callable _ token _ _ hrequest) hcall with ⟨-, hmethod, rfl⟩
      rw [hmethod] at hsig
      exact ⟨y, rfl, hmethod, hsig, hunpack⟩

/-- The calls for the first frames of some calls are calls on behalf of some of these. -/
theorem executes_of_frames [DecimalImpl D] (table : Table) (taken : List Str)
    (calls : List (List (Invocation D)))
    (heach : List.Forall₂ (Server.Executed table) taken calls) :
    ∀ (asked : List (Client.Task D)) (ws : List Str), List.Forall₂ Client.Requested asked ws →
      taken <+: ws → (∀ task ∈ asked, task.Plain) →
      ∃ executed, executed.Sublist asked ∧
        List.Forall₂ (Executes table) executed calls.flatten := by
  induction heach with
  | nil => exact fun asked ws _ _ _ => ⟨[], List.nil_sublist asked, .nil⟩
  | cons hfirst _ ih =>
      intro asked ws hasked htaken hplain
      cases hasked with
      | nil => exact absurd (List.prefix_nil.mp htaken) (List.cons_ne_nil _ _)
      | cons hw hasked =>
          rename_i task w asked ws
          -- The first frame taken is that of the first call.
          rcases List.cons_prefix_cons.mp htaken with ⟨rfl, hlater⟩
          rcases List.forall_mem_cons.mp hplain with ⟨hplain, hplains⟩
          rcases ih asked ws hasked hlater hplains with ⟨executed, hsub, hall⟩
          rcases executed_requested table task _ _ hplain hw hfirst with rfl | ⟨x, rfl, hx⟩
          · exact ⟨executed, hsub.cons task, hall⟩
          · exact ⟨task :: executed, hsub.cons_cons task, .cons hx hall⟩

/-- One connection. -/
theorem session_executed [DecimalImpl D] (s : Server) (peer : Int) (n : Nat) (c0 : Client)
    (tasks : List (Client.Task D)) (joint : List (Party × Ev D))
    (ps : (i : Party) → Proc D i.Result)
    (hjoint : Interleaved (parties s peer n c0 tasks) joint ps)
    (hfifo : Fifo c0._socket peer joint) (hplain : ∀ task ∈ tasks, task.Plain)
    (hwhole : HeadersWhole (projection .client joint))
    (hunedited : Unedited (projection .server joint)) :
    ∃ executed, executed.Sublist tasks ∧
      List.Forall₂ (Executes s._table) executed (invocations (projection .server joint)) := by
  rcases finish c0._socket _ _ _ (interleaved_projection _ ps joint hjoint .client) with
    ⟨t', x, hr, _⟩
  rcases Client.session_requested tasks c0 _ _ x hr (List.prefix_append _ t') hwhole with
    ⟨asked, ws, hsub, hasked, hput⟩
  rcases s.worker_executed peer n _ _ (interleaved_projection _ ps joint hjoint .server)
    hunedited with ⟨taken, calls, hfits, htook, heach, hcalls⟩
  -- What is sent fits its header, so the two streams are cut in the same way.
  have hws : ∀ w ∈ ws, beHeader.Fits w := by
    intro w hw
    rcases List.mem_iff_getElem.mp hw with ⟨k, hk, rfl⟩
    exact Client.requested_fits _ _ (hasked.get (by rw [hasked.length_eq]; exact hk) hk)
  -- The worker has taken the first of the frames that the client has sent.
  have hread := (hfifo joint List.prefix_rfl).2
  rcases executes_of_frames s._table taken calls heach asked ws hasked
    (beHeader.prefix_of_frames taken ws hfits hws (htook.trans (hread.trans hput)))
    (fun task ht => hplain task (hsub.subset ht)) with ⟨executed, hsub', hexecutes⟩
  rw [hcalls]
  exact ⟨executed, hsub'.trans hsub, hexecutes⟩

/-- Whatever fails, the functions that the worker of a connection calls are called on behalf of
    some of the calls that its client makes, one at most for each, in their order and with their
    arguments. -/
theorem sessions_executed {ι : Type} [DecidableEq ι] [DecimalImpl D] (s : Server) (peer : ι → Int)
    (n : ι → Nat) (c : ι → Client) (tasks : ι → List (Client.Task D))
    (joint : List ((ι × Party) × Ev D)) (qs : (i : ι × Party) → Proc D i.2.Result)
    (hjoint : Interleaved (connections s peer n c tasks) joint qs)
    (hfifo : ∀ i, Fifo (c i)._socket (peer i) (link i joint))
    (hplain : ∀ i, ∀ task ∈ tasks i, task.Plain)
    (hwhole : ∀ i, HeadersWhole (projection (i, .client) joint))
    (hunedited : ∀ i, Unedited (projection (i, .server) joint)) (i : ι) :
    ∃ executed, executed.Sublist (tasks i) ∧
      List.Forall₂ (Executes s._table) executed (invocations (projection (i, .server) joint)) := by
  rw [← projection_link]
  exact session_executed s (peer i) (n i) (c i) (tasks i) (link i joint) _
    (link_joint s peer n c tasks joint qs hjoint i) (hfifo i) (hplain i)
    (by rw [projection_link]; exact hwhole i) (by rw [projection_link]; exact hunedited i)

/-- The joint run of one call and one turn. -/
theorem sevenJoint_pair :
    Interleaved (parties (bareServer sevenTable) 4 1 bareClient [Client.callF]) sevenJoint
      (bothDone calledOnce (sevenTurns 1 (sevenRequest 1)).2) :=
  interleaved_done _ 4 1 bareClient calledOnce _ _ sevenJoint sevenSession_runs sevenWorker_runs

theorem sevenJoint_unedited : Unedited (projection .server sevenJoint) := by
  have hunasked : (requestCalls (sevenTurns 1 (sevenRequest 1)).1
      ++ responseCalls (sevenTurns 1 (sevenRequest 1)).1).isEmpty = true := by decide +kernel
  rw [sevenJoint_server, Unedited, List.isEmpty_iff.mp hunasked]
  exact fun _ h => absurd h List.not_mem_nil

/-- One connection and one call, of a function that returns 7. -/
theorem sessions_executed_seven :
    ∃ executed, executed.Sublist [Client.callF] ∧
      List.Forall₂ (Executes sevenTable) executed
        (invocations (projection ((), Party.server) (lone sevenJoint))) := by
  refine sessions_executed (D := Unit) (bareServer sevenTable) (fun _ : Unit => 4) (fun _ => 1)
    (fun _ => bareClient) (fun _ => [Client.callF]) (lone sevenJoint) _
    (lone_joint _ 4 1 bareClient [Client.callF] sevenJoint _ sevenJoint_pair) ?_ ?_ ?_ ?_ ()
  · intro _
    rw [link_lone]
    exact piped_fifo 3 4 sevenJoint (by decide +kernel)
  · intro _ task htask
    rw [List.mem_singleton.mp htask]
    exact callF_plain
  · intro _
    rw [← projection_link, link_lone, sevenJoint_client]
    decide +kernel
  · intro _
    rw [← projection_link, link_lone]
    exact sevenJoint_unedited

end Trpc
