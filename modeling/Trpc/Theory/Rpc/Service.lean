import Trpc.Theory.Rpc.Accounts

/-!
# Which Turn Serves a Request

A client that sends a request when all others have been answered is served by one turn
of the worker, and between the two moments at which it begins to send and has begun to
read, the worker calls whom this turn calls and nobody else.

Neither moment need be a boundary of the worker's turns. At the first the worker may
still be at the end of a turn, and at the second it may have begun with the next one.
But what a turn calls it calls after taking its frame and before sending anything, so
at both moments the calls are those of whole turns, as many as there are requests.

## Main definitions

* `Server.Serves`: A turn that takes one request and begins to send one response.

## Theorems

* `rounds_served`: What a loop stopped anywhere has called.
* `worker_served`: What a worker calls between two requests.
-/

namespace Trpc

open Vsjson Interaction

variable {D : Type}

namespace Server

/-- A turn that calls what a turn calls that responds to `x`, with a response that `g`
    is the beginning of. -/
def Serves [DecimalImpl D] (s : Server) (peer : Int) (x g : Str) (t : Trace D) : Prop :=
  ∃ buf v j, s.Responding peer buf x v j ∧ g <+: beHeader.frame (Codec.dump j).content ∧
    invocations t = invocations v

/-! ## One turn -/

/-- Before its frame is there, a turn calls nobody. -/
theorem turned_untaken [DecimalImpl D] (s : Server) (peer : Int) (buf : Str) (t u : Trace D)
    (r : Str ⊕ Exit) (h : Turned s peer buf t r) (hu : u <+: t) (hgot : received peer u = []) :
    invocations u = [] := by
  have htaken : ∀ (t : Trace D) (content : Str), Taken peer buf t content → u <+: t →
      invocations u = [] :=
    fun t content ht hu => (moves_initial peer _ t u _ [] _ ht.moves hu).2.2.invocations
  cases h with
  | unread t got limit reps exit hm =>
      exact (moves_initial peer limit t u got [] reps hm hu).2.2.invocations
  | undecoded t content e ht => exact htaken t content ht hu
  | faulted t content f ht => exact htaken t content ht hu
  | answered t1 t2 content request exit ht =>
      rcases prefix_append_cases t1 t2 u hu with hu | ⟨c, rfl, _⟩
      · exact htaken t1 content ht hu
      · rw [received_append, ht.moves.received, List.append_eq_nil_iff] at hgot
        exact absurd hgot.1 (beHeader.frame_ne_nil content)

/-- A turn that goes on has taken something. -/
theorem turned_on_received [DecimalImpl D] (s : Server) (peer : Int) (buf buf' : Str)
    (t : Trace D) (h : Turned s peer buf t (.inl buf')) : received peer t ≠ [] := by
  rcases turned_frame s peer buf buf' t h with ⟨content, _, hgot⟩
  rw [hgot]
  exact beHeader.frame_ne_nil content

/-- Of more than one response, no single turn has sent the beginning. -/
theorem turned_served [DecimalImpl D] (s : Server) (peer : Int) (buf : Str) (t u : Trace D)
    (r : Str ⊕ Exit) (ws ys : List Str) (x g : Str) (h : Turned s peer buf t r) (hu : u <+: t)
    (hx : beHeader.Fits x) (hys : ∀ y ∈ ys, beHeader.Fits y) (hlen : ws.length = ys.length)
    (hgot : received peer u <+: beHeader.frames (ws ++ [x]))
    (hput : beHeader.frames ys ++ g <+: sent peer u) (hg : g ≠ []) :
    ws = [] ∧ invocations u = invocations t ∧ s.Serves peer x g t := by
  have hne : sent peer u ≠ [] := by
    intro hnil
    rw [hnil, List.prefix_nil, List.append_eq_nil_iff] at hput
    exact hg hput.2
  rcases turned_responding s peer buf t u r h hu hne with ⟨x', j, hresp, hcalls⟩
  rcases responding_moved s peer buf x' u j hresp with ⟨hx', htook, hsent⟩
  rw [← beHeader.frames_singleton] at hsent
  rcases beHeader.frames_prefix ys _ g hys (List.forall_mem_singleton.mpr (content_fits j))
    (hput.trans hsent) with ⟨zs, hzs, hrest⟩
  cases ys with
  | cons y ys =>
      -- The one response is behind, and `g` would be the beginning of nothing.
      rcases List.cons.inj hzs with ⟨_, hnil⟩
      rw [(List.append_eq_nil_iff.mp hnil.symm).2] at hrest
      exact absurd (List.prefix_nil.mp hrest) hg
  | nil =>
      have hnil := List.eq_nil_of_length_eq_zero hlen
      subst hnil
      rw [htook, ← beHeader.frames_singleton] at hgot
      rcases beHeader.prefix_of_frames [x'] ([] ++ [x]) (List.forall_mem_singleton.mpr hx')
        (List.forall_mem_singleton.mpr hx) hgot with ⟨us, hus⟩
      cases hus
      rw [List.nil_append] at hzs
      rw [← hzs, beHeader.frames_singleton] at hrest
      exact ⟨rfl, hcalls, buf, u, j, hresp, hrest, hcalls.symm⟩

/-! ## A run -/

/-- A loop that has received nothing has called nobody and sent nothing. -/
theorem rounds_untaken [DecimalImpl D] (s : Server) (peer : Int) (buf : Str)
    (ts : List (Trace D)) (r : Str ⊕ Exit) (hr : Rounds (s.turn peer) buf ts r)
    (hbuf : headerSize ≤ buf.length) (u : Trace D) (hu : u <+: ts.flatten)
    (hgot : received peer u = []) : invocations u = [] ∧ sent peer u = [] := by
  constructor
  · cases hr with
    | halt buf =>
        rw [List.prefix_nil.mp hu]
        rfl
    | stop buf t exit ht =>
        rw [List.flatten_singleton] at hu
        exact turned_untaken s peer buf t u _ (turn_runs s peer buf hbuf t _ ht) hu hgot
    | next buf buf' t ts r ht _ =>
        have hturned := turn_runs s peer buf hbuf t _ ht
        rcases prefix_append_cases t ts.flatten u hu with hu | ⟨v, rfl, _⟩
        · exact turned_untaken s peer buf t u _ hturned hu hgot
        · rw [received_append, List.append_eq_nil_iff] at hgot
          -- A turn that went on has received a frame.
          exact absurd hgot.1 (turned_on_received s peer buf buf' t hturned)
  · rcases rounds_account s peer buf ts r hr hbuf u hu with ⟨taken, answered, responses, hacc⟩
    have htook := hacc.took
    have hput := hacc.put
    rw [hgot, List.prefix_nil] at htook
    cases taken with
    | cons w taken =>
        exact absurd htook (List.append_ne_nil_of_left_ne_nil (beHeader.frame_ne_nil w) _)
    | nil =>
        -- Responses are counted against frames, of which there are none.
        have hcount := hacc.responded.length_eq
        rw [List.eq_nil_of_sublist_nil hacc.sublist] at hcount
        rw [List.eq_nil_of_length_eq_zero hcount.symm] at hput
        exact List.prefix_nil.mp hput

/-- A loop has not begun with more responses than it has frames to take. -/
theorem rounds_bounded [DecimalImpl D] (s : Server) (peer : Int) (buf : Str)
    (ts : List (Trace D)) (r : Str ⊕ Exit) (hr : Rounds (s.turn peer) buf ts r)
    (hbuf : headerSize ≤ buf.length) (u : Trace D) (hu : u <+: ts.flatten) (ws ys : List Str)
    (g : Str) (hws : ∀ w ∈ ws, beHeader.Fits w) (hys : ∀ y ∈ ys, beHeader.Fits y)
    (hgot : received peer u <+: beHeader.frames ws)
    (hput : beHeader.frames ys ++ g <+: sent peer u) (hg : g ≠ []) : ys.length < ws.length := by
  rcases rounds_account s peer buf ts r hr hbuf u hu with ⟨taken, answered, responses, hacc⟩
  have htaken := (beHeader.prefix_of_frames taken ws hacc.taken_fits hws
    (hacc.took.trans hgot)).length_le
  rcases beHeader.frames_prefix ys responses g hys hacc.responses_fit (hput.trans hacc.put) with
    ⟨zs, rfl, hrest⟩
  have hle := hacc.sublist.length_le
  rw [List.length_zipIdx, hacc.responded.length_eq, List.length_append] at hle
  cases zs with
  | nil => exact absurd (List.prefix_nil.mp hrest) hg
  | cons z zs =>
      rw [List.length_cons] at hle
      omega

/-- When a loop has begun with the response to the last of its requests, it has called
    what its turns call, as many of them as there are requests, and the last of these
    serves the last request. -/
theorem rounds_served [DecimalImpl D] (s : Server) (peer : Int) (buf : Str)
    (ts : List (Trace D)) (r : Str ⊕ Exit) (hr : Rounds (s.turn peer) buf ts r) :
    headerSize ≤ buf.length → ∀ (u : Trace D) (ws ys : List Str) (x g : Str), u <+: ts.flatten →
      (∀ w ∈ ws ++ [x], beHeader.Fits w) → (∀ y ∈ ys, beHeader.Fits y) →
      ws.length = ys.length → received peer u <+: beHeader.frames (ws ++ [x]) →
      beHeader.frames ys ++ g <+: sent peer u → g ≠ [] →
      ∃ t, ts.take (ws.length + 1) = ts.take ws.length ++ [t] ∧ s.Serves peer x g t ∧
        invocations u = invocations (ts.take ws.length).flatten ++ invocations t := by
  induction hr with
  | halt buf =>
      intro _ u ws ys x g hu _ _ _ _ hput hg
      rw [List.prefix_nil.mp hu, sent_nil, List.prefix_nil, List.append_eq_nil_iff] at hput
      exact absurd hput.2 hg
  | stop buf t exit ht =>
      intro hbuf u ws ys x g hu hws hys hlen hgot hput hg
      rw [List.flatten_singleton] at hu
      rcases turned_served s peer buf t u _ ws ys x g (turn_runs s peer buf hbuf t _ ht) hu
        (hws x (List.mem_append_right _ (List.mem_singleton_self x))) hys hlen hgot hput hg with
        ⟨rfl, hcalls, hserves⟩
      exact ⟨t, rfl, hserves, hcalls⟩
  | next buf buf' t ts r ht hrest ih =>
      intro hbuf u ws ys x g hu hws hys hlen hgot hput hg
      have hturned := turn_runs s peer buf hbuf t _ ht
      have hbuf' : headerSize ≤ buf'.length := by
        rw [turn_length s peer buf buf' hbuf t ht]
        exact hbuf
      rcases prefix_append_cases t ts.flatten u hu with hu | ⟨v, rfl, hv⟩
      · rcases turned_served s peer buf t u _ ws ys x g hturned hu
          (hws x (List.mem_append_right _ (List.mem_singleton_self x))) hys hlen hgot hput hg with
          ⟨rfl, hcalls, hserves⟩
        exact ⟨t, rfl, hserves, hcalls⟩
      -- The first turn is over: it has taken the first frame, and there is a first request.
      rcases turned_frame s peer buf buf' t hturned with ⟨content, hfits, htook⟩
      rw [received_append, htook, ← beHeader.frames_singleton] at hgot
      rcases beHeader.frames_prefix [content] (ws ++ [x]) _ (List.forall_mem_singleton.mpr hfits)
        hws hgot with ⟨later, hlater, hgot⟩
      rw [hlater] at hws
      have hws' := (List.forall_mem_append.mp hws).2
      rcases turned_on s peer buf buf' t hturned with hsilent | ⟨z, j, hresp, hfull⟩
      · -- Without a response to it there would be too many to the others.
        rw [sent_append, hsilent, List.nil_append] at hput
        have hfew := rounds_bounded s peer buf' ts r hrest hbuf' v hv later ys g hws' hys hgot
          hput hg
        have hcount := congrArg List.length hlater
        simp only [List.length_append, List.length_singleton] at hcount
        omega
      · rw [sent_append, hfull] at hput
        cases ws with
        | nil =>
            cases hlater
            rw [beHeader.frames_nil, List.prefix_nil] at hgot
            rcases rounds_untaken s peer buf' ts r hrest hbuf' v hv hgot with ⟨hcalls, hnone⟩
            rw [List.eq_nil_of_length_eq_zero hlen.symm, hnone, List.append_nil] at hput
            rcases responding_moved s peer buf z t j hresp with ⟨hz, hgot', _⟩
            rw [htook] at hgot'
            have hsame := (beHeader.frame_prefix x z [] [] hfits hz (by rw [hgot'])).1
            subst hsame
            refine ⟨t, rfl, ⟨buf, t, j, hresp, hput, rfl⟩, ?_⟩
            rw [invocations_append, hcalls, List.append_nil]
            rfl
        | cons w ws =>
            rcases List.cons.inj hlater with ⟨rfl, rfl⟩
            cases ys with
            | nil => cases hlen
            | cons y ys =>
                rcases List.forall_mem_cons.mp hys with ⟨hy, hys⟩
                rw [beHeader.frames_cons, List.append_assoc] at hput
                have hput := (beHeader.frame_prefix y _ _ _ hy (content_fits j) hput).2
                rcases ih hbuf' v ws ys x g hv hws' hys (Nat.succ.inj hlen) hgot hput hg with
                  ⟨t', htake, hserves, hcalls⟩
                refine ⟨t', ?_, hserves, ?_⟩
                · rw [List.length_cons, List.take_succ_cons, htake]
                  rfl
                · rw [invocations_append, hcalls, List.length_cons, List.take_succ_cons,
                    List.flatten_cons, invocations_append, List.append_assoc]

/-- Between the moment at which all requests have been answered and the one at which
    the response to the next has begun, a worker calls what the turn calls that serves
    this request. -/
theorem worker_served [DecimalImpl D] (s : Server) (peer : Int) (n : Nat) (t u : Trace D)
    (q : Proc D (Str ⊕ Exit)) (h : Reaches (s.worker peer n) (t ++ u) q) (ws ys : List Str)
    (x g : Str) (hws : ∀ w ∈ ws ++ [x], beHeader.Fits w) (hys : ∀ y ∈ ys, beHeader.Fits y)
    (hlen : ws.length = ys.length) (hgot : received peer t <+: beHeader.frames ws)
    (hput : beHeader.frames ys <+: sent peer t)
    (hgot' : received peer (t ++ u) <+: beHeader.frames (ws ++ [x]))
    (hput' : beHeader.frames ys ++ g <+: sent peer (t ++ u)) (hg : g ≠ []) :
    s.Serves peer x g u := by
  rcases worker_turns s peer n (t ++ u) q h with ⟨buf, ts, r, hts, hbuf, hturns⟩
  -- The worker up to either moment, and its turns.
  have hlike : ∀ p, p <+: t ++ u → ∃ v, v <+: ts.flatten ∧ received peer v = received peer p ∧
      sent peer v = sent peer p ∧ invocations v = invocations p := by
    intro p hp
    rcases hturns p hp with ⟨a, v, b, rfl, hv, ha, hb⟩
    refine ⟨v, hv, ?_, ?_, ?_⟩
    · simp only [received_append, ha.received, hb.received, List.nil_append, List.append_nil]
    · simp only [sent_append, ha.sent, hb.sent, List.nil_append, List.append_nil]
    · simp only [invocations_append, ha.silent.invocations, hb.silent.invocations, List.nil_append,
        List.append_nil]
  rcases hlike t (List.prefix_append t u) with ⟨v, hv, hvgot, hvput, hvcalls⟩
  rcases hlike (t ++ u) List.prefix_rfl with ⟨v', hv', hvgot', hvput', hvcalls'⟩
  rw [← hvgot] at hgot
  rw [← hvput] at hput
  rw [← hvgot'] at hgot'
  rw [← hvput'] at hput'
  rcases rounds_served s peer buf ts r hts hbuf v' ws ys x g hv' hws hys hlen hgot' hput' hg with
    ⟨turn, htake, hserves, hcalls'⟩
  -- What was called up to the first moment.
  have hcalls : invocations v = invocations (ts.take ws.length).flatten := by
    rcases List.eq_nil_or_concat' ws with rfl | ⟨ws, w, rfl⟩
    · exact (rounds_untaken s peer buf ts r hts hbuf v hv (List.prefix_nil.mp hgot)).1
    rcases List.eq_nil_or_concat' ys with rfl | ⟨ys, y, rfl⟩
    · rw [List.length_append] at hlen
      cases hlen
    rw [beHeader.frames_append, beHeader.frames_singleton] at hput
    rw [List.length_append, List.length_append, List.length_singleton, List.length_singleton]
      at hlen
    rcases rounds_served s peer buf ts r hts hbuf v ws ys w _ hv
      (List.forall_mem_append.mp hws).1 (List.forall_mem_append.mp hys).1 (Nat.succ.inj hlen) hgot
      hput (beHeader.frame_ne_nil y) with ⟨turn', htake', _, hcalls⟩
    rw [hcalls, List.length_append, List.length_singleton, htake', List.flatten_append,
      List.flatten_singleton, invocations_append]
  rcases hserves with ⟨buf', w, j, hresp, hbegins, hsame⟩
  refine ⟨buf', w, j, hresp, hbegins, ?_⟩
  rw [← hsame]
  rw [hvcalls', invocations_append, ← hvcalls, hcalls] at hcalls'
  exact List.append_cancel_left hcalls'

end Server

end Trpc
