import Trpc.Theory.Rpc.ClientRuns
import Trpc.Theory.Rpc.Network

/-!
# Frame Boundaries on the Wire

When a call returns with the socket open, is the client at a frame boundary?
A call that cannot write its request closes the socket if `bestEffortWrite`
returned a positive number for the header, and whenever it fails on the
content. What this misses is a `-1` for the header after one to three of its
bytes are out: the socket stays open and the next request starts in the middle
of a header.

`session_frames` shows that nothing else is missed. If no header is given up
with `-1` after a part of it was written, then whatever the clock, the polls and
the writes do, an open socket has carried complete frames and nothing else.

## Main definitions

* `HeadersWhole`: No header was given up with `-1` half written.
* `Framed`: A stream of complete frames.

## Theorems

* `called_frames`: One call.
* `session_frames`: Any number of calls.
* `session_split_header`: A run that leaves the boundary.
-/

namespace Trpc

open Vsjson Interaction

variable {D : Type}

/-- No header of a request was given up with `-1` after a part of it was
    written. -/
def HeadersWhole (t : Trace D) : Prop :=
  ∀ r ∈ reports t, r.phase = .writeHeader → r.ret = -1 → r.moved = 0

instance (t : Trace D) : Decidable (HeadersWhole t) :=
  inferInstanceAs (Decidable (∀ r ∈ reports t, r.phase = .writeHeader → r.ret = -1 → r.moved = 0))

theorem headersWhole_append (t u : Trace D) :
    HeadersWhole (t ++ u) ↔ HeadersWhole t ∧ HeadersWhole u := by
  simp only [HeadersWhole, reports_append, List.forall_mem_append]

/-- A stream of complete frames. -/
def Framed (s : Str) : Prop := ∃ xs, (∀ x ∈ xs, beHeader.Fits x) ∧ s = beHeader.frames xs

theorem framed_nil : Framed [] := ⟨[], fun _ h => absurd h List.not_mem_nil, rfl⟩

theorem framed_append (s u : Str) (hs : Framed s) (hu : Framed u) : Framed (s ++ u) := by
  rcases hs with ⟨xs, hxs, rfl⟩
  rcases hu with ⟨ys, hys, rfl⟩
  exact ⟨xs ++ ys, List.forall_mem_append.mpr ⟨hxs, hys⟩, (beHeader.frames_append xs ys).symm⟩

/-- A stream of frames that is not empty holds a header at least. -/
theorem framed_length (s : Str) (h : Framed s) : s = [] ∨ headerSize ≤ s.length := by
  rcases h with ⟨xs, _, rfl⟩
  cases xs with
  | nil => exact Or.inl rfl
  | cons x xs =>
      right
      -- The first frame alone is as long.
      rw [beHeader.frames_cons, List.length_append, beHeader.length_frame]
      exact le_trans (Nat.le_add_right headerSize x.length) (Nat.le_add_right _ _)

theorem framed_dump [DecimalImpl D] (j : Json D) : Framed (Codec.dump j).frame :=
  ⟨[(Codec.dump j).content], List.forall_mem_singleton.mpr (content_fits j),
    by rw [dump_frame, beHeader.frames_singleton]⟩

namespace Client

/-- A call that leaves its socket open has put whole frames on it, unless a
    header was given up half written. -/
theorem called_frames [DecimalImpl D] (c c' : Client) (T : Ty) (j : Json D) (t : Trace D)
    (r : Res (Option (T.denote D))) (h : Called c T (Codec.dump j) t c' r)
    (hwhole : HeadersWhole t) (hopen : c'._socket ≠ socketInvalid) :
    c'._socket = c._socket ∧ Framed (sent c._socket t) := by
  cases h with
  | unhealthy t h hc =>
      rcases Health.check_moves _ _ t _ hc with ⟨got, reps, hm⟩
      exact ⟨rfl, by rw [hm.sent]; exact framed_nil⟩
  | faulted t f hc =>
      rcases Health.check_moves _ _ t _ hc with ⟨got, reps, hm⟩
      exact ⟨rfl, by rw [hm.sent]; exact framed_nil⟩
  | unwritten t1 t2 h put reps c' hc hm hw =>
      rcases Health.check_moves _ _ t1 _ hc with ⟨got, reps1, hm1⟩
      rw [sent_append, hm1.sent, hm.sent, List.nil_append]
      cases hw with
      | closed => exact absurd rfl hopen
      | unsent x e hneg he =>
          refine ⟨rfl, ?_⟩
          -- A header that failed has put nothing on the wire, by the hypothesis.
          have hmoved : x.moved = [] := by
            apply List.eq_nil_of_length_eq_zero
            rcases he.ret with ⟨hret, _⟩ | hret
            · have hw := ((headersWhole_append t1 t2).mp hwhole).2
              rw [HeadersWhole, hm.reports] at hw
              exact hw _ (List.mem_singleton_self _) rfl hret
            · omega
          rw [hmoved]
          exact framed_nil
  | answered t1 t2 t3 h reps got reps' c' r hc hm _ hm' hback =>
      rcases Health.check_moves _ _ t1 _ hc with ⟨got1, reps1, hm1⟩
      -- The request is out in whole, and the response sends nothing.
      rw [sent_append, sent_append, hm1.sent, hm.sent, hm'.sent, List.nil_append, List.append_nil]
      refine ⟨?_, framed_dump j⟩
      cases hback with
      | tooLong => exact absurd rfl hopen
      | _ => rfl

/-- A client without a socket sends nothing. -/
theorem called_closed [DecimalImpl D] (c c' : Client) (T : Ty) (d : Dumped) (t : Trace D)
    (r : Res (Option (T.denote D))) (h : Called c T d t c' r) (hclosed : c._socket < 0) :
    t = [] ∧ c' = c := by
  have hcheck : ∀ t x, Runs (c._health.check c._socket : Proc D _) t x →
      t = [] ∧ x = .ok (c._health, false) := by
    intro t x hr
    unfold Health.check at hr
    rw [if_pos hclosed] at hr
    exact (runs_ret_iff ..).mp hr
  cases h with
  | unhealthy t h hc =>
      rcases hcheck t _ hc with ⟨rfl, h⟩
      cases h
      exact ⟨rfl, rfl⟩
  | faulted t f hc => exact absurd (hcheck t _ hc).2 (by simp)
  | unwritten t1 t2 h put reps c' hc => exact absurd (hcheck t1 _ hc).2 (by simp)
  | answered t1 t2 t3 h reps got reps' c' r hc => exact absurd (hcheck t1 _ hc).2 (by simp)

/-- A session on a client without a socket does nothing. -/
theorem session_closed [DecimalImpl D] (tasks : List (Task D)) :
    ∀ (c c' : Client) (t : Trace D), Runs (session tasks c) t (.ok c') → c._socket < 0 →
      c'._socket = c._socket := by
  induction tasks with
  | nil =>
      intro c c' t hr _
      cases ((runs_ret_iff ..).mp hr).2
      rfl
  | cons task tasks ih =>
      intro c c' t hr hclosed
      rcases session_cons_runs task tasks c c' t hr with ⟨t1, t2, c1, r, _, hcall, _, hrest⟩
      -- The call does nothing, so the next finds the same client.
      have h1 := (called_closed _ c1 _ _ t1 r hcall hclosed).2
      rw [ih c1 c' t2 hrest (by rw [h1]; exact hclosed), h1]
      rfl

/-- A session that ends with its socket open has put whole frames on it, unless
    a header was given up half written on the way. -/
theorem session_frames [DecimalImpl D] (tasks : List (Task D)) :
    ∀ (c c' : Client) (t : Trace D), Runs (session tasks c) t (.ok c') → HeadersWhole t →
      c'._socket ≠ socketInvalid → Framed (sent c._socket t) := by
  induction tasks with
  | nil =>
      intro c c' t hr _ _
      rw [((runs_ret_iff ..).mp hr).1]
      exact framed_nil
  | cons task tasks ih =>
      intro c c' t hr hwhole hopen
      rcases session_cons_runs task tasks c c' t hr with ⟨t1, t2, c1, r, rfl, hcall, _, hrest⟩
      rcases (headersWhole_append t1 t2).mp hwhole with ⟨hwhole1, hwhole2⟩
      -- Had this call closed the socket, it would still be closed at the end.
      have hopen1 : c1._socket ≠ socketInvalid := by
        intro h1
        have hneg : c1._socket < 0 := by
          rw [h1]
          decide
        rw [session_closed tasks c1 c' t2 hrest hneg, h1] at hopen
        exact hopen rfl
      rcases called_frames _ c1 _ _ t1 r hcall hwhole1 hopen1 with ⟨hsocket, hframed⟩
      have hsocket' : c1._socket = c._socket := hsocket
      have hrest' := ih c1 c' t2 hrest hwhole2 hopen
      rw [hsocket'] at hrest'
      rw [sent_append]
      exact framed_append _ _ hframed hrest'

/-! ## Runs on a given network -/

/-- A network on which three polls succeed and the rest fail, and a write takes
    `n` bytes. -/
def threePolls (n : Nat) : Network := { Network.carrying [] with
  polls := [1, 1, 1], later := -1, piece := n }

/-- The same with one poll. -/
def onePoll (n : Nat) : Network := { Network.carrying [] with
  polls := [1], later := -1, piece := n }

/-- A call of `f` without arguments. -/
def callF : Task Unit := ⟨1000, .int, text "f", []⟩

/-- Two calls: the first one's request gets out in three pieces and is not
    answered, so the second one is refused. -/
theorem session_frames_pieces :
    Framed (sent 3
      (drive Network.reply (threePolls 30) (session [callF, callF] bareClient)).1) := by
  have hr := runs_drive Network.reply (threePolls 30) (session [callF, callF] bareClient)
  have hok : (drive Network.reply (threePolls 30) (session [callF, callF] bareClient)).2
      = .ok ⟨3, 1000, 110, 1, ⟨0, 0, .undefined⟩⟩ := by decide +kernel
  rw [hok] at hr
  exact session_frames [callF, callF] bareClient _ _ hr (by decide +kernel) (by decide)

/-- One byte of the header gets out, then `poll` fails: the socket is still open
    when the call returns. -/
theorem session_split_header :
    ¬ ∀ (tasks : List (Task Unit)) (c c' : Client) (t : Trace Unit),
      Runs (session tasks c) t (.ok c') → c'._socket ≠ socketInvalid →
        Framed (sent c._socket t) := by
  intro h
  have hr := runs_drive Network.reply (onePoll 1) (session [callF] bareClient)
  have hok : (drive Network.reply (onePoll 1) (session [callF] bareClient)).2
      = .ok ⟨3, 1000, 110, 1, Health.fresh⟩ := by decide +kernel
  rw [hok] at hr
  -- One byte is no header.
  have hsent : sent 3 (drive Network.reply (onePoll 1) (session [callF] bareClient)).1 = [0] := by
    decide +kernel
  have hframed := h [callF] bareClient _ _ hr (by decide)
  change Framed (sent 3 _) at hframed
  rw [hsent] at hframed
  rcases framed_length _ hframed with h0 | h4
  · exact absurd h0 (List.cons_ne_nil 0 [])
  · exact absurd h4 (by decide)

end Client

end Trpc
