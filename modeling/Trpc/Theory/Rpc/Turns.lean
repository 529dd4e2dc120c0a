import Trpc.Theory.Rpc.Network
import Trpc.Theory.Rpc.ServerRuns
import Trpc.Theory.Scan.Prefix

/-!
# How a Turn Ends

A peer chooses the content of a frame, and the parts of a turn that take it
apart may throw. Inside the `try` block every exception becomes an error
response. Outside of it are `decode`, `makeEmptyResponse` and `prepareNetCall`,
and what those throw leaves `onAccept`, which nothing catches.

`worker_ends` says for which contents that happens: a turn ends with a response,
with a callback's refusal or with the connection given up exactly when the
content decodes to a request that can be answered, that is, to an object with an
id and a method.

Whether it decodes can depend on what an earlier frame left in the buffer, since
the parser is not told where the frame ends. `handle_isolated_iff` says for which
contents it does not: those with which the parser has finished when the frame
has.

## Main definitions

* `Shown`: What a callback has made of a message.
* `IsResponse`: A result or an error.
* `Server.EndsWell`: The three ways in which a turn should end.
* `Server.Answerable`: The frame of a turn holds a request to be answered.
* `Server.Isolated`: A frame is handled alike in every buffer.

## Theorems

* `turned_ends`: One turn.
* `worker_rounds`: The coroutine around the turns.
* `worker_ends`: Both.
* `handle_isolated_iff`: Which frames are handled alike in every buffer.
-/

namespace Trpc

open Vsjson Interaction

variable {D : Type}

/-- A message as the callback has left it, if there is one and it has accepted
    the message. -/
def Shown (calls : List (Json D × Bool × Json D)) (j j' : Json D) : Prop :=
  calls = [] ∧ j' = j ∨ calls = [(j, true, j')]

/-- A response: a result or an error, under an id. -/
def IsResponse (id : Int32) (response : Json D) : Prop :=
  (∃ result, response = resultResponse id result) ∨
    ∃ code message, response = errorResponse id code message

/-- What comes of a call is a response. -/
theorem settled_isResponse [DecimalImpl D] (table : Table) (method : Str) (args : Json D)
    (id : Int32) (t : Trace D) (outcome : Res (Json D))
    (h : NetCalled table method args t outcome) : IsResponse id (settled id outcome) := by
  cases h with
  | unbound => exact Or.inr ⟨_, _, rfl⟩
  | refused sig e => exact Or.inr ⟨_, _, rfl⟩
  | returned sig tuple v => exact Or.inl ⟨_, rfl⟩
  | threw sig tuple e => exact Or.inr ⟨_, _, rfl⟩

namespace Server

/-! ## The ways to end -/

/-- A turn ends well if a callback drops the message, if a response is written,
    or if the loop is left by `break`. -/
inductive EndsWell [DecimalImpl D] (peer : Int) (t : Trace D) : Str ⊕ Exit → Prop
  | dropped (buf : Str) : sent peer t = [] →
      (∃ x ∈ requestCalls t ++ responseCalls t, x.2.1 = false) → EndsWell peer t (.inl buf)
  | responded (buf : Str) (id : Int32) (response j : Json D) : IsResponse id response →
      Shown (responseCalls t) response j → sent peer t = (Codec.dump j).frame →
      EndsWell peer t (.inl buf)
  | left : EndsWell peer t (.inr .broke)

/-- Every frame of a stream fits the buffer, going by the headers. -/
def Fitting (s : Str) : Prop := ∀ n ∈ beHeader.lengths s, headerSize + n ≤ bufSizeOnStack

theorem fitting_nil : Fitting [] := by
  intro n hn
  rw [beHeader.lengths_short [] beHeader.width_pos] at hn
  exact absurd hn List.not_mem_nil

theorem fitting_frame (content s : Str) (h : beHeader.Fits content) :
    Fitting (beHeader.frame content ++ s) ↔
      headerSize + content.length ≤ bufSizeOnStack ∧ Fitting s := by
  rw [Fitting, beHeader.lengths_frame content s h, List.forall_mem_cons]
  rfl

/-- The turn has read the frame of `content`. -/
def Handed (peer : Int) (t : Trace D) (content : Str) : Prop :=
  beHeader.Fits content ∧ received peer t = beHeader.frame content ∧
    ⟨.readContent, content.length, content.length, content.length⟩ ∈ reports t

/-- If the turn has read a frame, then the content, with what the buffer holds
    behind it, decodes to a request, and unless the callback drops that, it can be
    answered. -/
def Answerable [DecimalImpl D] (peer : Int) (buf : Str) (t : Trace D) : Prop :=
  ∀ content, Handed peer t content →
    ∃ request : Json D, parse (content ++ buf.drop (headerSize + content.length)) = .ok request ∧
      ∀ j, Shown (requestCalls t) request j → ∃ id method args, Callable j id method args

theorem handed_unique (peer : Int) (t : Trace D) (content content' : Str)
    (h : Handed peer t content) (h' : Handed peer t content') : content = content' := by
  have hframe : beHeader.frame content ++ [] <+: beHeader.frame content' ++ [] := by
    rw [← h.2.1, ← h'.2.1]
  exact (beHeader.frame_prefix content content' [] [] h.1 h'.1 hframe).1

theorem taken_handed (peer : Int) (buf : Str) (t u : Trace D) (content : Str)
    (h : Taken peer buf t content) (hu : received peer u = []) :
    Handed peer (t ++ u) content := by
  refine ⟨h.fits, by rw [received_append, h.moves.received, hu, List.append_nil], ?_⟩
  rw [reports_append, h.moves.reports]
  exact List.mem_append_left _ (List.mem_cons_of_mem _ (List.mem_singleton_self _))

/-- A turn that has not read its frame has no frame to speak of. -/
theorem received_not_handed (peer : Int) (buf : Str) (t : Trace D) (got content : Str)
    (limit : Nat) (reps : List Report) (exit : Exit) (hm : Moves peer limit t got [] reps)
    (hrec : Received buf got limit reps (.error exit)) (hexit : exit = .broke) :
    ¬ Handed peer t content := by
  rintro ⟨hfits, hgot, hrep⟩
  rw [hm.received] at hgot
  rw [hm.reports] at hrep
  cases hrec with
  | idle => exact absurd hrep List.not_mem_nil
  | noHeader got ret =>
      cases List.mem_singleton.mp hrep
  | noContent h got ret hh hle hret =>
      rcases List.mem_cons.mp hrep with hrep | hrep
      · cases hrep
      · have hrep := List.mem_singleton.mp hrep
        simp only [Report.mk.injEq, true_and] at hrep
        exact hret (by omega)
  | overflow => cases hexit

/-- A turn whose frame fits does not write past its buffer. -/
theorem received_broke (buf got : Str) (limit : Nat) (reps : List Report) (exit : Exit)
    (hbuf : buf.length = bufSizeOnStack) (hfit : Fitting got)
    (hrec : Received buf got limit reps (.error exit)) : exit = .broke := by
  cases hrec with
  | idle => rfl
  | noHeader => rfl
  | noContent => rfl
  | overflow h got ret hh hle hlong =>
      have hlen := hfit (ntohl h) (by
        rw [beHeader.lengths_header h got hh]
        exact List.mem_cons_self)
      omega

/-- The callback has answered what the trace shows. -/
theorem asked_shown (s : Server) (j j' j'' : Json D) (t : Trace D)
    (h : AskedRequest s j t true j') (hshown : Shown (requestCalls t) j j'') : j'' = j' := by
  cases h with
  | unset =>
      rcases hshown with ⟨_, rfl⟩ | hcalls
      · rfl
      · cases hcalls
  | set =>
      rcases hshown with ⟨hcalls, _⟩ | hcalls
      · cases hcalls
      · cases hcalls
        rfl

theorem shown_asked (s : Server) (j j' : Json D) (t : Trace D)
    (h : AskedRequest s j t true j') : Shown (requestCalls t) j j' := by
  cases h with
  | unset => exact Or.inl ⟨rfl, rfl⟩
  | set => exact Or.inr rfl

theorem shown_response (s : Server) (j j' : Json D) (t : Trace D)
    (h : AskedResponse s j t true j') : Shown (responseCalls t) j j' := by
  cases h with
  | unset => exact Or.inl ⟨rfl, rfl⟩
  | set => exact Or.inr rfl

/-! ## One turn -/

/-- Answering a request ends well, or has thrown. -/
theorem answered_ends [DecimalImpl D] (s : Server) (peer : Int) (buf : Str) (request : Json D)
    (t0 t : Trace D) (exit : Option Exit) (h0 : sent peer t0 = []) (hs : Silent t0)
    (h : Answered s peer request t exit) :
    EndsWell peer (t0 ++ t) (after buf exit) ∧
        (∀ j, Shown (requestCalls (t0 ++ t)) request j → ∃ id method args,
          Callable j id method args) ∨
      (∃ e, exit = some (.threw e)) ∧ ∃ j, Shown (requestCalls (t0 ++ t)) request j ∧
        ∀ id method args, ¬ Callable j id method args := by
  cases h with
  | declined t j hask =>
      have hrun := hask.unmoved peer
      cases hask with
      | set _ j' =>
          refine Or.inl ⟨EndsWell.dropped buf ?_ ⟨(request, false, j), ?_, rfl⟩, fun j' hj' => ?_⟩
          · rw [sent_append, h0, hrun.1.sent, List.append_nil]
          · rw [requestCalls_append]
            exact List.mem_append_left _ (List.mem_append_right _ (List.mem_singleton_self _))
          · rw [requestCalls_append, hs.requestCalls] at hj'
            -- A request that was declined is shown to nothing further.
            rcases hj' with ⟨hcalls, _⟩ | hcalls <;> cases hcalls
  | threw t j e hask hnot =>
      refine Or.inr ⟨⟨e, rfl⟩, j, ?_, hnot⟩
      rw [requestCalls_append, hs.requestCalls]
      exact shown_asked s request j t hask
  | called t1 t2 t3 j id method args outcome exit hask hcall hnet hrep =>
      have hnet' := hnet.unmoved peer
      have hask' := hask.unmoved peer
      have hresponse := settled_isResponse _ _ _ id t2 outcome hnet
      -- Neither the function nor the response asks the request callback.
      have hrequests : requestCalls (t0 ++ (t1 ++ (t2 ++ t3))) = requestCalls t1 := by
        have h3 : requestCalls t3 = [] := by
          cases hrep with
          | dropped t j' hask3 => exact (hask3.unmoved peer).2.2.1
          | wired t4 t5 j' put reps exit hask3 hm =>
              rw [requestCalls_append, (hask3.unmoved peer).2.2.1, hm.silent.requestCalls]
              rfl
        simp only [requestCalls_append, hs.requestCalls, hnet'.2.2.1, h3, List.append_nil,
          List.nil_append]
      refine Or.inl ⟨?_, fun j' hj' => ?_⟩
      swap
      · rw [hrequests] at hj'
        rw [asked_shown s request j j' t1 hask hj']
        exact ⟨id, method, args, hcall⟩
      cases hrep with
      | dropped t j' hask3 =>
          refine EndsWell.dropped buf ?_ ⟨(settled id outcome, false, j'), ?_, rfl⟩
          · simp only [sent_append, h0, hask'.1.sent, hnet'.1.sent, (hask3.unmoved peer).1.sent,
              List.append_nil]
          · cases hask3 with
            | set =>
                simp only [responseCalls_append, List.mem_append]
                exact Or.inr (Or.inr (Or.inr (Or.inr (List.mem_singleton_self _))))
      | wired t4 t5 j' put reps exit hask3 hm hw =>
          cases hw with
          -- A response that was cut short ends the loop by `break`.
          | cut => exact EndsWell.left
          | whole reps hreps =>
              refine EndsWell.responded buf id _ j' hresponse ?_ ?_
              · simp only [responseCalls_append, hs.responseCalls, hask'.2.2.1, hnet'.2.2.2,
                  hm.silent.responseCalls, List.append_nil, List.nil_append]
                exact shown_response s _ j' t4 hask3
              · simp only [sent_append, h0, hask'.1.sent, hnet'.1.sent,
                  (hask3.unmoved peer).1.sent, hm.sent, List.nil_append]

/-- A turn whose frame fits the buffer ends well exactly if its frame can be
    answered. -/
theorem turned_ends [DecimalImpl D] (s : Server) (peer : Int) (buf : Str) (t : Trace D)
    (r : Str ⊕ Exit) (hbuf : buf.length = bufSizeOnStack) (hfit : Fitting (received peer t))
    (h : Turned s peer buf t r) : EndsWell peer t r ↔ Answerable peer buf t := by
  cases h with
  | unread t got limit reps exit hm hrec =>
      rw [hm.received] at hfit
      -- As the frame fits, a read that came to nothing leaves the loop by `break`.
      have hexit := received_broke buf got limit reps exit hbuf hfit hrec
      subst hexit
      exact ⟨fun _ content hc => absurd hc
        (received_not_handed peer buf t got content limit reps _ hm hrec rfl),
        fun _ => EndsWell.left⟩
  | undecoded t content e htaken hparse =>
      have hc := taken_handed peer buf t [] content htaken rfl
      rw [List.append_nil] at hc
      refine ⟨fun h => (by cases h), fun h => ?_⟩
      rcases h content hc with ⟨request, hok, _⟩
      rw [hparse] at hok
      cases hok
  | faulted t content f htaken hparse =>
      have hc := taken_handed peer buf t [] content htaken rfl
      rw [List.append_nil] at hc
      refine ⟨fun h => (by cases h), fun h => ?_⟩
      rcases h content hc with ⟨request, hok, _⟩
      rw [hparse] at hok
      cases hok
  | answered t1 t2 content request exit htaken hparse hans =>
      have hc := taken_handed peer buf t1 t2 content htaken
        (answered_received s peer request t2 exit hans).1
      rcases answered_ends s peer (beHeader.frame content
          ++ buf.drop (headerSize + content.length)) request t1 t2 exit htaken.moves.sent
          htaken.moves.silent hans with ⟨hends, hall⟩ | ⟨⟨e, rfl⟩, j, hj, hnot⟩
      · refine ⟨fun _ content' hc' => ?_, fun _ => hends⟩
        -- There is one frame to speak of.
        rw [handed_unique peer _ content' content hc' hc]
        exact ⟨request, hparse, hall⟩
      · refine ⟨fun h => (by cases h), fun h => ?_⟩
        rcases h content hc with ⟨request', hok, hall⟩
        rw [hparse] at hok
        cases hok
        rcases hall j hj with ⟨id, method, args, hcall⟩
        exact absurd hcall (hnot id method args)

/-- A worker takes turns, and closes the descriptor exactly when the loop was left
    by `break`. -/
theorem worker_rounds [DecimalImpl D] (s : Server) (peer : Int) (n : Nat) (t : Trace D)
    (r : Str ⊕ Exit) (hr : Runs (s.worker peer n) t r) :
    ∃ (buf : { bs : Str // bs.length = bufSizeOnStack }) (ts : List (Trace D)),
      Rounds (s.turn peer) buf.1 ts r ∧ (r.isLeft → ts.length = n) ∧
        t = ⟨Call.stack bufSizeOnStack, buf⟩ :: (ts.flatten ++
          if r = .inr .broke then [⟨Call.close peer, ()⟩] else []) := by
  simp only [worker, onAccept, Prog.bind_def] at hr
  rcases (runs_bind_iff ..).mp hr with ⟨t1, t2, x, rfl, h1, h2⟩
  rcases (runs_stack_bind ..).mp h1 with ⟨buf, t3, rfl, h3⟩
  rcases loop_rounds _ n _ t3 x h3 with ⟨ts, rfl, hts, hlen⟩
  -- The descriptor is closed behind the loop, which an exception does not reach.
  have hend : r = x ∧ t2 = if x = .inr .broke then [⟨Call.close peer, ()⟩] else [] := by
    rcases x with buf' | _ | e | f
    · rcases (runs_ret_iff ..).mp h2 with ⟨rfl, rfl⟩
      exact ⟨rfl, rfl⟩
    · rcases (runs_sysClose_bind ..).mp h2 with ⟨u, t4, rfl, h4⟩
      rcases (runs_ret_iff ..).mp h4 with ⟨rfl, rfl⟩
      exact ⟨rfl, rfl⟩
    · rcases (runs_ret_iff ..).mp h2 with ⟨rfl, rfl⟩
      exact ⟨rfl, rfl⟩
    · rcases (runs_ret_iff ..).mp h2 with ⟨rfl, rfl⟩
      exact ⟨rfl, rfl⟩
  rcases hend with ⟨rfl, rfl⟩
  exact ⟨buf, ts, hts, hlen, rfl⟩

/-- What comes behind the loop moves nothing. -/
theorem moves_closing (peer : Int) (r : Str ⊕ Exit) :
    Moves (D := D) peer 0 (if r = .inr .broke then [⟨Call.close peer, ()⟩] else []) [] [] [] := by
  split
  · exact moves_idle peer 0 _ trivial
  · exact moves_nil peer 0

/-- The turns of a connection end well exactly if their frames can be answered,
    and the descriptor is closed exactly when the loop was left by `break`. -/
theorem worker_ends [DecimalImpl D] (s : Server) (peer : Int) :
    (∀ (buf : Str) (t : Trace D) (r : Str ⊕ Exit), buf.length = bufSizeOnStack →
      Fitting (received peer t) → Runs (s.turn peer buf) t r →
        (EndsWell peer t r ↔ Answerable peer buf t)) ∧
      ∀ (n : Nat) (t : Trace D) (r : Str ⊕ Exit), Runs (s.worker peer n) t r →
        ∃ (buf : { bs : Str // bs.length = bufSizeOnStack }) (ts : List (Trace D)),
          Rounds (s.turn peer) buf.1 ts r ∧ (r.isLeft → ts.length = n) ∧
            t = ⟨Call.stack bufSizeOnStack, buf⟩ :: (ts.flatten ++
              if r = .inr .broke then [⟨Call.close peer, ()⟩] else []) := by
  refine ⟨fun buf t r hbuf hfit hr => ?_, worker_rounds s peer⟩
  have hsize : headerSize ≤ buf.length := by
    rw [hbuf]
    decide
  exact turned_ends s peer buf t r hbuf hfit (turn_runs s peer buf hsize t r hr)

/-- A buffer as it may be at the start. -/
def zeros : Str := List.replicate bufSizeOnStack 0

/-- A turn of a server without functions whose peer sends `content`. -/
def emptyTurn (content : Str) : Trace Unit × (Str ⊕ Exit) :=
  drive Network.reply (Network.carrying (beHeader.frame content))
    ((bareServer fun _ => none).turn 4 zeros)

theorem emptyTurn_fitting (content : Str) (hfits : beHeader.Fits content)
    (hlen : headerSize + content.length ≤ bufSizeOnStack)
    (h : received 4 (emptyTurn content).1 = beHeader.frame content) :
    Fitting (received 4 (emptyTurn content).1) := by
  rw [h, ← List.append_nil (beHeader.frame content), fitting_frame content [] hfits]
  exact ⟨hlen, fitting_nil⟩

/-- A call of a function that is not there is answered. -/
theorem worker_ends_unbound :
    Answerable 4 zeros (emptyTurn (text "\x7b\"id\":1,\"method\":\"f\"\x7d")).1 := by
  have hleft : (emptyTurn (text "\x7b\"id\":1,\"method\":\"f\"\x7d")).2.isLeft = true := by
    decide +kernel
  rcases Sum.isLeft_iff.mp hleft with ⟨buf, hbuf⟩
  refine ((worker_ends (bareServer fun _ => none) 4).1 zeros _ _ List.length_replicate
    (emptyTurn_fitting _ (by unfold Framing.Header.Fits; decide) (by decide) (by decide +kernel))
    (runs_drive ..)).mp ?_
  change EndsWell 4 _ (emptyTurn _).2
  rw [hbuf]
  exact EndsWell.responded buf 1 _ _ (Or.inr ⟨-32601, text "Method not found", rfl⟩)
    (Or.inl ⟨by decide +kernel, rfl⟩) (by decide +kernel)

/-- A text that is not JSON ends `onAccept` with an exception. -/
theorem turn_throws :
    ¬ ∀ (s : Server) (peer : Int) (buf : Str) (t : Trace Unit) (r : Str ⊕ Exit),
      buf.length = bufSizeOnStack → Fitting (received peer t) → Runs (s.turn peer buf) t r →
        EndsWell peer t r := by
  intro h
  have hends := h (bareServer fun _ => none) 4 zeros _ _ List.length_replicate
    (emptyTurn_fitting (text "\x7b1") (by unfold Framing.Header.Fits; decide) (by decide)
      (by decide +kernel))
    (runs_drive ..)
  have hthrew : (emptyTurn (text "\x7b1")).2
      = .inr (.threw (.json "string parse failure: expect [\"]")) := by decide +kernel
  change EndsWell 4 _ (emptyTurn _).2 at hends
  rw [hthrew] at hends
  cases hends

/-! ## Leftovers in the buffer -/

/-- A frame is handled alike in every buffer: whatever stands behind it, it
    decodes to the same value or throws the same exception, and the rest of the
    turn is the same program. -/
def Isolated [DecimalImpl D] (s : Server) (peer : Int) (content : Str) : Prop :=
  ∃ (decoded : Res (Json D)) (rest : Proc D (Option Exit)), (∀ f, decoded ≠ .fault f) ∧
    ∀ left : Str, headerSize + (content.length + left.length) = bufSizeOnStack →
      decode (beHeader.frame content ++ left) (headerSize + content.length) = decoded ∧
        s.handle peer (beHeader.frame content ++ left) (headerSize + content.length) = rest

/-- A frame is handled alike in every buffer exactly if the parser has finished
    when the frame has. -/
theorem handle_isolated_iff [DecimalImpl D] (s : Server) (peer : Int) (content : Str)
    (hfit : headerSize + content.length ≤ bufSizeOnStack) :
    Isolated (D := D) s peer content ↔
      Scan.verdict content = some .done ∨ Scan.verdict content = some .throw := by
  constructor
  · rintro ⟨decoded, rest, hfault, hall⟩
    have hdecoded : ∀ left : Str,
        headerSize + (content.length + left.length) = bufSizeOnStack →
        parse (content ++ left) = decoded := by
      intro left hleft
      rw [← decode_frame content left (headerSize + content.length)]
      exact (hall left hleft).1
    -- A fault within the frame is one in every buffer.
    have hwithin : ∀ f, parse (D := D) content = .fault f → f ≠ .overrun → False := by
      intro f hp hf
      have hleft := hdecoded
        (List.replicate (bufSizeOnStack - (headerSize + content.length)) 0)
        (by rw [List.length_replicate]; omega)
      rw [Scan.parse_append _ _ (by rw [hp]; simpa using hf), hp] at hleft
      exact hfault _ hleft.symm
    rcases Scan.parse_spec (D := D) content with
      ⟨j, _, hv⟩ | ⟨what, _, hv⟩ | ⟨hp, _⟩ | ⟨hp, _⟩ | ⟨hp, hv⟩
    · exact Or.inl hv
    · exact Or.inr hv
    · exact (hwithin _ hp (by decide)).elim
    · exact (hwithin _ hp (by decide)).elim
    · -- The parser reads on, and some leftovers keep it reading to their end.
      rcases Scan.parse_overrun_extend content
        (bufSizeOnStack - (headerSize + content.length)) hp with ⟨left, hlen, hover⟩
      rw [hdecoded left (by omega)] at hover
      exact absurd hover (hfault _)
  · intro hv
    have hp : ∀ f, parse (D := D) content ≠ .fault f := by
      intro f hf
      rcases Scan.parse_spec (D := D) content with
        ⟨j, h, _⟩ | ⟨what, h, _⟩ | ⟨_, h⟩ | ⟨_, h⟩ | ⟨_, h⟩
      · rw [hf] at h
        cases h
      · rw [hf] at h
        cases h
      all_goals
        rw [h] at hv
        rcases hv with hv | hv <;> cases hv
    have hleft : ∀ left, decode (beHeader.frame content ++ left) (headerSize + content.length)
        = parse (D := D) content := by
      intro left
      rw [decode_frame, Scan.parse_append _ _ (hp _)]
    refine ⟨parse content,
      s.handle peer (beHeader.frame content ++ []) (headerSize + content.length), hp,
      fun left _ => ⟨hleft left, ?_⟩⟩
    rw [handle, hleft left, handle, hleft []]

/-- A request is handled alike in every buffer. -/
theorem handle_isolated_call :
    Isolated (D := Unit) (bareServer fun _ => none) 4
      (text "\x7b\"id\":1,\"method\":\"f\"\x7d") :=
  (handle_isolated_iff (bareServer fun _ => none) 4 _ (by decide)).mpr
    (Or.inl (by decide +kernel))

/-- What is left in the buffer decides what an empty frame holds. -/
theorem empty_frame_leftovers :
    ¬ ∀ (s : Server) (peer : Int) (content : Str),
      headerSize + content.length ≤ bufSizeOnStack → Isolated (D := Unit) s peer content := by
  intro h
  rcases h (bareServer fun _ => none) 4 [] (by decide) with ⟨decoded, _, _, hall⟩
  have hnull := (hall (Ch.lowerN :: List.replicate 16379 0) (by
    rw [List.length_cons, List.length_replicate]
    rfl)).1
  have htrue := (hall (Ch.lowerT :: List.replicate 16379 0) (by
    rw [List.length_cons, List.length_replicate]
    rfl)).1
  rw [decode_frame] at hnull htrue
  have hdiffer : parse (D := Unit) ([] ++ Ch.lowerN :: List.replicate 16379 0)
      ≠ parse ([] ++ Ch.lowerT :: List.replicate 16379 0) := by decide +kernel
  exact hdiffer (hnull.trans htrue.symm)

end Server

end Trpc
