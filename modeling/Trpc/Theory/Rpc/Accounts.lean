import Mathlib.Data.List.Forall2
import Trpc.Theory.Rpc.Turns

/-!
# Requests and Responses of a Worker

What the two streams of a connection say about each other, seen from the server,
at any moment and whatever the peer sends and the network does. The server takes
frames off one stream and puts frames on the other, at most one for each that it
has taken, and in that order. The last response may be unfinished.

An `Account` of a run is the list of frames taken, the sublist of those that were
answered, and the list of responses. It is built along the rounds of the loop: a
round that goes on adds one frame and at most one response, both complete, and
only the round that has not ended leaves something unfinished.

## Main definitions

* `Responding`: A turn as far as some of its response is on the wire.
* `Responded`: Somewhere in a run, a frame was taken and responded to.
* `Account`: What a run has taken and sent.
* `Vacant`: A part of a run in which nothing is done.

## Theorems

* `turned_responding`: A turn that has sent something is responding.
* `rounds_account`: The account of a loop stopped anywhere.
* `worker_turns`: A worker has done what a part of its turns has.
* `worker_account`: The account of a worker stopped anywhere.
-/

namespace Trpc

open Vsjson Interaction

variable {D : Type}

/-! ## Prefixes of a run -/

theorem prefix_append_cases {β : Type} (a b u : List β) (hu : u <+: a ++ b) :
    u <+: a ∨ ∃ c, u = a ++ c ∧ c <+: b := by
  rcases List.prefix_or_prefix_of_prefix hu (List.prefix_append a b) with h | ⟨c, rfl⟩
  · exact Or.inl h
  · exact Or.inr ⟨c, rfl, (List.prefix_append_right_inj a).mp hu⟩

/-- A run that has sent something has got past a part that sends nothing. -/
theorem prefix_past (fd : Int) (a b u : Trace D) (hu : u <+: a ++ b) (ha : sent fd a = [])
    (hne : sent fd u ≠ []) : ∃ c, u = a ++ c ∧ c <+: b := by
  rcases prefix_append_cases a b u hu with ⟨r, rfl⟩ | h
  · rw [sent_append, List.append_eq_nil_iff] at ha
    exact absurd ha.1 hne
  · exact h

/-- What a prefix of a part moves is a prefix of what the part moves. -/
theorem moves_initial (fd : Int) (limit : Nat) (t u : Trace D) (got put : Str)
    (reps : List Report) (hm : Moves fd limit t got put reps) (hu : u <+: t) :
    received fd u <+: got ∧ sent fd u <+: put ∧ Silent u := by
  rcases hu with ⟨r, rfl⟩
  have hgot := hm.received
  have hput := hm.sent
  rw [received_append] at hgot
  rw [sent_append] at hput
  refine ⟨⟨_, hgot⟩, ⟨_, hput⟩, ?_⟩
  rcases hm.silent with ⟨h1, h2, h3, h4⟩
  rw [netCalls_append, List.append_eq_nil_iff] at h1
  rw [requestCalls_append, List.append_eq_nil_iff] at h2
  rw [responseCalls_append, List.append_eq_nil_iff] at h3
  rw [invocations_append, List.append_eq_nil_iff] at h4
  exact ⟨h1.1, h2.1, h3.1, h4.1⟩

namespace Server

/-! ## One turn -/

/-- A turn as far as some of the response is on the wire: it has taken the frame of
    `x`, decoded it, made the call, and is writing `j`. -/
inductive Responding [DecimalImpl D] (s : Server) (peer : Int) (buf x : Str) :
    Trace D → Json D → Prop
  | mk (t1 t2 t3 t4 t5 : Trace D) (request shown j : Json D) (id : Int32) (method : Str)
      (args : Json D) (outcome : Res (Json D)) :
      Taken peer buf t1 x → parse (x ++ buf.drop (headerSize + x.length)) = .ok request →
      AskedRequest s request t2 true shown → Callable shown id method args →
      NetCalled s._table method args t3 outcome →
      AskedResponse s (settled id outcome) t4 true j →
      received peer t5 = [] → sent peer t5 <+: (Codec.dump j).frame → Silent t5 →
      Responding s peer buf x (t1 ++ (t2 ++ (t3 ++ (t4 ++ t5)))) j

theorem responding_moved [DecimalImpl D] (s : Server) (peer : Int) (buf x : Str) (t : Trace D)
    (j : Json D) (h : Responding s peer buf x t j) :
    beHeader.Fits x ∧ received peer t = beHeader.frame x ∧
      sent peer t <+: beHeader.frame (Codec.dump j).content := by
  cases h with
  | mk t1 t2 t3 t4 t5 request shown j id method args outcome ht hp h2 hc h3 h4 hgot hput hs =>
      -- Only the frame is received and only the response is sent.
      have hm2 := (h2.unmoved peer).1
      have hm3 := (h3.unmoved peer).1
      have hm4 := (h4.unmoved peer).1
      refine ⟨ht.fits, ?_, ?_⟩
      · simp only [received_append, ht.moves.received, hm2.received, hm3.received, hm4.received,
          hgot, List.append_nil]
      · simp only [sent_append, ht.moves.sent, hm2.sent, hm3.sent, hm4.sent, List.nil_append]
        rw [← dump_frame]
        exact hput

/-- A turn that has sent something is responding, and has called whom it calls. -/
theorem turned_responding [DecimalImpl D] (s : Server) (peer : Int) (buf : Str) (t u : Trace D)
    (r : Str ⊕ Exit) (h : Turned s peer buf t r) (hu : u <+: t) (hne : sent peer u ≠ []) :
    ∃ x j, Responding s peer buf x u j ∧ invocations u = invocations t := by
  -- A turn that sends nothing has no such part.
  have hnothing : sent peer t ≠ [] := by
    rcases hu with ⟨r, rfl⟩
    rw [sent_append]
    exact fun h => hne (List.append_eq_nil_iff.mp h).1
  cases h with
  | unread t got limit reps exit hm => exact absurd hm.sent hnothing
  | undecoded t content e ht => exact absurd ht.moves.sent hnothing
  | faulted t content f ht => exact absurd ht.moves.sent hnothing
  | answered t1 t content request exit ht hparse hans =>
      cases hans with
      | declined t j hask =>
          rw [sent_append, ht.moves.sent, (hask.unmoved peer).1.sent] at hnothing
          exact absurd rfl hnothing
      | threw t j e hask =>
          rw [sent_append, ht.moves.sent, (hask.unmoved peer).1.sent] at hnothing
          exact absurd rfl hnothing
      | called t2 t3 t j id method args outcome exit hask hcall hnet hreply =>
          have h2 := (hask.unmoved peer).1.sent
          have h3 := (hnet.unmoved peer).1.sent
          cases hreply with
          | dropped t j' hask4 =>
              simp only [sent_append, ht.moves.sent, h2, h3, (hask4.unmoved peer).1.sent,
                List.append_nil] at hnothing
              exact absurd rfl hnothing
          | wired t4 t5 j' put reps exit hask4 hm hw =>
              have h4 := (hask4.unmoved peer).1.sent
              have hinit : u <+: (t1 ++ (t2 ++ (t3 ++ t4))) ++ t5 := by
                simpa only [List.append_assoc] using hu
              rcases prefix_past peer _ t5 u hinit
                (by simp only [sent_append, ht.moves.sent, h2, h3, h4, List.append_nil]) hne with
                ⟨t6, rfl, ht6⟩
              rcases moves_initial peer 0 t5 t6 [] put reps hm ht6 with ⟨hgot, hput, hs⟩
              have hframe : put <+: (Codec.dump j').frame := by
                cases hw with
                | whole => exact List.prefix_rfl
                | cut _ _ hcut => exact hcut
              simp only [List.append_assoc]
              refine ⟨content, j', Responding.mk t1 t2 t3 t4 t6 request j j' id method args outcome
                ht hparse hask hcall hnet hask4 (List.prefix_nil.mp hgot) (hput.trans hframe) hs,
                ?_⟩
              -- Writing the response calls nobody, however much of it is out.
              simp only [invocations_append, hs.invocations, hm.silent.invocations]

/-- A turn that goes on has sent nothing, or all of its response. -/
theorem turned_on [DecimalImpl D] (s : Server) (peer : Int) (buf buf' : Str) (t : Trace D)
    (h : Turned s peer buf t (.inl buf')) :
    sent peer t = [] ∨ ∃ x j, Responding s peer buf x t j ∧
      sent peer t = beHeader.frame (Codec.dump j).content := by
  generalize hx : (Sum.inl buf' : Str ⊕ Exit) = x at h
  cases h with
  | unread => cases hx
  | undecoded => cases hx
  | faulted => cases hx
  | answered t1 t content request exit ht hparse hans =>
      cases hans with
      | declined t j hask =>
          left
          rw [sent_append, ht.moves.sent, (hask.unmoved peer).1.sent, List.append_nil]
      | threw => cases hx
      | called t2 t3 t j id method args outcome exit hask hcall hnet hreply =>
          have h2 := (hask.unmoved peer).1.sent
          have h3 := (hnet.unmoved peer).1.sent
          cases hreply with
          | dropped t j' hask4 =>
              left
              simp only [sent_append, ht.moves.sent, h2, h3, (hask4.unmoved peer).1.sent,
                List.append_nil]
          | wired t4 t5 j' put reps exit hask4 hm hw =>
              have h4 := (hask4.unmoved peer).1.sent
              cases hw with
              -- A response that was cut ends the loop.
              | cut => cases hx
              | whole reps hreps =>
                  refine Or.inr ⟨content, j', Responding.mk t1 t2 t3 t4 t5 request j j' id method
                    args outcome ht hparse hask hcall hnet hask4 hm.received ?_ hm.silent, ?_⟩
                  · rw [hm.sent]
                  · simp only [sent_append, ht.moves.sent, h2, h3, h4, hm.sent, List.nil_append,
                      dump_frame]

/-! ## A run -/

/-- Somewhere in a run the frame of `x.1` was taken, as the one behind `x.2` others,
    and is being responded to with `z`, to the end if `whole`. -/
def Responded [DecimalImpl D] (s : Server) (peer : Int) (t : Trace D) (whole : Prop)
    (x : Str × Nat) (z : Str) : Prop :=
  ∃ t1 u t2 buf j front, t = t1 ++ (u ++ t2) ∧ (∀ y ∈ front, beHeader.Fits y) ∧
    received peer t1 = beHeader.frames front ∧ front.length = x.2 ∧
    Responding s peer buf x.1 u j ∧ z = (Codec.dump j).content ∧
    (whole → sent peer u = beHeader.frame z)

theorem responded_mono [DecimalImpl D] (s : Server) (peer : Int) (a t b : Trace D)
    (before : List Str) (hbefore : ∀ y ∈ before, beHeader.Fits y)
    (ha : received peer a = beHeader.frames before) (whole whole' : Prop) (x : Str × Nat) (z : Str)
    (hw : whole' → whole) (h : Responded s peer t whole x z) :
    Responded s peer (a ++ (t ++ b)) whole' (x.1, x.2 + before.length) z := by
  rcases h with ⟨t1, u, t2, buf, j, front, rfl, hfront, hgot, hcount, hu, hz, hall⟩
  refine ⟨a ++ t1, u, t2 ++ b, buf, j, before ++ front, by simp only [List.append_assoc],
    List.forall_mem_append.mpr ⟨hbefore, hfront⟩, ?_, ?_, hu, hz, fun h => hall (hw h)⟩
  · rw [received_append, beHeader.frames_append, ha, hgot]
  · rw [List.length_append, hcount, Nat.add_comm]

/-- The same behind a part that takes nothing. -/
theorem responded_idle [DecimalImpl D] (s : Server) (peer : Int) (a t b : Trace D)
    (ha : received peer a = []) (whole whole' : Prop) (x : Str × Nat) (z : Str)
    (hw : whole' → whole) (h : Responded s peer t whole x z) :
    Responded s peer (a ++ (t ++ b)) whole' x z := by
  have hmono := responded_mono s peer a t b [] (fun _ h => absurd h List.not_mem_nil) ha whole
    whole' x z hw h
  exact hmono

/-- What a run has taken and sent: the frames taken, those of them that are responded
    to, with their places, and the responses, of which the last may be unfinished. -/
structure Account [DecimalImpl D] (s : Server) (peer : Int) (t : Trace D) (taken : List Str)
    (answered : List (Str × Nat)) (responses : List Str) : Prop where
  taken_fits : ∀ x ∈ taken, beHeader.Fits x
  responses_fit : ∀ z ∈ responses, beHeader.Fits z
  took : beHeader.frames taken <+: received peer t
  put : sent peer t <+: beHeader.frames responses
  sublist : answered.Sublist taken.zipIdx
  responded : List.Forall₂
    (Responded s peer t (sent peer t = beHeader.frames responses)) answered responses

theorem account_nil [DecimalImpl D] (s : Server) (peer : Int) (t : Trace D)
    (h : sent peer t = []) : Account s peer t [] [] [] where
  taken_fits := fun _ hx => absurd hx List.not_mem_nil
  responses_fit := fun _ hx => absurd hx List.not_mem_nil
  took := List.nil_prefix
  put := by rw [h]; exact List.nil_prefix
  sublist := List.Sublist.refl []
  responded := List.Forall₂.nil

/-- The account of a turn that is responding. -/
theorem account_responding [DecimalImpl D] (s : Server) (peer : Int) (buf x : Str) (t : Trace D)
    (j : Json D) (h : Responding s peer buf x t j) :
    Account s peer t [x] [(x, 0)] [(Codec.dump j).content] := by
  rcases responding_moved s peer buf x t j h with ⟨hfits, hgot, hput⟩
  refine ⟨List.forall_mem_singleton.mpr hfits, List.forall_mem_singleton.mpr (content_fits j),
    ?_, ?_, List.Sublist.refl _, ?_⟩
  · rw [beHeader.frames_singleton, hgot]
  · rw [beHeader.frames_singleton]
    exact hput
  · refine List.Forall₂.cons ⟨[], t, [], buf, j, [], ?_, fun _ h => absurd h List.not_mem_nil, rfl,
      rfl, h, rfl, fun hw => ?_⟩ List.Forall₂.nil
    · rw [List.append_nil, List.nil_append]
    · rw [hw, beHeader.frames_singleton]

/-- An account goes on behind a part in which everything was finished. -/
theorem account_append [DecimalImpl D] (s : Server) (peer : Int) (t u : Trace D)
    (taken taken' : List Str) (answered answered' : List (Str × Nat))
    (responses responses' : List Str) (ht : Account s peer t taken answered responses)
    (hgot : received peer t = beHeader.frames taken)
    (hput : sent peer t = beHeader.frames responses)
    (hu : Account s peer u taken' answered' responses') :
    Account s peer (t ++ u) (taken ++ taken')
      (answered ++ answered'.map (Prod.map id (· + taken.length))) (responses ++ responses') where
  taken_fits := List.forall_mem_append.mpr ⟨ht.taken_fits, hu.taken_fits⟩
  responses_fit := List.forall_mem_append.mpr ⟨ht.responses_fit, hu.responses_fit⟩
  took := by
    rw [received_append, beHeader.frames_append, hgot, List.prefix_append_right_inj]
    exact hu.took
  put := by
    rw [sent_append, beHeader.frames_append, hput, List.prefix_append_right_inj]
    exact hu.put
  sublist := by
    -- The places in the second part are counted from its beginning.
    have hshift : taken'.zipIdx taken.length
        = taken'.zipIdx.map (Prod.map id (· + taken.length)) :=
      (List.map_snd_add_zipIdx_eq_zipIdx (l := taken') (n := taken.length) (k := 0)).symm
    rw [List.zipIdx_append, Nat.zero_add, hshift]
    exact ht.sublist.append (hu.sublist.map _)
  responded := by
    refine List.rel_append ?_ (List.forall₂_map_left_iff.mpr ?_)
    · refine ht.responded.imp fun x z h => ?_
      exact responded_idle s peer [] t u rfl _ _ x z (fun _ => hput) h
    · refine hu.responded.imp fun x z h => ?_
      -- What was taken in the first part comes before each frame of the second.
      have hmono := responded_mono s peer t u [] taken ht.taken_fits hgot _
        (sent peer (t ++ u) = beHeader.frames (responses ++ responses')) x z (fun hw => ?_) h
      · rwa [List.append_nil] at hmono
      · rw [sent_append, beHeader.frames_append, hput] at hw
        exact List.append_cancel_left hw

/-- Parts that move nothing do not show in an account. -/
theorem account_pad [DecimalImpl D] (s : Server) (peer : Int) (a t b : Trace D)
    (taken : List Str) (answered : List (Str × Nat)) (responses : List Str)
    (ha : received peer a = [] ∧ sent peer a = []) (hb : sent peer b = [])
    (ht : Account s peer t taken answered responses) :
    Account s peer (a ++ (t ++ b)) taken answered responses := by
  have hput : sent peer (a ++ (t ++ b)) = sent peer t := by
    rw [sent_append, sent_append, ha.2, hb, List.nil_append, List.append_nil]
  refine ⟨ht.taken_fits, ht.responses_fit, ?_, by rw [hput]; exact ht.put, ht.sublist, ?_⟩
  · rw [received_append, received_append, ha.1, List.nil_append]
    exact ht.took.trans (List.prefix_append _ _)
  · rw [hput]
    exact ht.responded.imp fun x z h => responded_idle s peer a t b ha.1 _ _ x z id h

/-- A turn stopped anywhere. -/
theorem turned_account [DecimalImpl D] (s : Server) (peer : Int) (buf : Str) (t u : Trace D)
    (r : Str ⊕ Exit) (h : Turned s peer buf t r) (hu : u <+: t) :
    ∃ taken answered responses, Account s peer u taken answered responses := by
  by_cases hput : sent peer u = []
  · exact ⟨[], [], [], account_nil s peer u hput⟩
  · rcases turned_responding s peer buf t u r h hu hput with ⟨x, j, hx, _⟩
    exact ⟨_, _, _, account_responding s peer buf x u j hx⟩

/-- A turn that goes on has finished everything. -/
theorem turned_on_account [DecimalImpl D] (s : Server) (peer : Int) (buf buf' : Str)
    (t : Trace D) (h : Turned s peer buf t (.inl buf')) :
    ∃ taken answered responses, Account s peer t taken answered responses ∧
      received peer t = beHeader.frames taken ∧ sent peer t = beHeader.frames responses := by
  rcases turned_frame s peer buf buf' t h with ⟨content, hfits, hgot⟩
  rcases turned_on s peer buf buf' t h with hput | ⟨x, j, hx, hput⟩
  · refine ⟨[content], [], [], ⟨List.forall_mem_singleton.mpr hfits, ?_, ?_, ?_, ?_,
      List.Forall₂.nil⟩, ?_, hput⟩
    · exact fun _ hz => absurd hz List.not_mem_nil
    · rw [beHeader.frames_singleton, hgot]
    · rw [hput]
      exact List.nil_prefix
    · exact List.nil_sublist _
    · rw [beHeader.frames_singleton, hgot]
  · refine ⟨_, _, _, account_responding s peer buf x t j hx, ?_, ?_⟩
    · rw [beHeader.frames_singleton, (responding_moved s peer buf x t j hx).2.1]
    · rw [beHeader.frames_singleton, hput]

/-- The account of a loop stopped anywhere. -/
theorem rounds_account [DecimalImpl D] (s : Server) (peer : Int) (buf : Str)
    (ts : List (Trace D)) (r : Str ⊕ Exit) (hr : Rounds (s.turn peer) buf ts r) :
    headerSize ≤ buf.length → ∀ u, u <+: ts.flatten →
      ∃ taken answered responses, Account s peer u taken answered responses := by
  induction hr with
  | halt buf =>
      intro _ u hu
      rw [List.prefix_nil.mp hu]
      exact ⟨[], [], [], account_nil s peer [] rfl⟩
  | stop buf t exit ht =>
      intro hbuf u hu
      rw [List.flatten_singleton] at hu
      exact turned_account s peer buf t u _ (turn_runs s peer buf hbuf t _ ht) hu
  | next buf buf' t ts r ht _ ih =>
      intro hbuf u hu
      have hturned := turn_runs s peer buf hbuf t _ ht
      -- Stopped in this turn, or in one behind it.
      rcases prefix_append_cases t ts.flatten u hu with hu | ⟨v, rfl, hv⟩
      · exact turned_account s peer buf t u _ hturned hu
      · rcases turned_on_account s peer buf buf' t hturned with ⟨_, _, _, hacc, hgot, hput⟩
        rcases ih (by rw [turn_length s peer buf buf' hbuf t ht]; exact hbuf) v hv with
          ⟨_, _, _, hacc'⟩
        exact ⟨_, _, _, account_append s peer t v _ _ _ _ _ _ hacc hgot hput hacc'⟩

/-- A part of a run that moves nothing and calls nobody. -/
structure Vacant (peer : Int) (t : Trace D) : Prop where
  received : received peer t = []
  sent : sent peer t = []
  silent : Silent t

theorem vacant_prefix (peer : Int) (t u : Trace D) (limit : Nat) (reps : List Report)
    (hm : Moves peer limit t [] [] reps) (hu : u <+: t) : Vacant peer u := by
  rcases moves_initial peer limit t u [] [] reps hm hu with ⟨hgot, hput, hs⟩
  exact ⟨List.prefix_nil.mp hgot, List.prefix_nil.mp hput, hs⟩

/-- What a worker has done by any moment is what a part of its turns has done, between
    parts that do nothing. -/
theorem worker_turns [DecimalImpl D] (s : Server) (peer : Int) (n : Nat) (t : Trace D)
    (q : Proc D (Str ⊕ Exit)) (h : Reaches (s.worker peer n) t q) :
    ∃ buf ts r, Rounds (s.turn peer) buf ts r ∧ headerSize ≤ buf.length ∧
      ∀ u, u <+: t → ∃ a v b, u = a ++ (v ++ b) ∧ v <+: ts.flatten ∧ Vacant peer a ∧
        Vacant peer b := by
  rcases finish peer _ q t h with ⟨t', r, hr, _⟩
  rcases worker_rounds s peer n (t ++ t') r hr with ⟨buf, ts, hts, _, hall⟩
  have hsize : headerSize ≤ buf.1.length := by
    rw [buf.2]
    decide
  refine ⟨buf.1, ts, r, hts, hsize, fun u hu => ?_⟩
  have hpre : u <+: [⟨Call.stack bufSizeOnStack, buf⟩] ++ (ts.flatten ++
      if r = .inr .broke then [⟨Call.close peer, ()⟩] else []) := by
    rw [List.singleton_append, ← hall]
    exact hu.trans (List.prefix_append t t')
  have hstack := moves_idle (D := D) peer 0 ⟨Call.stack bufSizeOnStack, buf⟩ trivial
  have hclose := moves_closing (D := D) peer r
  have hnil : Vacant (D := D) peer [] := ⟨rfl, rfl, silent_nil⟩
  -- It has stopped in front of the turns, in them, or behind them.
  rcases prefix_append_cases _ _ u hpre with hu | ⟨v, rfl, hv⟩
  · exact ⟨u, [], [], (List.append_nil u).symm, List.nil_prefix,
      vacant_prefix peer _ u 0 [] hstack hu,
      hnil⟩
  rcases prefix_append_cases _ _ v hv with hv | ⟨w, rfl, hw⟩
  · exact ⟨_, v, [], by rw [List.append_nil], hv, vacant_prefix peer _ _ 0 [] hstack
      List.prefix_rfl,
      hnil⟩
  · exact ⟨_, ts.flatten, w, rfl, List.prefix_rfl,
      vacant_prefix peer _ _ 0 [] hstack List.prefix_rfl, vacant_prefix peer _ w 0 [] hclose hw⟩

/-- The account of a worker stopped anywhere. -/
theorem worker_account [DecimalImpl D] (s : Server) (peer : Int) (n : Nat) (t : Trace D)
    (q : Proc D (Str ⊕ Exit)) (h : Reaches (s.worker peer n) t q) :
    ∃ taken answered responses, Account s peer t taken answered responses := by
  rcases worker_turns s peer n t q h with ⟨buf, ts, r, hts, hsize, hall⟩
  rcases hall t List.prefix_rfl with ⟨a, v, b, rfl, hv, ha, hb⟩
  rcases rounds_account s peer buf ts r hts hsize v hv with ⟨_, _, _, hacc⟩
  exact ⟨_, _, _, account_pad s peer a v b _ _ _ ⟨ha.received, ha.sent⟩ hb.sent hacc⟩

end Server

end Trpc
