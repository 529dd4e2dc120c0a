import Trpc.Theory.Rpc.ClientRuns
import Trpc.Theory.Rpc.Turns

/-!
# Reads Inside the Buffer

Both endpoints receive into an array of 16384 bytes, and both read as many bytes
behind the header as the header says. The client compares the two numbers first
and closes the connection if the frame does not fit. The server has no such test.

`reads_inside` is what holds of each. The client's reads stay inside its buffer
in every run. The server's do in every run on a stream that happens to announce
no more than fits, which is as much as there is to say: one header that does not
fit, and the next read goes past the end.

## Theorems

* `turned_inside`: One turn of the server.
* `rounds_inside`: Any number of turns.
* `called_inside`: A call of the client.
* `readResponse_refuses`: The client's test.
* `reads_inside`: All of these, for runs stopped anywhere.
-/

namespace Trpc

open Vsjson Interaction

variable {D : Type}

namespace Server

/-! ## The server -/

/-- On a stream that fits, what is read into the buffer ends inside it. -/
theorem received_inside (buf got : Str) (limit : Nat) (reps : List Report)
    (r : Except Exit (Str × Nat)) (hbuf : buf.length = bufSizeOnStack)
    (hrec : Received buf got limit reps r) (hfit : Fitting got) : limit ≤ bufSizeOnStack := by
  have hheader : ∀ h x : Str, h.length = headerSize → Fitting (h ++ x) →
      headerSize + ntohl h ≤ bufSizeOnStack := by
    intro h x hh hfit
    refine hfit (ntohl h) ?_
    -- The header is one of those that the stream fits.
    rw [beHeader.lengths_header h x hh]
    exact List.mem_cons_self
  cases hrec with
  | idle => exact Nat.zero_le _
  | noHeader => decide
  | noContent h got ret hh => exact hheader h got hh hfit
  | overflow h got ret hh => exact hheader h got hh hfit
  | whole content hfits hin => rw [← hbuf]; exact hin

/-- A turn on a stream that fits reads inside its buffer. -/
theorem turned_inside [DecimalImpl D] (s : Server) (peer : Int) (buf : Str) (t : Trace D)
    (r : Str ⊕ Exit) (hbuf : buf.length = bufSizeOnStack) (hfit : Fitting (received peer t))
    (h : Turned s peer buf t r) : ReadsInside bufSizeOnStack t := by
  have htaken : ∀ t content, Taken (D := D) peer buf t content → ReadsInside bufSizeOnStack t := by
    intro t content ht
    exact readsInside_mono _ _ t (by rw [← hbuf]; exact ht.inside) ht.moves.inside
  cases h with
  | unread t got limit reps exit hm hrec =>
      rw [hm.received] at hfit
      exact readsInside_mono _ _ t (received_inside buf got limit reps _ hbuf hrec hfit) hm.inside
  | undecoded t content e ht => exact htaken t content ht
  | faulted t content f ht => exact htaken t content ht
  | answered t1 t2 content request exit ht hparse hans =>
      -- The answer reads nothing.
      refine (readsInside_append _ t1 t2).mpr ⟨htaken t1 content ht, ?_⟩
      exact readsInside_mono _ _ t2 (Nat.zero_le _)
        (answered_received s peer request t2 exit hans).2

/-- Any number of turns. -/
theorem rounds_inside [DecimalImpl D] (s : Server) (peer : Int) (buf : Str)
    (ts : List (Trace D)) (r : Str ⊕ Exit) (hr : Rounds (s.turn peer) buf ts r)
    (hbuf : buf.length = bufSizeOnStack) (hfit : Fitting (received peer ts.flatten)) :
    ReadsInside bufSizeOnStack ts.flatten := by
  have hsize : ∀ buf : Str, buf.length = bufSizeOnStack → headerSize ≤ buf.length := by
    intro buf h
    rw [h]
    decide
  induction hr with
  | halt buf => exact readsInside_nil _
  | stop buf t exit ht =>
      rw [List.flatten_singleton] at hfit ⊢
      exact turned_inside s peer buf t _ hbuf hfit (turn_runs s peer buf (hsize buf hbuf) t _ ht)
  | next buf buf' t ts r ht _ ih =>
      rw [List.flatten_cons, received_append] at hfit
      -- This turn has taken one frame, and the others have what comes behind it.
      rw [List.flatten_cons, readsInside_append]
      have hturned := turn_runs s peer buf (hsize buf hbuf) t _ ht
      rcases turned_frame s peer buf buf' t hturned with ⟨content, hfits, hgot⟩
      rw [hgot] at hfit
      rcases (fitting_frame content _ hfits).mp hfit with ⟨hlen, hfit⟩
      refine ⟨turned_inside s peer buf t _ hbuf ?_ hturned, ih ?_ hfit⟩
      · rw [hgot, ← List.append_nil (beHeader.frame content), fitting_frame content [] hfits]
        exact ⟨hlen, fitting_nil⟩
      · rw [turn_length s peer buf buf' (hsize buf hbuf) t ht, hbuf]

end Server

namespace Client

/-! ## The client -/

/-- A call reads inside its buffer. -/
theorem called_inside [DecimalImpl D] (c c' : Client) (T : Ty) (d : Dumped) (t : Trace D)
    (r : Res (Option (T.denote D))) (h : Called c T d t c' r) : ReadsInside bufSizeOnStack t := by
  have hcheck : ∀ t x, Runs (c._health.check c._socket : Proc D _) t x →
      ReadsInside bufSizeOnStack t := by
    intro t x hr
    rcases Health.check_moves _ _ t x hr with ⟨got, reps, hm⟩
    exact readsInside_mono _ _ t (Nat.zero_le _) hm.inside
  cases h with
  | unhealthy t h hc => exact hcheck t _ hc
  | faulted t f hc => exact hcheck t _ hc
  | unwritten t1 t2 h put reps c' hc hm =>
      exact (readsInside_append _ t1 t2).mpr
        ⟨hcheck t1 _ hc, readsInside_mono _ _ t2 (Nat.zero_le _) hm.inside⟩
  | answered t1 t2 t3 h reps got reps' c' r hc hm _ hm' =>
      -- The check and the request read nothing into the buffer.
      rw [readsInside_append, readsInside_append]
      exact ⟨hcheck t1 _ hc, readsInside_mono _ _ t2 (Nat.zero_le _) hm.inside, hm'.inside⟩

/-- Any number of calls. -/
theorem session_inside [DecimalImpl D] (tasks : List (Task D)) :
    ∀ (c : Client) (t : Trace D) (x : Except Fault Client), Runs (session tasks c) t x →
      ReadsInside bufSizeOnStack t := by
  induction tasks with
  | nil =>
      intro c t x hr
      rw [((runs_ret_iff ..).mp hr).1]
      exact readsInside_nil _
  | cons task tasks ih =>
      intro c t x hr
      rcases session_cons_cases task tasks c t x hr with
        ⟨t1, t2, c1, r, rfl, hcall, ⟨f, _, rfl⟩ | ⟨_, hrest⟩⟩
      · rw [List.append_nil]
        exact called_inside _ c1 _ _ t1 r hcall
      · exact (readsInside_append _ t1 t2).mpr ⟨called_inside _ c1 _ _ t1 r hcall,
          ih c1 t2 x hrest⟩

/-- A response whose frame does not fit ends the connection with its header. -/
theorem readResponse_refuses [DecimalImpl D] (c c' : Client) (T : Ty) (t : Trace D)
    (r : Res (Option (T.denote D))) (h x : Str) (hr : Runs (c.readResponse T) t (c', r))
    (hgot : received c._socket t = h ++ x) (hh : h.length = headerSize)
    (hlong : bufSizeOnStack < headerSize + ntohl h) :
    x = [] ∧ c'._socket = socketInvalid ∧ r = .ok none := by
  rcases readResponse_runs c c' T r t hr with ⟨got, reps, hm, hback⟩
  rw [hm.received] at hgot
  cases hback with
  | noHeader y e hret he =>
      -- All four bytes would have been a success.
      have hlen := congrArg List.length hgot
      rw [List.length_append] at hlen
      have hle := he.length_le
      rcases he.ret with ⟨_, hlt⟩ | hfull
      · have hpos : 0 < headerSize := by decide
        omega
      · exact absurd (hfull.trans (by omega)) hret
  | tooLong h' reps hh' hlong' =>
      have hlen := congrArg List.length hgot
      rw [List.length_append] at hlen
      exact ⟨List.eq_nil_of_length_eq_zero (by omega), rfl, rfl⟩
  | noContent h' y e hh' hfit =>
      rw [(List.append_inj hgot (hh'.trans hh.symm)).1] at hfit
      omega
  | whole content rest reps hfits hlen =>
      rw [Framing.Header.frame] at hgot
      have hhead := (List.append_inj hgot ((beHeader.length_encode _).trans hh.symm)).1
      -- A response that came whole has passed the test.
      have hn : ntohl h = content.length := by
        rw [← hhead]
        exact ntohl_htonl content.length hfits
      omega

end Client

/-! ## Runs stopped anywhere -/

/-- The server's reads stay inside its buffer as long as the headers on the stream
    announce what fits, the client's stay inside in every run, and a response that
    does not fit makes the client give up before any of its content is read. -/
theorem reads_inside [DecimalImpl D] :
    (∀ (s : Server) (peer : Int) (n : Nat) (t : Trace D) (q : Proc D (Str ⊕ Exit)),
      Reaches (s.worker peer n) t q → Server.Fitting (received peer t) →
        ReadsInside Server.bufSizeOnStack t) ∧
    (∀ (tasks : List (Client.Task D)) (c : Client) (t : Trace D)
      (q : Proc D (Except Fault Client)), Reaches (Client.session tasks c) t q →
        ReadsInside Client.bufSizeOnStack t) ∧
    ∀ (c c' : Client) (T : Ty) (t : Trace D) (r : Res (Option (T.denote D))) (h x : Str),
      Runs (c.readResponse T) t (c', r) → received c._socket t = h ++ x →
        h.length = headerSize → Client.bufSizeOnStack < headerSize + ntohl h →
          x = [] ∧ c'._socket = Client.socketInvalid ∧ r = .ok none := by
  refine ⟨fun s peer n t q hreach hfit => ?_, fun tasks c t q hreach => ?_,
    fun c c' T t r h x => Client.readResponse_refuses c c' T t r h x⟩
  · -- A run that was stopped can go on to its end without a byte more.
    rcases finish peer _ q t hreach with ⟨t', a, hr, hgot, _⟩
    rcases Server.worker_rounds s peer n (t ++ t') a hr with ⟨buf, ts, hts, _, ht⟩
    have hsame : received peer ts.flatten = received peer t := by
      have h := congrArg (received peer) ht
      rw [received_append, hgot, List.append_nil] at h
      rw [h, ← List.singleton_append, received_append, received_append]
      split <;> simp [received, Ev.received]
    have hin := Server.rounds_inside s peer buf.1 ts a hts buf.2 (by rw [hsame]; exact hfit)
    have hall : ReadsInside Server.bufSizeOnStack (t ++ t') := by
      rw [ht, ← List.singleton_append, readsInside_append, readsInside_append,
        readsInside_singleton]
      refine ⟨trivial, hin, ?_⟩
      split
      · exact (readsInside_singleton _ _).mpr trivial
      · exact readsInside_nil _
    exact ((readsInside_append _ t t').mp hall).1
  · rcases finish c._socket _ q t hreach with ⟨t', x, hr, _⟩
    exact ((readsInside_append _ t t').mp (Client.session_inside tasks c (t ++ t') x hr)).1

instance (limit : Nat) : (e : Ev D) → Decidable (e.ReadsInside limit)
  | ⟨.read _ offset size, _⟩ => inferInstanceAs (Decidable (offset + size ≤ limit))
  | ⟨.tick, _⟩ | ⟨.poll .., _⟩ | ⟨.write .., _⟩ | ⟨.usleep _, _⟩ | ⟨.sysRead .., _⟩
  | ⟨.close _, _⟩ | ⟨.stack _, _⟩ | ⟨.setErrno _, _⟩ | ⟨.requestCallback _, _⟩
  | ⟨.responseCallback _, _⟩ | ⟨.invoke .., _⟩ | ⟨.netCall .., _⟩ | ⟨.report _, _⟩ => isTrue trivial

instance (limit : Nat) (t : Trace D) : Decidable (ReadsInside limit t) :=
  inferInstanceAs (Decidable (∀ e ∈ t, e.ReadsInside limit))

/-- One turn of a worker whose peer sends `stream`. -/
def oneTurn (stream : Str) : Trace Unit × (Str ⊕ Exit) :=
  drive Network.reply (Network.carrying stream) ((bareServer fun _ => none).worker 4 1)

/-- A frame that fits is read into the buffer. -/
theorem reads_inside_frame :
    ReadsInside Server.bufSizeOnStack (oneTurn (beHeader.frame (text "[]"))).1 := by
  have hr := runs_drive Network.reply (Network.carrying (beHeader.frame (text "[]")))
    ((bareServer fun _ => none).worker 4 1)
  rw [← List.append_nil (drive _ _ _).1] at hr
  rcases reaches_of_runs _ _ [] _ hr with ⟨q, hreach, _⟩
  refine reads_inside.1 (bareServer fun _ => none) 4 1 _ q hreach ?_
  have hgot : received 4 (oneTurn (beHeader.frame (text "[]"))).1
      = beHeader.frame (text "[]") ++ [] := by decide +kernel
  change Server.Fitting (received 4 (oneTurn _).1)
  rw [hgot, Server.fitting_frame _ _ (show (text "[]").length < 4294967296 by decide)]
  exact ⟨by decide, Server.fitting_nil⟩

/-- A header that announces one byte too many is followed by a read past the end of
    the server's buffer. -/
theorem reads_past_the_end :
    ¬ ∀ (s : Server) (peer : Int) (n : Nat) (t : Trace Unit) (q : Proc Unit (Str ⊕ Exit)),
      Reaches (s.worker peer n) t q → ReadsInside Server.bufSizeOnStack t := by
  intro h
  have hr := runs_drive Network.reply (Network.carrying (htonl 16381))
    ((bareServer fun _ => none).worker 4 1)
  rw [← List.append_nil (drive _ _ _).1] at hr
  rcases reaches_of_runs _ _ [] _ hr with ⟨q, hreach, _⟩
  -- The read of 16381 bytes at offset four.
  have hpast : ¬ ReadsInside Server.bufSizeOnStack (oneTurn (htonl 16381)).1 := by
    decide +kernel
  exact hpast (h (bareServer fun _ => none) 4 1 _ q hreach)

end Trpc
