import Trpc.Theory.Rpc.WriteAlign

/-!
# Where the Client Stands

What the health check is for: between two calls the client either stands at a
frame boundary in both directions, with a response read for every request, or it
knows that it is inside the response to its last request, or it has given up.

What it knows there need not be exact. A read of the content that ends with `-1`
has taken bytes that `Health` counts as unread, so the client will ask for more
than is left. That is harmless: the server has nothing to send but this one
response, so the client never gets as many bytes as it asks for, and never
becomes healthy again. With the header it is different, since a part of a header
leaves the length in the dark; `HeadersRead` says that this does not happen.

## Main definitions

* `HeadersRead`: No read of a header stopped on the way.
* `Paced`: The peer sends no more frames than it is sent.
* `Behind`: What `Health` knows of a response that is partly read.
* `Aligned`: Where the client stands.

## Theorems

* `drain_aligned`: The health check keeps the client aligned.
* `called_aligned`: A call does.
* `session_aligned`: Any number of calls do.
-/

namespace Trpc

open Vsjson Interaction

variable {D : Type}

/-- No read of the header of a response, in a call or in the health check, stopped
    on the way. -/
def HeadersRead (t : Trace D) : Prop :=
  ∀ r ∈ reports t, r.phase = .readHeader ∨ r.phase = .drainHeader → r.moved = 0 ∨ r.moved = r.size

instance (t : Trace D) : Decidable (HeadersRead t) :=
  inferInstanceAs (Decidable (∀ r ∈ reports t, r.phase = .readHeader ∨ r.phase = .drainHeader →
    r.moved = 0 ∨ r.moved = r.size))

theorem headersRead_append (t u : Trace D) :
    HeadersRead (t ++ u) ↔ HeadersRead t ∧ HeadersRead u := by
  simp only [HeadersRead, reports_append, List.forall_mem_append]

/-- At any point of the run at which whole frames have been sent, no more frames
    than that are on their way back. -/
def Paced (fd : Int) (t : Trace D) : Prop :=
  ∀ u, u <+: t → ∀ ws, (∀ w ∈ ws, beHeader.Fits w) → sent fd u = beHeader.frames ws →
    ∃ zs, (∀ z ∈ zs, beHeader.Fits z) ∧ zs.length ≤ ws.length ∧
      received fd u <+: beHeader.frames zs

theorem paced_initial (fd : Int) (t u : Trace D) (h : Paced fd t) (hu : u <+: t) : Paced fd u :=
  fun v hv => h v (hv.trans hu)

namespace Health

/-- What `Health` knows of a response of which `rest` has been read: nothing of it, or
    the header and at least as much of the content as it counts. -/
inductive Behind (h : Health) : Str → Prop
  | header : h._state = .headerReadSome → h._some = 0 → Behind h []
  | content (head got : Str) : head.length = headerSize → h._state = .contentReadSome →
      h._content = ntohl head → 0 ≤ h._some → h._some ≤ got.length → h._some ≤ ntohl head →
      Behind h (head ++ got)

/-- Where the client stands: at a boundary, inside the response to its last request,
    or nowhere any more. -/
inductive Aligned (fd : Int) (t : Trace D) (h : Health) : Prop
  | ready (ws ys : List Str) : h._state = .noRead → (∀ w ∈ ws, beHeader.Fits w) →
      (∀ y ∈ ys, beHeader.Fits y) → sent fd t = beHeader.frames ws →
      received fd t = beHeader.frames ys → ws.length = ys.length → Aligned fd t h
  | waiting (ws ys : List Str) (rest : Str) : Behind h rest → (∀ w ∈ ws, beHeader.Fits w) →
      (∀ y ∈ ys, beHeader.Fits y) → sent fd t = beHeader.frames ws →
      received fd t = beHeader.frames ys ++ rest → ws.length = ys.length + 1 → Aligned fd t h
  | stuck : h._state = .undefined → Aligned fd t h

/-- Where a client stands that did nothing, and neither did its health. -/
theorem aligned_idle (fd : Int) (t u : Trace D) (h : Health)
    (hu : received fd u = [] ∧ sent fd u = []) (ha : Aligned fd t h) : Aligned fd (t ++ u) h := by
  have hput : sent fd (t ++ u) = sent fd t := by rw [sent_append, hu.2, List.append_nil]
  have hgot : received fd (t ++ u) = received fd t := by
    rw [received_append, hu.1, List.append_nil]
  cases ha with
  | ready ws ys hs hws hys hw hy hlen =>
      exact Aligned.ready ws ys hs hws hys (hput.trans hw) (hgot.trans hy) hlen
  | waiting ws ys rest hb hws hys hw hy hlen =>
      exact Aligned.waiting ws ys rest hb hws hys (hput.trans hw) (hgot.trans hy) hlen
  | stuck hs => exact Aligned.stuck hs

/-! ## The health check -/

/-- When as much as was announced has been read behind the last header, then that was
    the content, and the client stands at a boundary. -/
theorem paced_whole (fd : Int) (t : Trace D) (ws ys : List Str) (head got : Str)
    (hpaced : Paced fd t) (hws : ∀ w ∈ ws, beHeader.Fits w) (hys : ∀ y ∈ ys, beHeader.Fits y)
    (hw : sent fd t = beHeader.frames ws)
    (hy : received fd t = beHeader.frames ys ++ (head ++ got))
    (hlen : ws.length = ys.length + 1) (hhead : head.length = headerSize)
    (hgot : ntohl head ≤ got.length) :
    beHeader.Fits got ∧ received fd t = beHeader.frames (ys ++ [got]) := by
  rcases hpaced t List.prefix_rfl ws hws hw with ⟨zs, hzs, hle, hpre⟩
  rw [hy] at hpre
  -- The stream holds one response for each request at most: those read, and one more.
  rcases beHeader.frames_prefix ys zs _ hys hzs hpre with ⟨us, rfl, hrest⟩
  rw [List.length_append] at hle
  match us, hrest with
  | [], hrest =>
      have hnil := List.append_eq_nil_iff.mp (List.prefix_nil.mp hrest)
      rw [hnil.1] at hhead
      cases hhead
  | [z], hrest =>
      rw [beHeader.frames_singleton] at hrest
      have hz := hzs z (List.mem_append_right _ (List.mem_singleton_self z))
      rcases beHeader.frame_head head got z hhead hz hrest with ⟨hdecode, hgotz⟩
      have hn : ntohl head = z.length := hdecode
      have heq : got = z := hgotz.eq_of_length_le (by omega)
      subst heq
      refine ⟨hz, ?_⟩
      rw [hy, beHeader.frames_append, beHeader.frames_singleton,
        beHeader.frame_of_decode head got hhead hn.symm]
  | _ :: _ :: us, _ =>
      simp only [List.length_cons] at hle
      omega

/-- One read of the health check behind the header of a response. -/
theorem content_aligned (fd : Int) (t u : Trace D) (h : Health) (buf : Str) (ws ys : List Str)
    (head got bs : Str) (reps : List Report) (h' : Health) (buf' : Str)
    (hpaced : Paced fd (t ++ u)) (hws : ∀ w ∈ ws, beHeader.Fits w)
    (hys : ∀ y ∈ ys, beHeader.Fits y) (hw : sent fd t = beHeader.frames ws)
    (hy : received fd t = beHeader.frames ys ++ (head ++ got)) (hlen : ws.length = ys.length + 1)
    (hhead : head.length = headerSize) (hstate : h._state = .contentReadSome)
    (hcontent : h._content = ntohl head) (hpos : 0 ≤ h._some) (hgot : h._some ≤ got.length)
    (hsome : h._some ≤ ntohl head) (hm : Moves fd 0 u bs [] reps)
    (hstep : Stepped h buf (toSize (h._content - h._some)) .noRead .drainContent bs reps
      (.ok (h', buf'))) : Aligned fd (t ++ u) h' := by
  have hput : sent fd (t ++ u) = beHeader.frames ws := by
    rw [sent_append, hm.sent, hw, List.append_nil]
  have hread : received fd (t ++ u) = beHeader.frames ys ++ (head ++ (got ++ bs)) := by
    rw [received_append, hm.received, hy]
    simp only [List.append_assoc]
  -- The read asks for exactly what is left of the content.
  have hbound : (toSize (h._content - h._some) : Int) = ntohl head - h._some := by
    have hlt := ntohl_lt head hhead
    rw [toSize, hcontent, Int.emod_eq_of_lt (by omega) (by omega)]
    omega
  cases hstep with
  | failed => exact Aligned.stuck rfl
  | finished => exact Aligned.stuck rfl
  | short bs hbs hlt =>
      refine Aligned.waiting ws ys _
        (Behind.content head (got ++ bs) hhead hstate hcontent ?_ ?_ ?_)
        hws hys hput hread hlen
      · change 0 ≤ h._some + _
        omega
      · change h._some + _ ≤ _
        rw [List.length_append]
        omega
      · change h._some + _ ≤ _
        omega
  | whole bs hbs hfull =>
      -- At least the whole content was read, and no more has been sent than one response.
      have hall := paced_whole fd (t ++ u) ws ys head (got ++ bs) hpaced hws hys hput hread
        hlen hhead
        (by rw [List.length_append]; omega)
      exact Aligned.ready ws _ rfl hws
        (List.forall_mem_append.mpr ⟨hys, List.forall_mem_singleton.mpr hall.1⟩) hput hall.2
        (by rw [List.length_append, List.length_singleton, hlen])

/-- One read of the header of a response that has not been begun. -/
theorem header_aligned (fd : Int) (t u : Trace D) (h : Health) (buf : Str) (ws ys : List Str)
    (bs : Str) (reps : List Report) (h' : Health) (buf' : Str)
    (hws : ∀ w ∈ ws, beHeader.Fits w) (hys : ∀ y ∈ ys, beHeader.Fits y)
    (hw : sent fd t = beHeader.frames ws) (hy : received fd t = beHeader.frames ys)
    (hlen : ws.length = ys.length + 1) (hsome : h._some = 0)
    (hwhole : HeadersRead u) (hm : Moves fd 0 u bs [] reps)
    (hstep : Stepped h buf (toSize (headerSize - h._some)) .contentReadSome .drainHeader bs reps
      (.ok (h', buf'))) : Aligned fd (t ++ u) (h'.learn buf') := by
  have hput : sent fd (t ++ u) = beHeader.frames ws := by
    rw [sent_append, hm.sent, hw, List.append_nil]
  have hbound : toSize (headerSize - h._some) = headerSize := by
    rw [hsome]
    rfl
  rw [HeadersRead, hm.reports] at hwhole
  rw [hbound] at hstep
  cases hstep with
  | failed => exact Aligned.stuck rfl
  | finished => exact Aligned.stuck rfl
  | short bs hbs hlt =>
      -- A header that came in part is what `HeadersRead` excludes.
      rcases hwhole _ (List.mem_singleton_self _) (Or.inr rfl) with hzero | hfull
      · have hzero : bs.length = 0 := hzero
        omega
      · have hfull : bs.length = headerSize := hfull
        omega
  | whole bs hbs hfull =>
      -- The header is at the front of the buffer, and the length is taken from there.
      have hlength := contentLength_append bs (buf.drop bs.length) hfull
      have hread : received fd (t ++ u) = beHeader.frames ys ++ (bs ++ []) := by
        rw [received_append, hm.received, hy, List.append_nil]
      simp only [learn, if_true, hlength]
      split
      · exact Aligned.stuck rfl
      · exact Aligned.waiting ws ys _ (Behind.content bs [] hfull rfl rfl (le_refl _)
          (le_refl _) (Int.natCast_nonneg _)) hws hys hput hread hlen

/-- The loop of `check` keeps the client aligned, and is content only with a boundary. -/
theorem drain_aligned (fd : Int) (n : Nat) :
    ∀ (h h' : Health) (buf : Str) (t u : Trace D) (b : Bool), Aligned fd t h →
      Paced fd (t ++ u) → HeadersRead u → Runs (drain fd n h buf) u (.ok (h', b)) →
        Aligned fd (t ++ u) h' ∧ (b = true → h'._state = .noRead) := by
  induction n with
  | zero =>
      intro h h' buf t u b ha _ _ hr
      rcases (runs_ret_iff ..).mp hr with ⟨rfl, hx⟩
      cases hx
      rw [List.append_nil]
      exact ⟨ha, fun h => absurd h Bool.false_ne_true⟩
  | succ n ih =>
      intro h h' buf t u b ha hpaced hwhole hr
      -- After a read the loop goes on from where the client then stands.
      have hrest : ∀ (x : Health) (buf' : Str) (v w : Trace D), u = v ++ w →
          Aligned fd (t ++ v) x → Runs (drain fd n x buf') w (.ok (h', b)) →
          Aligned fd (t ++ u) h' ∧ (b = true → h'._state = .noRead) := by
        rintro x buf' v w rfl hx hw
        rw [← List.append_assoc]
        rw [← List.append_assoc] at hpaced
        exact ih x h' buf' (t ++ v) w b hx hpaced ((headersRead_append v w).mp hwhole).2 hw
      cases hs : h._state with
      | noRead =>
          simp only [drain, hs] at hr
          rcases (runs_ret_iff ..).mp hr with ⟨rfl, hx⟩
          cases hx
          rw [List.append_nil]
          exact ⟨ha, fun _ => hs⟩
      | undefined =>
          simp only [drain, hs] at hr
          exact hrest h buf [] u rfl (by rwa [List.append_nil]) hr
      | headerReadSome =>
          simp only [drain, hs, Prog.bind_def] at hr
          rcases (runs_bind_iff ..).mp hr with ⟨v, w, x, rfl, h1, h2⟩
          rcases stateMachine_runs h fd buf _ _ x v h1 with ⟨bs, reps, hm, hstep⟩
          cases x with
          | error f =>
              cases ((runs_ret_iff ..).mp h2).2
          | ok x =>
              cases ha with
              | ready ws ys hready => rw [hs] at hready; cases hready
              | stuck hstuck => rw [hs] at hstuck; cases hstuck
              | waiting ws ys rest hb hws hys hw hy hlen =>
                  cases hb with
                  | content _ _ _ hstate => rw [hs] at hstate; cases hstate
                  | header _ hsome =>
                      rw [List.append_nil] at hy
                      exact hrest _ x.2 v w rfl (header_aligned fd t v h buf ws ys bs reps x.1 x.2
                        hws hys hw hy hlen hsome ((headersRead_append v w).mp hwhole).1 hm hstep) h2
      | contentReadSome =>
          simp only [drain, hs, Prog.bind_def] at hr
          rcases (runs_bind_iff ..).mp hr with ⟨v, w, x, rfl, h1, h2⟩
          rcases stateMachine_runs h fd buf _ _ x v h1 with ⟨bs, reps, hm, hstep⟩
          cases x with
          | error f =>
              cases ((runs_ret_iff ..).mp h2).2
          | ok x =>
              cases ha with
              | ready ws ys hready => rw [hs] at hready; cases hready
              | stuck hstuck => rw [hs] at hstuck; cases hstuck
              | waiting ws ys rest hb hws hys hw hy hlen =>
                  cases hb with
                  | header hstate => rw [hs] at hstate; cases hstate
                  | content head got hhead _ hcontent hpos hgot hsome =>
                      have hpre : Paced fd (t ++ v) := by
                        rw [← List.append_assoc] at hpaced
                        exact paced_initial fd _ _ hpaced (List.prefix_append _ _)
                      exact hrest x.1 x.2 v w rfl (content_aligned fd t v h buf ws ys head got
                        bs reps x.1 x.2 hpre hws hys hw hy hlen hhead hs hcontent hpos hgot hsome
                        hm hstep) h2

theorem check_aligned (h h' : Health) (fd : Int) (t u : Trace D) (b : Bool)
    (ha : Aligned fd t h) (hpaced : Paced fd (t ++ u)) (hwhole : HeadersRead u)
    (hr : Runs (h.check fd) u (.ok (h', b))) :
    Aligned fd (t ++ u) h' ∧ (b = true → h'._state = .noRead) := by
  unfold check at hr
  split at hr
  · rcases (runs_ret_iff ..).mp hr with ⟨rfl, hx⟩
    cases hx
    rw [List.append_nil]
    exact ⟨ha, fun h => absurd h Bool.false_ne_true⟩
  split at hr
  · rename_i hs
    rcases (runs_ret_iff ..).mp hr with ⟨rfl, hx⟩
    cases hx
    rw [List.append_nil]
    exact ⟨ha, fun _ => hs⟩
  · simp only [Prog.bind_def, runs_stack_bind] at hr
    rcases hr with ⟨buf, v, rfl, hr⟩
    rw [List.append_cons] at hpaced ⊢
    exact drain_aligned fd 5 h h' buf.1 (t ++ [_]) v b (aligned_idle fd t _ h ⟨rfl, rfl⟩ ha) hpaced
      ((headersRead_append [_] v).mp hwhole).2 hr

end Health

namespace Client

/-! ## Calls -/

/-- Where a client stands, unless it is closed. -/
def Stands (fd : Int) (t : Trace D) (c : Client) : Prop :=
  c._socket < 0 ∨ c._socket = fd ∧ Health.Aligned fd t c._health

/-- A call whose health check was content, and which has written its request, has one
    request more than responses. -/
theorem written_aligned [DecimalImpl D] (fd : Int) (j : Json D) (t t1 t2 : Trace D)
    (h h' : Health) (reps : List Report) (ha : Health.Aligned fd t h)
    (hpaced : Paced fd (t ++ t1)) (hwhole : HeadersRead t1)
    (hcheck : Runs (h.check fd) t1 (.ok (h', true)))
    (hm : Moves fd 0 t2 [] (Codec.dump j).frame reps) :
    ∃ ws ys, (∀ w ∈ ws, beHeader.Fits w) ∧ (∀ y ∈ ys, beHeader.Fits y) ∧
      sent fd t = beHeader.frames ws ∧
      sent fd (t ++ (t1 ++ t2)) = beHeader.frames (ws ++ [(Codec.dump j).content]) ∧
      received fd (t ++ (t1 ++ t2)) = beHeader.frames ys ∧ ws.length = ys.length ∧
      h'._state = .noRead := by
  rcases Health.check_aligned h h' fd t t1 true ha hpaced hwhole hcheck with ⟨ha', hready⟩
  cases ha' with
  | stuck hs => rw [hready rfl] at hs; cases hs
  | waiting ws ys rest hb =>
      cases hb with
      | header hs => rw [hready rfl] at hs; cases hs
      | content _ _ _ hs => rw [hready rfl] at hs; cases hs
  | ready ws ys hs hws hys hw hy hlen =>
      rcases Health.check_moves h fd t1 _ hcheck with ⟨_, _, hm1⟩
      rw [sent_append, hm1.sent, List.append_nil] at hw
      refine ⟨ws, ys, hws, hys, hw, ?_, ?_, hlen, hs⟩
      · simp only [sent_append, hw, hm1.sent, hm.sent, List.nil_append, beHeader.frames_append,
          beHeader.frames_singleton, dump_frame]
      · rw [← List.append_assoc, received_append, hy, hm.received, List.append_nil]

/-- A call keeps the client aligned. -/
theorem called_aligned [DecimalImpl D] (fd : Int) (c c' : Client) (T : Ty) (j : Json D)
    (t u : Trace D) (r : Res (Option (T.denote D))) (hstands : Stands fd t c)
    (hpaced : Paced fd (t ++ u)) (hwrite : HeadersWhole u) (hread : HeadersRead u)
    (hfault : ∀ f, r ≠ .fault f) (h : Called c T (Codec.dump j) u c' r) :
    Stands fd (t ++ u) c' := by
  rcases hstands with hclosed | ⟨hfd, ha⟩
  · rw [(called_closed c c' T _ u r h hclosed).2]
    exact Or.inl hclosed
  have hneg : socketInvalid < 0 := by decide
  have hcheck : ∀ (v w : Trace D) (x : Health) (b : Bool), u = v ++ w →
      Runs (c._health.check c._socket) v (.ok (x, b)) → Health.Aligned fd (t ++ v) x := by
    rintro v w x b rfl hr
    rw [hfd] at hr
    refine (Health.check_aligned c._health x fd t v b ha (paced_initial fd _ _ hpaced ?_)
      ((headersRead_append v w).mp hread).1 hr).1
    rw [← List.append_assoc]
    exact List.prefix_append _ _
  cases h with
  | unhealthy _ x hc => exact Or.inr ⟨hfd, hcheck u [] x false (List.append_nil u).symm hc⟩
  | faulted _ f => exact absurd rfl (hfault f)
  | unwritten t1 t2 x put reps c' hc hm hw =>
      cases hw with
      | closed => exact Or.inl hneg
      | unsent y e hret he =>
          -- Nothing came back, and so nothing was written.
          have hmoved : y.moved = [] := by
            apply List.eq_nil_of_length_eq_zero
            rcases he.ret with ⟨hfail, _⟩ | hsome
            · have hw := ((headersWhole_append t1 t2).mp hwrite).2
              rw [HeadersWhole, hm.reports] at hw
              exact hw _ (List.mem_singleton_self _) rfl hfail
            · omega
          rw [hfd, hmoved] at hm
          refine Or.inr ⟨hfd, ?_⟩
          rw [← List.append_assoc]
          exact Health.aligned_idle fd (t ++ t1) t2 x ⟨hm.received, hm.sent⟩
            (hcheck t1 t2 x true rfl hc)
  | answered t1 t2 t3 x reps got reps' c' r hc hm hreps hm' hback =>
      rw [hfd] at hc hm hm'
      have hpre : Paced fd (t ++ t1) := paced_initial fd _ _ hpaced
        (by rw [← List.append_assoc]; exact List.prefix_append _ _)
      have hread' := (headersRead_append t1 _).mp hread
      rcases written_aligned fd j t t1 t2 _ x reps ha hpre hread'.1 hc hm with
        ⟨ws, ys, hws, hys, _, hput, hgot, hlen, hready⟩
      have hws' : ∀ w ∈ ws ++ [(Codec.dump j).content], beHeader.Fits w :=
        List.forall_mem_append.mpr ⟨hws, List.forall_mem_singleton.mpr (content_fits j)⟩
      have hlen' : (ws ++ [(Codec.dump j).content]).length = ys.length + 1 := by
        rw [List.length_append, hlen, List.length_singleton]
      have hput' : sent fd (t ++ (t1 ++ (t2 ++ t3)))
          = beHeader.frames (ws ++ [(Codec.dump j).content]) := by
        rw [← hput]
        simp only [sent_append, hm'.sent, List.append_nil]
      have hgot' : received fd (t ++ (t1 ++ (t2 ++ t3))) = beHeader.frames ys ++ got := by
        rw [← hgot]
        simp only [received_append, hm'.received, List.append_assoc]
      have hreport := ((headersRead_append t2 t3).mp hread'.2).2
      rw [HeadersRead, hm'.reports] at hreport
      cases hback with
      | tooLong => exact Or.inl hneg
      | noHeader y e hret he =>
          have hmoved : y.moved.length = 0 := by
            rcases hreport _ (List.mem_singleton_self _) (Or.inl rfl) with hzero | hfull
            · exact hzero
            · have hfull : y.moved.length = headerSize := hfull
              rcases he.ret with ⟨_, hlt | hzero⟩ | hret'
              · omega
              · exact hzero
              · exact absurd (hret'.trans (by rw [hfull])) hret
          have hsome : max 0 y.ret = 0 := by
            rcases he.ret with ⟨hfail, _⟩ | hret' <;> omega
          rw [List.eq_nil_of_length_eq_zero hmoved] at hgot'
          exact Or.inr ⟨hfd, Health.Aligned.waiting _ ys []
            (Health.Behind.header rfl hsome) hws' hys
            hput' hgot' hlen'⟩
      | noContent head y e hhead hfit hret he =>
          have hle := he.length_le
          refine Or.inr ⟨hfd, Health.Aligned.waiting _ ys _
            (Health.Behind.content head y.moved hhead
            rfl rfl (le_max_left 0 y.ret) ?_ ?_) hws' hys hput' hgot' hlen'⟩
          · change max 0 y.ret ≤ _
            rcases he.ret with ⟨hfail, _⟩ | hret' <;> omega
          · change max 0 y.ret ≤ _
            rcases he.ret with ⟨hfail, _⟩ | hret' <;> omega
      | whole y rest reps' hfits hroom =>
          refine Or.inr ⟨hfd, Health.Aligned.ready _ (ys ++ [y]) hready hws'
            (List.forall_mem_append.mpr ⟨hys, List.forall_mem_singleton.mpr hfits⟩) hput' ?_ ?_⟩
          · rw [hgot', beHeader.frames_append, beHeader.frames_singleton]
          · rw [hlen', List.length_append, List.length_singleton]

/-- Any number of calls keep the client aligned. -/
theorem session_aligned [DecimalImpl D] (fd : Int) (tasks : List (Task D)) :
    ∀ (c c' : Client) (t u : Trace D), Stands fd t c → Paced fd (t ++ u) → HeadersWhole u →
      HeadersRead u → Runs (session tasks c) u (.ok c') → Stands fd (t ++ u) c' := by
  induction tasks with
  | nil =>
      intro c c' t u hstands _ _ _ hr
      rcases (runs_ret_iff ..).mp hr with ⟨rfl, hc⟩
      cases hc
      rwa [List.append_nil]
  | cons task tasks ih =>
      intro c c' t u hstands hpaced hwrite hread hr
      rcases session_cons_runs task tasks c c' u hr with
        ⟨u1, u2, c1, r, rfl, hcall, hfault, hrest⟩
      rw [← List.append_assoc] at hpaced ⊢
      rcases (headersWhole_append u1 u2).mp hwrite with ⟨hwrite1, hwrite2⟩
      rcases (headersRead_append u1 u2).mp hread with ⟨hread1, hread2⟩
      exact ih c1 c' (t ++ u1) u2 (called_aligned fd
        (c.setTimeout task.timeout) c1 _ _ t u1 r hstands
        (paced_initial fd _ _ hpaced (List.prefix_append _ _)) hwrite1 hread1 hfault hcall)
        hpaced hwrite2 hread2 hrest

end Client

end Trpc
