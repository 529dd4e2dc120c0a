import Trpc.Theory.Rpc.Alignment
import Trpc.Theory.Rpc.Drain

/-!
# Reading Away Exactly What Is Left

A call has stopped inside a response and recorded how many bytes of it have been
consumed. The checks in front of the following calls read the rest away, in as
many pieces as it comes, and one of them says yes. This module asks whether it
does so when, and only when, the stream stands behind the response.

Each check starts its local buffer anew, so that the length of the response can
be learnt only from a header that is read in one piece. `Workable` says this and
the three things besides: that there is a content at all, that what is left of a
content fits the buffer, and that no check finishes with the last of its five
reads.

## Main definitions

* `Recorded`: What a call records for the bytes it has consumed.
* `Checked`: Checks, one after the other, until one is not refused.
* `Owes`: How a record goes with the bytes consumed.
* `Workable`: What the checks can cope with.

## Theorems

* `header_owes`, `content_owes`: One round.
* `drain_owes`, `check_owes`: One check.
* `checked_exact`: Any number of checks.
-/

namespace Trpc

open Vsjson Interaction

variable {D : Type}

/-- A read of the health check. -/
def Ev.isDrain : Ev D → Bool
  | ⟨.sysRead _ _, _⟩ => true
  | _ => false

/-- How often the health check has read. -/
def drains (t : Trace D) : Nat := t.countP Ev.isDrain

theorem drains_append (t u : Trace D) : drains (t ++ u) = drains t + drains u :=
  List.countP_append

namespace Health

/-- What `call` records when it has consumed the first `m` bytes of a response. -/
inductive Recorded (content : Str) : Nat → Health → Prop
  | header (m : Nat) : m < headerSize → Recorded content m (Health.set m .headerReadSome 0)
  | content (m : Nat) : headerSize ≤ m → m < headerSize + content.length →
      Recorded content m (Health.set (m - headerSize) .contentReadSome content.length)

/-- Checks on one connection, one after the other. All but the last are refused;
    `ts` are their traces, one by one. -/
inductive Checked (fd : Int) : Health → List (Trace D) → Except Fault (Health × Bool) → Prop
  | once (h : Health) (t : Trace D) (r : Except Fault (Health × Bool)) :
      Runs (h.check fd) t r → Checked fd h [t] r
  | again (h h' : Health) (t : Trace D) (ts : List (Trace D)) (r : Except Fault (Health × Bool)) :
      Runs (h.check fd) t (.ok (h', false)) → Checked fd h' ts r → Checked fd h (t :: ts) r

/-- How a record goes with the first `done` bytes of a response being consumed. -/
inductive Owes (content : Str) (done : Nat) (h : Health) : Prop
  | header : h._state = .headerReadSome → h._some = 0 → done = 0 → Owes content done h
  | content : h._state = .contentReadSome → h._some = done - headerSize →
      h._content = content.length → headerSize ≤ done → done < headerSize + content.length →
      headerSize + content.length - done ≤ bufSize → Owes content done h
  | ready : h._state = .noRead → done = headerSize + content.length → Owes content done h
  | lost : h._state = .undefined → done < headerSize + content.length → Owes content done h

/-- A record shows a response read to its end exactly when it has been. -/
theorem owes_ready_iff (content : Str) (done : Nat) (h : Health) (ho : Owes content done h) :
    h._state = .noRead ↔ done = headerSize + content.length := by
  have hsize : headerSize = 4 := rfl
  cases ho with
  | header hs _ hd => simp only [hs, reduceCtorEq, false_iff]; omega
  | content hs _ _ _ hlt _ => simp only [hs, reduceCtorEq, false_iff]; omega
  | ready hs hd => simp only [hs, hd]
  | lost hs hlt => simp only [hs, reduceCtorEq, false_iff]; omega

/-! ## One round -/

theorem stateMachine_drains (h : Health) (fd : Int) (buf : Str) (boundary : Nat) (next : State)
    (t : Trace D) (r : Except Fault (Health × Str))
    (hr : Runs (h.stateMachine fd buf boundary next) t r) : drains t = 1 := by
  simp only [stateMachine, Prog.bind_def, runs_sysRead_bind] at hr
  rcases hr with ⟨ret, t1, rfl, hr⟩
  rcases ret with _ | bs
  · rcases (runs_report_bind ..).mp hr with ⟨u, t2, rfl, hend⟩
    rcases (runs_ret_iff ..).mp hend with ⟨rfl, _⟩
    rfl
  · rcases (runs_report_bind ..).mp hr with ⟨u, t2, rfl, hend⟩
    have ht : t2 = [] := by
      split at hend
      · exact ((runs_ret_iff ..).mp hend).1
      split at hend
      · exact ((runs_ret_iff ..).mp hend).1
      split at hend <;> exact ((runs_ret_iff ..).mp hend).1
    rw [ht]
    rfl

/-- A round that reads the header reads all of it, and learns the length. -/
theorem header_owes (head content rest : Str) (h h' : Health) (buf buf' : Str) (got : Str)
    (reps : List Report) (hhead : head.length = headerSize) (hlen : ntohl head = content.length)
    (hpos : 0 < content.length) (hsome : h._some = 0)
    (hwhole : ∀ r ∈ reps, r.phase = .readHeader ∨ r.phase = .drainHeader →
      r.moved = 0 ∨ r.moved = r.size)
    (hpre : got <+: head ++ content ++ rest)
    (hstep : Stepped h buf (toSize (headerSize - h._some)) .contentReadSome .drainHeader got reps
      (.ok (h', buf'))) : Owes content got.length (h'.learn buf') := by
  have hsize : headerSize = 4 := rfl
  have hbound : toSize (headerSize - h._some) = headerSize := by
    rw [hsome]
    rfl
  rw [hbound] at hstep
  cases hstep with
  | failed => exact Owes.lost rfl (by simp only [List.length_nil]; omega)
  | finished => exact Owes.lost rfl (by simp only [List.length_nil]; omega)
  | short hbs hlt =>
      -- A piece of a header: this is what `HeadersRead` excludes.
      rcases hwhole _ (List.mem_singleton_self _) (Or.inr rfl) with hzero | hfull
      · have hzero : got.length = 0 := hzero
        omega
      · have hfull : got.length = headerSize := hfull
        omega
  | whole hbs hfull =>
      have hgot : got = head := by
        rw [List.append_assoc] at hpre
        exact (List.prefix_of_prefix_length_le hpre (List.prefix_append _ _)
          (by omega)).eq_of_length
          (by omega)
      subst hgot
      simp only [learn, if_true, contentLength_append got _ hhead, hlen]
      split
      · exact Owes.lost rfl (by omega)
      · exact Owes.content rfl (by simp only; omega) rfl (by omega) (by omega) (by omega)

/-- A round that reads content counts it. -/
theorem content_owes (content : Str) (done : Nat) (h h' : Health) (buf buf' : Str) (got : Str)
    (reps : List Report) (hs : h._state = .contentReadSome) (hsome : h._some = done - headerSize)
    (hcontent : h._content = content.length) (hge : headerSize ≤ done)
    (hlt : done < headerSize + content.length)
    (hfit : headerSize + content.length - done ≤ bufSize)
    (hstep : Stepped h buf (toSize (h._content - h._some)) .noRead .drainContent got reps
      (.ok (h', buf'))) : Owes content (done + got.length) h' := by
  have hbound := toSize_of_nonneg (h._content - h._some) (by omega) (by omega)
  cases hstep with
  | failed => exact Owes.lost rfl (by simp only [List.length_nil]; omega)
  | finished => exact Owes.lost rfl (by simp only [List.length_nil]; omega)
  | short hbs hshort =>
      exact Owes.content hs (by simp only; omega) hcontent (by omega) (by omega) (by omega)
  | whole hbs hfull => exact Owes.ready rfl (by omega)

/-! ## One check -/

/-- What is left of the stream behind bytes that were read from the response. -/
theorem prefix_behind (whole rest got next : Str) (n : Nat) (hgot : n + got.length ≤ whole.length)
    (h : got ++ next <+: whole.drop n ++ rest) :
    got <+: whole.drop n ∧ next <+: whole.drop (n + got.length) ++ rest := by
  have hle : got.length ≤ (whole.drop n).length := by
    rw [List.length_drop]
    omega
  have hfirst : got <+: whole.drop n := List.prefix_of_prefix_length_le
    ((List.prefix_append got next).trans h) (List.prefix_append _ _) hle
  refine ⟨hfirst, ?_⟩
  rcases hfirst with ⟨v, hv⟩
  have hdrop : whole.drop (n + got.length) = v := by
    rw [← List.drop_drop, ← hv, List.drop_left]
  rw [hdrop]
  rw [← hv, List.append_assoc] at h
  exact (List.prefix_append_right_inj got).mp h

section Check

variable (fd : Int) (head content rest : Str)

/-- The loop of the check, from any point of it on. Of the responses read to
    their end it misses those whose last byte came with its last round. -/
theorem drain_owes (hhead : head.length = headerSize) (hlen : ntohl head = content.length)
    (hpos : 0 < content.length) (n : Nat) :
    ∀ (h : Health) (buf : Str) (done : Nat) (t : Trace D) (r : Except Fault (Health × Bool)),
      Owes content done h → buf.length = bufSize → HeadersRead t →
      received fd t <+: (head ++ content).drop done ++ rest → Runs (drain fd n h buf) t r →
      ∃ h' b, r = .ok (h', b) ∧ Owes content (done + (received fd t).length) h' ∧
        (b = true → h'._state = .noRead) ∧ (b = false → h'._state = .noRead → drains t = n) := by
  have hsize : headerSize = 4 := rfl
  have hbufSize : bufSize = 4096 := rfl
  have hframe : (head ++ content).length = headerSize + content.length := by
    rw [List.length_append, hhead]
  induction n with
  | zero =>
      intro h buf done t r ho hbuf hwhole hpre hr
      rcases (runs_ret_iff ..).mp hr with ⟨rfl, rfl⟩
      exact ⟨h, false, rfl, ho, fun h => (by cases h), fun _ _ => rfl⟩
  | succ n ih =>
      intro h buf done t r ho hbuf hwhole hpre hr
      simp only [drain] at hr
      -- A round that reads, and the rounds behind it.
      have hround : ∀ (boundary : Nat) (next : State) (f : Health → Str → Health) (t1 t2 : Trace D)
          (x : Except Fault (Health × Str)), boundary ≤ buf.length →
          Runs (h.stateMachine fd buf boundary next) t1 x → t = t1 ++ t2 →
          (∀ h' buf', x = .ok (h', buf') →
            Owes content (done + (received fd t1).length) (f h' buf') ∧
            Runs (drain fd n (f h' buf') buf') t2 r) →
          ∃ h' b, r = .ok (h', b) ∧ Owes content (done + (received fd t).length) h' ∧
            (b = true → h'._state = .noRead) ∧
            (b = false → h'._state = .noRead → drains t = n + 1) := by
        rintro boundary next f t1 t2 x hb h1 rfl hnext
        rcases stateMachine_fits h fd buf boundary next t1 x hb h1 with ⟨h', buf', rfl, hlen'⟩
        rcases hnext h' buf' rfl with ⟨ho', h2⟩
        rw [received_append] at hpre
        have hle : done + (received fd t1).length ≤ (head ++ content).length := by
          rw [hframe]
          cases ho' <;> omega
        rcases ih _ buf' _ t2 r ho' (hlen'.trans hbuf) ((headersRead_append t1 t2).mp hwhole).2
          (prefix_behind _ rest _ _ done hle hpre).2 h2 with ⟨h'', b, hr', ho'', htrue, hfalse⟩
        refine ⟨h'', b, hr', ?_, htrue, fun hb hs => ?_⟩
        · rwa [received_append, List.length_append, ← Nat.add_assoc]
        · rw [drains_append, stateMachine_drains h fd buf boundary next t1 _ h1, hfalse hb hs]
          omega
      cases ho with
      | header hs hsome hdone =>
          rw [hs] at hr
          have hbound : toSize (headerSize - h._some) = headerSize := by
            rw [hsome]
            rfl
          rcases (runs_bind_iff ..).mp hr with ⟨t1, t2, x, rfl, h1, h2⟩
          refine hround _ _ (fun h' buf' => h'.learn buf') t1 t2 x (by omega) h1 rfl ?_
          rintro h' buf' rfl
          rcases stateMachine_runs h fd buf _ _ _ t1 h1 with ⟨got, reps, hm, hstep⟩
          refine ⟨?_, h2⟩
          rw [hm.received, hdone, Nat.zero_add]
          refine header_owes head content rest h h' buf buf' got reps hhead hlen hpos hsome ?_ ?_
            hstep
          · rw [← hm.reports]
            exact ((headersRead_append t1 t2).mp hwhole).1
          · rw [hdone, List.drop_zero, received_append, hm.received] at hpre
            exact (List.prefix_append _ _).trans hpre
      | content hs hsome hcontent hge hlt hfit =>
          rw [hs] at hr
          have hbound := toSize_of_nonneg (h._content - h._some) (by omega) (by omega)
          rcases (runs_bind_iff ..).mp hr with ⟨t1, t2, x, rfl, h1, h2⟩
          refine hround _ _ (fun h' _ => h') t1 t2 x (by omega) h1 rfl ?_
          rintro h' buf' rfl
          rcases stateMachine_runs h fd buf _ _ _ t1 h1 with ⟨got, reps, hm, hstep⟩
          refine ⟨?_, h2⟩
          rw [hm.received]
          exact content_owes content done h h' buf buf' got reps hs hsome hcontent hge hlt hfit
            hstep
      | ready hs hdone =>
          rw [hs] at hr
          rcases (runs_ret_iff ..).mp hr with ⟨rfl, rfl⟩
          exact ⟨h, true, rfl, Owes.ready hs hdone, fun _ => hs, fun h => (by cases h)⟩
      | lost hs hlt =>
          rw [hs] at hr
          rcases ih h buf done t r (Owes.lost hs hlt) hbuf hwhole hpre hr with
            ⟨h', b, hr', ho', htrue, hfalse⟩
          refine ⟨h', b, hr', ho', htrue, fun hb hs' => ?_⟩
          -- A response that is lost is not found again.
          have hnone := drain_lost fd n h buf t r hs hr
          rcases hnone with ⟨rfl, hr''⟩
          rw [hr''] at hr'
          cases hr'
          exact absurd (hs.symm.trans hs') (by decide)

/-- The check. -/
theorem check_owes (hhead : head.length = headerSize) (hlen : ntohl head = content.length)
    (hpos : 0 < content.length) (h : Health) (done : Nat) (t : Trace D)
    (r : Except Fault (Health × Bool)) (ho : Owes content done h) (hs : h._state ≠ .noRead)
    (hwhole : HeadersRead t) (hpre : received fd t <+: (head ++ content).drop done ++ rest)
    (hr : Runs (h.check fd) t r) :
    ∃ h' b, r = .ok (h', b) ∧ Owes content (done + (received fd t).length) h' ∧
      (b = true → h'._state = .noRead) ∧ (b = false → h'._state = .noRead → drains t = 5) := by
  unfold check at hr
  split at hr
  · rcases (runs_ret_iff ..).mp hr with ⟨rfl, rfl⟩
    exact ⟨h, false, rfl, ho, fun h => (by cases h), fun _ hs' => absurd hs' hs⟩
  simp only [Prog.bind_def, runs_stack_bind] at hr
  rcases hr with ⟨buf, u, rfl, hr⟩
  exact drain_owes fd head content rest hhead hlen hpos 5 h buf.1 done u r ho buf.2 hwhole hpre hr

/-! ## Any number of checks -/

/-- What the checks can cope with: the call has stopped in front of the header or
    behind it, and no check reads a part of it; there is a content, and no more
    left of it than fits the buffer; and no check reads the last byte with its
    fifth read. -/
structure Workable (m : Nat) (ts : List (Trace D)) : Prop where
  unsplit : m = 0 ∨ headerSize ≤ m
  headers : ∀ t ∈ ts, HeadersRead t
  nonempty : 0 < content.length
  fits : headerSize ≤ m → headerSize + content.length - m ≤ bufSize
  early : ∀ us u vs, ts = us ++ u :: vs → drains u = 5 →
    received fd (us ++ [u]).flatten ≠ (head ++ content).drop m

/-- The checks, from any of them on. -/
theorem checked_owes (hhead : head.length = headerSize) (hlen : ntohl head = content.length)
    (m : Nat) (h : Health) (ts : List (Trace D)) (r : Except Fault (Health × Bool))
    (hrun : Checked fd h ts r) : ∀ (before : List (Trace D)),
      Workable fd head content m (before ++ ts) →
      Owes content (m + (received fd before.flatten).length) h → h._state ≠ .noRead →
      received fd (before ++ ts).flatten <+: (head ++ content).drop m ++ rest →
      ∃ h' b, r = .ok (h', b) ∧
        Owes content (m + (received fd (before ++ ts).flatten).length) h' ∧
        (b = true ↔ h'._state = .noRead) := by
  have hframe : (head ++ content).length = headerSize + content.length := by
    rw [List.length_append, hhead]
  -- One check, with the checks behind it.
  have hone : ∀ (h : Health) (t : Trace D) (r : Except Fault (Health × Bool))
      (before behind : List (Trace D)), Workable fd head content m (before ++ t :: behind) →
      Owes content (m + (received fd before.flatten).length) h → h._state ≠ .noRead →
      received fd (before ++ t :: behind).flatten <+: (head ++ content).drop m ++ rest →
      Runs (h.check fd) t r →
      ∃ h' b, r = .ok (h', b) ∧ Owes content (m + (received fd (before ++ [t]).flatten).length) h' ∧
        (b = true ↔ h'._state = .noRead) := by
    intro h t r before behind hwork ho hs hpre hr
    rw [List.flatten_append, List.flatten_cons, received_append, received_append] at hpre
    have hle : m + (received fd before.flatten).length ≤ (head ++ content).length := by
      rw [hframe]
      cases ho <;> omega
    have hrest := (prefix_behind _ rest _ _ m hle hpre).2
    rcases check_owes fd head content rest hhead hlen hwork.nonempty h _ t r ho hs
      (hwork.headers t (List.mem_append_right _ List.mem_cons_self))
      ((List.prefix_append _ _).trans hrest) hr with ⟨h', b, hr', ho', htrue, hfalse⟩
    have hflat : received fd (before ++ [t]).flatten
        = received fd before.flatten ++ received fd t := by
      rw [List.flatten_append, List.flatten_singleton, received_append]
    rw [Nat.add_assoc, ← List.length_append, ← hflat] at ho'
    refine ⟨h', b, hr', ho', htrue, fun hs' => ?_⟩
    cases b with
    | true => rfl
    | false =>
        -- The response was read to its end with the fifth read of this check.
        have hdone := (owes_ready_iff content _ h' ho').mp hs'
        refine absurd ?_ (hwork.early before t behind rfl (hfalse rfl hs'))
        have hall : received fd (before ++ [t]).flatten <+: (head ++ content).drop m ++ rest := by
          rw [hflat]
          refine List.IsPrefix.trans ?_ hpre
          rw [← List.append_assoc]
          exact List.prefix_append _ _
        refine (List.prefix_of_prefix_length_le hall (List.prefix_append _ _) ?_).eq_of_length ?_
        · rw [List.length_drop, hframe]
          omega
        · rw [List.length_drop, hframe]
          omega
  induction hrun with
  | once h t r hr =>
      intro before hwork ho hs hpre
      exact hone h t r before [] hwork ho hs hpre hr
  | again h h' t ts r hr _ ih =>
      intro before hwork ho hs hpre
      rcases hone h t _ before ts hwork ho hs hpre hr with ⟨h'', b, heq, ho', hiff⟩
      cases heq
      have hsplit : before ++ t :: ts = (before ++ [t]) ++ ts := by
        rw [List.append_assoc, List.singleton_append]
      rw [hsplit] at hwork hpre ⊢
      exact ih (before ++ [t]) hwork ho' (fun hs' => absurd (hiff.mpr hs') (by decide)) hpre

/-- However the rest of a response comes in, over one check or more, the last
    check says yes exactly when what was read is what was left of it. -/
theorem checked_exact (m : Nat) (h : Health) (ts : List (Trace D))
    (r : Except Fault (Health × Bool)) (hhead : head.length = headerSize)
    (hlen : ntohl head = content.length) (hrec : Recorded content m h)
    (hwork : Workable fd head content m ts) (hrun : Checked fd h ts r)
    (hpre : received fd ts.flatten <+: (head ++ content).drop m ++ rest) :
    ((∃ h', r = .ok (h', true)) ↔ received fd ts.flatten = (head ++ content).drop m) ∧
      ∀ h', r = .ok (h', true) → h'._state = .noRead := by
  have hsize : headerSize = 4 := rfl
  have hframe : (head ++ content).length = headerSize + content.length := by
    rw [List.length_append, hhead]
  -- Before the first check, what is owed is what was recorded.
  have hstart : Owes content (m + (received fd ([] : List (Trace D)).flatten).length) h ∧
      h._state ≠ .noRead := by
    simp only [List.flatten_nil, received_nil, List.length_nil, Nat.add_zero]
    cases hrec with
    | header hm =>
        have hm0 : m = 0 := by
          rcases hwork.unsplit with h | h
          · exact h
          · omega
        exact ⟨Owes.header rfl (by rw [hm0]; rfl) hm0, fun h => by cases h⟩
    | content hge hlt =>
        exact ⟨Owes.content rfl rfl rfl hge hlt (hwork.fits hge), fun h => by cases h⟩
  have hm : m < headerSize + content.length := by
    cases hrec <;> omega
  rcases checked_owes fd head content rest hhead hlen m h ts r hrun [] hwork hstart.1 hstart.2 hpre
    with ⟨h', b, rfl, ho, hiff⟩
  rw [List.nil_append] at ho
  have hready := owes_ready_iff content _ h' ho
  constructor
  · constructor
    · rintro ⟨h'', heq⟩
      cases heq
      have hdone := hready.mp (hiff.mp rfl)
      -- As many bytes as were left, from the beginning of the stream.
      refine (List.prefix_of_prefix_length_le hpre (List.prefix_append _ _) ?_).eq_of_length ?_
      · rw [List.length_drop, hframe]
        omega
      · rw [List.length_drop, hframe]
        omega
    · intro hall
      have hdone : m + (received fd ts.flatten).length = headerSize + content.length := by
        rw [hall, List.length_drop, hframe]
        omega
      exact ⟨h', by rw [hiff.mpr (hready.mpr hdone)]⟩
  · intro h'' heq
    cases heq
    exact hiff.mp rfl

end Check

/-- One check, with the bytes of a frame that are still to come: the length is
    one, and `m` bytes of the frame have been consumed. -/
def leftover (m : Nat) (h : Health) : Trace Unit × Except Fault (Health × Bool) :=
  drive Network.reply (Network.carrying ([0, 0, 0, 1, 65].drop m)) (h.check 3)

theorem leftover_runs (m : Nat) (h : Health) : Runs (h.check 3) (leftover m h).1 (leftover m h).2 :=
  runs_drive Network.reply _ _

theorem checked_exact_whole :
    ((∃ h', (leftover 0 (Health.set 0 .headerReadSome 0)).2 = .ok (h', true)) ↔
      received 3 [(leftover 0 (Health.set 0 .headerReadSome 0)).1].flatten = [0, 0, 0, 1, 65]) ∧
      ∀ h', (leftover 0 (Health.set 0 .headerReadSome 0)).2 = .ok (h', true) →
        h'._state = .noRead := by
  refine checked_exact 3 [0, 0, 0, 1] [65] [] 0 _ _ _ rfl (by decide)
    (Recorded.header 0 (by decide)) ?_ (Checked.once _ _ _ (leftover_runs 0 _)) (by decide +kernel)
  refine ⟨Or.inl rfl, ?_, by decide, by decide, ?_⟩
  · intro t ht
    rw [List.mem_singleton.mp ht]
    decide +kernel
  · intro us u vs hts hfive
    -- The one check there is has read twice.
    have hu : u ∈ [(leftover 0 (Health.set 0 .headerReadSome 0)).1] := by
      rw [hts]
      exact List.mem_append_right _ List.mem_cons_self
    rw [List.mem_singleton.mp hu] at hfive
    exact absurd hfive (by decide +kernel)

/-- The caller has consumed the first byte of the header, and the check reads
    exactly the four bytes that are left. It has stored the rest of the header
    where the header begins, and says no. -/
theorem checked_split_header :
    ¬ ∀ (m : Nat) (h : Health) (t : Trace Unit) (r : Except Fault (Health × Bool)),
      m < 5 → Recorded [65] m h → Runs (h.check 3) t r →
      received 3 t <+: [0, 0, 0, 1, 65].drop m →
      ((∃ h', r = .ok (h', true)) ↔ received 3 t = [0, 0, 0, 1, 65].drop m) := by
  intro h
  have hiff := h 1 _ _ _ (by decide) (Recorded.header 1 (by decide)) (leftover_runs 1 _)
    (by decide +kernel)
  rcases hiff.mpr (by decide +kernel) with ⟨h', heq⟩
  have hno : (leftover 1 (Health.set ((1 : Nat) : Int) .headerReadSome 0)).2.map (·.2)
      = .ok false := by
    decide +kernel
  rw [heq] at hno
  cases hno

end Health

end Trpc
