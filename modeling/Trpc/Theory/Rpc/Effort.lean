import Trpc.Theory.Rpc.Network
import Trpc.Theory.Rpc.Transfer

/-!
# What a Transfer's Number Says

`bestEffortTemplate` answers with one number. A caller that gets a length takes
it for the bytes that went over, and `Client::call` takes `-1` for nothing at
all: it keeps the connection when `written > 0` fails, and records
`max(0, some)` for the next health check.

The first half is right. The second is right only as long as nothing fatal
happens behind a first piece: the clock running out at the head of an attempt, a
`poll` that fails, a transfer that fails with an error that is not retried. Each
of these returns `-1` on the spot, whatever has been moved by then, although the
way out at the bottom of the loop returns the offset.

When the clock has run out is for the code to say: it compares nanoseconds in an
`int64_t`, in which a timeout of more than three hundred years does not fit.

## Main definitions

* `Ev.Fatal`: The replies at which a transfer returns `-1` on the spot.
* `Calm`: None of them came.
* `Undisturbed`: None of them came behind a first piece.
* `ReadAccounts`, `WriteAccounts`: The number says what was moved.

## Theorems

* `attempts_passed`: The loop goes on to its end, or stops at a fatal reply.
* `effort_accounts`: When the number says what was moved.
-/

namespace Trpc

open Vsjson Interaction

variable {D : Type}

/-! ## Fatal replies -/

/-- A reply at which a transfer gives up. `late` are the times at which no attempt may
    begin any more. -/
def Ev.Fatal (late : Int → Prop) : Ev D → Prop
  | ⟨.tick, now⟩ => late now
  | ⟨.poll _ _ _, r⟩ => r.1 < 0
  | ⟨.read _ _ _, r⟩ => r.1 = none ∧ r.2 ≠ Errno.EINTR ∧ r.2 ≠ Errno.EAGAIN
  | ⟨.write _ _, r⟩ => r.1 = none ∧ r.2 ≠ Errno.EINTR ∧ r.2 ≠ Errno.EAGAIN
  | _ => False

/-- No reply was fatal. -/
def Calm (late : Int → Prop) (t : Trace D) : Prop := ∀ e ∈ t, ¬ Ev.Fatal late e

theorem calm_nil (late : Int → Prop) : Calm late ([] : Trace D) :=
  fun _ he => absurd he List.not_mem_nil

theorem calm_cons (late : Int → Prop) (e : Ev D) (t : Trace D) :
    Calm late (e :: t) ↔ ¬ Ev.Fatal late e ∧ Calm late t := List.forall_mem_cons

/-- A fatal reply moves nothing. -/
theorem fatal_moves_nothing (late : Int → Prop) (fd : Int) (e : Ev D) (h : Ev.Fatal late e) :
    e.received fd = [] ∧ e.sent fd = [] := by
  rcases e with ⟨c, r⟩
  cases c with
  | read f off n =>
      rcases r with ⟨r, errno⟩
      rcases h with ⟨rfl, _⟩
      exact ⟨rfl, rfl⟩
  | write f data =>
      rcases r with ⟨r, errno⟩
      rcases h with ⟨rfl, _⟩
      exact ⟨rfl, rfl⟩
  | tick => exact ⟨rfl, rfl⟩
  | poll => exact ⟨rfl, rfl⟩
  | _ => exact absurd h id

/-! ## The loop -/

section Loop

variable (fd : Int) (event : PollEvent) (func : CoPosixFunc D)

/-- One attempt is one call, and it fails for good exactly at a fatal reply. -/
def Honest : Prop := ∀ (late : Int → Prop) off size u r errno, Runs (func off size) u (r, errno) →
  ∃ e : Ev D, u = [e] ∧
    (Ev.Fatal late e ↔ r = none ∧ errno ≠ Errno.EINTR ∧ errno ≠ Errno.EAGAIN) ∧
    ∀ n bytes, r = some (n, bytes) → bytes.length = n

/-- How a loop can have passed over the replies it got: it met no fatal one, and
    then `-1` says that nothing was moved, or it ended with `-1` at the first. -/
def Passed (late : Int → Prop) (u : Trace D) (x : Transfer) : Prop :=
  (Calm late u ∧ (x.ret = -1 → x.moved = [])) ∨
    (∃ u1 e, u = u1 ++ [e] ∧ Calm late u1 ∧ Ev.Fatal late e ∧ x.ret = -1)

/-- A reply in front that is not fatal leaves both outcomes as they are. -/
theorem passed_cons (late : Int → Prop) (e : Ev D) (u : Trace D) (x : Transfer)
    (he : ¬ Ev.Fatal late e) (h : Passed late u x) : Passed late (e :: u) x := by
  rcases h with ⟨hu, hx⟩ | ⟨u1, e', rfl, hu, he', hx⟩
  · exact Or.inl ⟨(calm_cons ..).mpr ⟨he, hu⟩, hx⟩
  · exact Or.inr ⟨e :: u1, e', rfl, (calm_cons ..).mpr ⟨he, hu⟩, he', hx⟩

theorem passed_fatal (late : Int → Prop) (e : Ev D) (x : Transfer) (he : Ev.Fatal late e)
    (hx : x.ret = -1) : Passed late [e] x := Or.inr ⟨[], e, rfl, calm_nil _, he, hx⟩

theorem passed_ret (late : Int → Prop) (x : Transfer) (hx : x.ret = -1 → x.moved = []) :
    Passed late ([] : Trace D) x := Or.inl ⟨calm_nil _, hx⟩

variable {fd event func}

/-- The loop passes over its replies, from any point of it on. -/
theorem attempts_passed (hfunc : Honest func) (size : Nat) (timeout : Int) (interval : Int32)
    (start : Int) : ∀ retries off m errno u x, m.length = off →
      Runs (attempts func event fd size timeout interval start retries off m errno) u x →
      Passed (expired start timeout ·) u x := by
  intro retries
  induction retries with
  | zero =>
      intro off m errno u x hm hr
      simp only [attempts] at hr
      split at hr
      · -- At the bottom of the loop `-1` means that the offset is still zero.
        rename_i hoff
        rcases (runs_ret_iff ..).mp hr with ⟨rfl, rfl⟩
        exact passed_ret _ _ fun _ => List.eq_nil_of_length_eq_zero (by rw [hm, hoff])
      · rcases (runs_ret_iff ..).mp hr with ⟨rfl, rfl⟩
        refine passed_ret _ _ fun h => ?_
        simp only at h
        omega
  | succ retries ih =>
      intro off m errno u x hm hr
      simp only [attempts, Prog.bind_def, Prog.pure_def, runs_tick_bind] at hr
      rcases hr with ⟨now, u, rfl, hr⟩
      -- The clock.
      split at hr
      · rename_i hlate
        rcases (runs_ret_iff ..).mp hr with ⟨rfl, rfl⟩
        exact passed_fatal _ _ _ hlate rfl
      rename_i hlate
      refine passed_cons _ _ _ _ hlate ?_
      -- The poll.
      rw [runs_poll_bind] at hr
      rcases hr with ⟨⟨pret, perr⟩, u, rfl, hr⟩
      simp only at hr
      split at hr
      · split at hr
        · rename_i hneg
          rcases (runs_ret_iff ..).mp hr with ⟨rfl, rfl⟩
          exact passed_fatal _ _ _ hneg rfl
        · rename_i hneg
          exact passed_cons _ _ _ _ hneg (ih off m _ u x hm hr)
      rename_i hpos
      refine passed_cons _ _ _ _ (fun h => hpos (le_of_lt h)) ?_
      -- The attempt.
      rcases (runs_bind_iff ..).mp hr with ⟨u1, u2, ⟨ret, errno'⟩, rfl, h1, h2⟩
      rcases hfunc (expired start timeout ·) off _ u1 ret errno' h1 with ⟨e, rfl, he, hlen⟩
      cases ret with
      | none =>
          simp only at h2
          split at h2
          · -- `EINTR` is tried again at once.
            rename_i hintr
            exact passed_cons _ e u2 x (fun h => (he.mp h).2.1 hintr) (ih off m _ u2 x hm h2)
          split at h2
          · rename_i hagain
            rw [runs_usleep_bind] at h2
            rcases h2 with ⟨e', u, rfl, h2⟩
            refine passed_cons _ e _ x (fun h => (he.mp h).2.2 hagain) ?_
            exact passed_cons _ ⟨.usleep 1, e'⟩ u x id (ih off m _ u x hm h2)
          · rename_i hintr hagain
            rcases (runs_ret_iff ..).mp h2 with ⟨rfl, rfl⟩
            exact passed_fatal _ e _ (he.mpr ⟨rfl, hintr, hagain⟩) rfl
      | some moved =>
          rcases moved with ⟨n, bytes⟩
          have hbytes := hlen n bytes rfl
          refine passed_cons _ e u2 x (fun h => absurd (he.mp h).1 (by simp)) ?_
          simp only at h2
          split at h2
          · rcases (runs_ret_iff ..).mp h2 with ⟨rfl, rfl⟩
            -- The peer has hung up: the offset is returned, which is never negative.
            refine passed_ret _ _ fun h => ?_
            simp only at h
            omega
          split at h2
          · rcases (runs_ret_iff ..).mp h2 with ⟨rfl, rfl⟩
            refine passed_ret _ _ fun h => ?_
            simp only at h
            omega
          · exact ih (off + n) (m ++ bytes) _ u2 x (by rw [List.length_append, hm, hbytes]) h2

/-- A transfer passes over its replies. The time is counted from the first
    reading of the clock. -/
theorem bestEffortTemplate_passed (hfunc : Honest func) (size : Nat) (timeout : Int)
    (maxRetries : Nat) (t : Trace D) (x : Transfer)
    (hr : Runs (bestEffortTemplate func event fd size timeout maxRetries) t x) :
    ∃ (start : Int) (u : Trace D), t = ⟨.tick, start⟩ :: u ∧
      Passed (expired start timeout ·) u x := by
  simp only [bestEffortTemplate, Prog.bind_def, runs_tick_bind] at hr
  rcases hr with ⟨start, u, rfl, hr⟩
  exact ⟨start, u, rfl, attempts_passed hfunc size timeout _ start maxRetries 0 [] 0 u x rfl hr⟩

end Loop

/-- A read is one attempt. -/
theorem coRead_honest (fd : Int) (base : Nat) : Honest (coRead (D := D) fd base) := by
  intro late off size u r errno hr
  simp only [coRead, Prog.bind_def, runs_read_bind] at hr
  rcases hr with ⟨⟨reply, e⟩, u, rfl, hr⟩
  cases reply with
  | none =>
      rcases (runs_ret_iff (none, e) (r, errno) u).mp hr with ⟨rfl, h⟩
      cases h
      exact ⟨_, rfl, ⟨fun h => ⟨rfl, h.2⟩, fun h => ⟨rfl, h.2⟩⟩, fun _ _ h => by cases h⟩
  | some bs =>
      rcases (runs_ret_iff (some (bs.1.length, bs.1), e) (r, errno) u).mp hr with ⟨rfl, h⟩
      cases h
      refine ⟨_, rfl, ⟨fun h => absurd h.1 (by simp), fun h => absurd h.1 (by simp)⟩, ?_⟩
      rintro n bytes h
      cases h
      rfl

/-- A write is one attempt. -/
theorem coWrite_honest (fd : Int) (data : Str) : Honest (coWrite (D := D) fd data) := by
  intro late off size u r errno hr
  simp only [coWrite, Prog.bind_def, runs_write_bind] at hr
  rcases hr with ⟨⟨reply, e⟩, u, rfl, hr⟩
  cases reply with
  | none =>
      rcases (runs_ret_iff (none, e) (r, errno) u).mp hr with ⟨rfl, h⟩
      cases h
      exact ⟨_, rfl, ⟨fun h => ⟨rfl, h.2⟩, fun h => ⟨rfl, h.2⟩⟩, fun _ _ h => by cases h⟩
  | some k =>
      rcases (runs_ret_iff (some (k.1, ((data.drop off).take size).take k.1), e) (r, errno)
        u).mp hr with ⟨rfl, h⟩
      cases h
      refine ⟨_, rfl, ⟨fun h => absurd h.1 (by simp), fun h => absurd h.1 (by simp)⟩, ?_⟩
      rintro n bytes h
      cases h
      -- As many bytes as the reply says, of those that were handed over.
      rw [List.length_take]
      exact min_eq_left k.2

/-! ## Where the pieces go -/

/-- `P` holds of every event of a run and what came before it. -/
def AtEach (P : Trace D → Ev D → Prop) (t : Trace D) : Prop :=
  ∀ t1 e t2, t = t1 ++ e :: t2 → P t1 e

theorem atEach_nil (P : Trace D → Ev D → Prop) : AtEach P [] := by
  intro t1 e t2 h
  exact absurd h.symm (by simp)

theorem atEach_of_forall (P : Trace D → Ev D → Prop) (t : Trace D) (h : ∀ e ∈ t, ∀ u, P u e) :
    AtEach P t := by
  rintro t1 e t2 rfl
  exact h e (List.mem_append_right _ List.mem_cons_self) t1

theorem atEach_initial (P : Trace D → Ev D → Prop) (t u : Trace D) (h : AtEach P (t ++ u)) :
    AtEach P t := by
  rintro t1 e t2 rfl
  exact h t1 e (t2 ++ u) (by rw [List.append_assoc, List.cons_append])

/-- An event of two runs is one of the first, or one of the second with the
    first before it. -/
theorem atEach_append (P : Trace D → Ev D → Prop) (t u : Trace D) (ht : AtEach P t)
    (hu : AtEach (fun before e => P (t ++ before) e) u) : AtEach P (t ++ u) := by
  intro t1 e t2 h
  rcases List.append_eq_append_iff.mp h with ⟨v, rfl, hrest⟩ | ⟨v, rfl, hrest⟩
  · exact hu v e t2 hrest
  · cases v with
    | nil =>
        have hfirst := hu [] e t2 hrest.symm
        simpa only [List.append_nil] using hfirst
    | cons e' v =>
        rw [List.cons_append] at hrest
        injection hrest with he hrest
        subst he
        exact ht t1 e v rfl

/-- One more event. -/
theorem atEach_snoc (P : Trace D → Ev D → Prop) (t : Trace D) (e : Ev D) (ht : AtEach P t)
    (he : P t e) : AtEach P (t ++ [e]) := by
  refine atEach_append P t [e] ht ?_
  rintro t1 e' t2 h
  rcases List.append_eq_singleton_iff.mp h.symm with ⟨rfl, hlast⟩ | ⟨_, hlast⟩
  · rw [List.append_nil, (List.cons.inj hlast).1]
    exact he
  · exact absurd hlast (List.cons_ne_nil _ _)

/-- A read goes on where the bytes read before it end. -/
def ReadBehind (fd : Int) (base : Nat) (t : Trace D) : Ev D → Prop
  | ⟨.read f offset _, _⟩ => f = fd ∧ offset = base + (received fd t).length
  | _ => True

/-- A write is handed what the writes before it have left. -/
def WriteBehind (fd : Int) (data : Str) (t : Trace D) : Ev D → Prop
  | ⟨.write f bytes, _⟩ => f = fd ∧ bytes = data.drop (sent fd t).length
  | _ => True

theorem readBehind_idle (fd : Int) (base : Nat) (t : Trace D) (e : Ev D) (he : Ev.Idle e) :
    ReadBehind fd base t e := by
  rcases e with ⟨c, r⟩
  cases c with
  | read f off n => exact absurd he id
  | _ => trivial

theorem writeBehind_idle (fd : Int) (data : Str) (t : Trace D) (e : Ev D) (he : Ev.Idle e) :
    WriteBehind fd data t e := by
  rcases e with ⟨c, r⟩
  cases c with
  | write f d => exact absurd he id
  | _ => trivial

/-- A read puts its pieces one behind the other. -/
theorem bestEffortRead_behind (fd : Int) (base size : Nat) (timeout : Int) (maxRetries : Nat)
    (t : Trace D) (x : Transfer)
    (hr : Runs (bestEffortRead fd base size timeout maxRetries) t x) :
    AtEach (ReadBehind fd base) t := by
  -- The loop's invariant: what was read so far is `off` bytes, each read at its place.
  let I : Trace D → Nat → Str → Prop := fun t off m =>
    AtEach (ReadBehind fd base) t ∧ received fd t = m ∧ m.length = off
  have hidle : KeptIdle I := by
    rintro t e off m ⟨ht, hm, hlen⟩ he
    refine ⟨atEach_snoc _ t e ht (readBehind_idle fd base t e he), ?_, hlen⟩
    rw [received_append, hm, (moves_idle fd 0 e he).received, List.append_nil]
  -- One attempt is one read, at the offset reached.
  have hread : ∀ (t u : Trace D) off m r errno, I t off m →
      Runs (coRead fd base off (size - off)) u (r, errno) →
      AtEach (ReadBehind fd base) (t ++ u) := by
    rintro t u off m r errno ⟨ht, hm, hlen⟩ hu
    simp only [coRead, Prog.bind_def, runs_read_bind] at hu
    rcases hu with ⟨⟨reply, e⟩, u, rfl, hu⟩
    have hat : ReadBehind fd base t ⟨.read fd (base + off) (size - off), (reply, e)⟩ :=
      ⟨rfl, by rw [hm, hlen]⟩
    cases reply <;>
      · rcases (runs_ret_iff ..).mp hu with ⟨rfl, _⟩
        exact atEach_snoc _ t _ ht hat
  have hfail : KeptFailing (coRead fd base) size I := by
    rintro t u off m errno hI hoff hu
    refine ⟨hread t u off m none errno hI hu, ?_, hI.2.2⟩
    rw [received_append, hI.2.1, ((coRead_runs fd base off size hoff u none errno hu).1
      rfl).received,
      List.append_nil]
  -- A piece moves the offset by its length.
  have hmove : KeptMoving (coRead fd base) size I := by
    rintro t u off m n bytes errno hI hoff hu
    rcases (coRead_runs fd base off size hoff u (some (n, bytes)) errno hu).2 n bytes rfl with
      ⟨hn, hlen, hmoves⟩
    refine ⟨hn, fun h => List.eq_nil_of_length_eq_zero (by rw [hlen, h]),
      hread t u off m _ errno hI hu, ?_, ?_⟩
    · rw [received_append, hI.2.1, hmoves.received]
    · rw [List.length_append, hI.2.2, hlen]
  rcases bestEffortTemplate_runs timeout maxRetries hidle hfail hmove
    ⟨atEach_nil _, rfl, rfl⟩ t x hr with ⟨off, ⟨ht, _⟩, _⟩
  exact ht

/-- A write hands over what is left each time. -/
theorem bestEffortWrite_behind (fd : Int) (data : Str) (size : Nat) (timeout : Int)
    (maxRetries : Nat) (t : Trace D) (x : Transfer)
    (hr : Runs (bestEffortWrite fd data size timeout maxRetries) t x) :
    AtEach (WriteBehind fd (data.take size)) t := by
  -- The loop's invariant: what was sent so far is `off` bytes, each handed over in its
  -- turn.
  let I : Trace D → Nat → Str → Prop := fun t off m =>
    AtEach (WriteBehind fd (data.take size)) t ∧ sent fd t = m ∧ m.length = off
  have hidle : KeptIdle I := by
    rintro t e off m ⟨ht, hm, hlen⟩ he
    refine ⟨atEach_snoc _ t e ht (writeBehind_idle fd _ t e he), ?_, hlen⟩
    rw [sent_append, hm, (moves_idle fd 0 e he).sent, List.append_nil]
  have hwrite : ∀ (t u : Trace D) off m r errno, I t off m →
      Runs (coWrite fd data off (size - off)) u (r, errno) →
      AtEach (WriteBehind fd (data.take size)) (t ++ u) := by
    rintro t u off m r errno ⟨ht, hm, hlen⟩ hu
    simp only [coWrite, Prog.bind_def, runs_write_bind] at hu
    rcases hu with ⟨⟨reply, e⟩, u, rfl, hu⟩
    have hat : WriteBehind fd (data.take size) t
        ⟨.write fd ((data.drop off).take (size - off)), (reply, e)⟩ :=
      ⟨rfl, by rw [hm, hlen, List.drop_take]⟩
    cases reply <;>
      · rcases (runs_ret_iff ..).mp hu with ⟨rfl, _⟩
        exact atEach_snoc _ t _ ht hat
  have hfail : KeptFailing (coWrite fd data) size I := by
    rintro t u off m errno hI hoff hu
    refine ⟨hwrite t u off m none errno hI hu, ?_, hI.2.2⟩
    rw [sent_append, hI.2.1, ((coWrite_runs fd data off size hoff u none errno hu).1 rfl).sent,
      List.append_nil]
  have hmove : KeptMoving (coWrite fd data) size I := by
    rintro t u off m n bytes errno hI hoff hu
    rcases (coWrite_runs fd data off size hoff u (some (n, bytes)) errno hu).2 n bytes rfl with
      ⟨hn, hlen, hmoves, _⟩
    refine ⟨hn, fun h => List.eq_nil_of_length_eq_zero (by rw [hlen, h]),
      hwrite t u off m _ errno hI hu, ?_, ?_⟩
    · rw [sent_append, hI.2.1, hmoves.sent]
    · rw [List.length_append, hI.2.2, hlen]
  rcases bestEffortTemplate_runs timeout maxRetries hidle hfail hmove
    ⟨atEach_nil _, rfl, rfl⟩ t x hr with ⟨off, ⟨ht, _⟩, _⟩
  exact ht

/-! ## The number and the bytes -/

/-- What a caller of `bestEffortRead` takes the return value for. -/
structure ReadAccounts (fd : Int) (base size : Nat) (t : Trace D) (x : Transfer) : Prop where
  /-- A length counts the bytes read, which stand one behind the other from the
      start of the buffer on. -/
  length : 0 ≤ x.ret → x.ret = (received fd t).length ∧ x.ret ≤ size ∧
    AtEach (ReadBehind fd base) t
  /-- `-1` stands for no byte. -/
  nothing : x.ret = -1 → received fd t = []

/-- What a caller of `bestEffortWrite` takes the return value for. -/
structure WriteAccounts (fd : Int) (data : Str) (size : Nat) (t : Trace D) (x : Transfer) :
    Prop where
  /-- A length counts the bytes written, which are the first of the buffer. -/
  length : 0 ≤ x.ret → x.ret = (sent fd t).length ∧ x.ret ≤ size ∧
    sent fd t = data.take x.ret.toNat ∧ AtEach (WriteBehind fd (data.take size)) t
  /-- `-1` stands for no byte. -/
  nothing : x.ret = -1 → sent fd t = []

/-- No fatal reply came behind a first piece. The time is counted from the
    first reading of the clock. -/
def Undisturbed (moved : Trace D → Str) (timeout : Int) (t : Trace D) : Prop :=
  ∀ (start : Int) t1 e t2, t = ⟨.tick, start⟩ :: (t1 ++ e :: t2) →
    Ev.Fatal (expired start timeout ·) e → moved t1 = []

/-- A transfer that returned `-1` had moved nothing exactly when no fatal reply
    came behind a first piece. -/
theorem nothing_iff_undisturbed (moved : Trace D → Str) (timeout : Int) (start : Int)
    (u : Trace D) (x : Transfer) (hmoved : moved (⟨.tick, start⟩ :: u) = x.moved)
    (happend : ∀ v w, moved (v ++ w) = moved v ++ moved w)
    (htick : ∀ v, moved (⟨.tick, start⟩ :: v) = moved v)
    (hfatal : ∀ late e, Ev.Fatal late e → moved [e] = [])
    (h : Passed (expired start timeout ·) u x) :
    (x.ret = -1 → moved (⟨.tick, start⟩ :: u) = []) ↔
      Undisturbed moved timeout (⟨.tick, start⟩ :: u) := by
  rcases h with ⟨hcalm, hx⟩ | ⟨u1, e, rfl, hcalm, he, hx⟩
  · constructor
    · intro _ start' t1 e t2 ht hfat
      -- No reply was fatal, behind a piece or elsewhere.
      injection ht with hstart hu
      cases hstart
      exact absurd hfat (hcalm e (by rw [hu]; exact List.mem_append_right _ List.mem_cons_self))
    · intro _ hret
      rw [hmoved, hx hret]
  · constructor
    · intro hnone start' t1 e' t2 ht hfat
      have h := hnone hx
      injection ht with hstart hu
      rw [htick, hu, happend] at h
      exact (List.append_eq_nil_iff.mp h).1
    · intro hund _
      -- The one fatal reply is the last, and moves nothing itself.
      rw [htick, happend, hund start u1 e [] rfl he, hfatal _ e he, List.append_nil]

/-- The number returned says what was moved exactly when no fatal reply came
    behind a first piece; and a length always does. -/
theorem effort_accounts :
    (∀ (fd : Int) (base size : Nat) (timeout : Int) (maxRetries : Nat) (t : Trace D)
      (x : Transfer), Runs (bestEffortRead fd base size timeout maxRetries) t x →
        (ReadAccounts fd base size t x ↔ Undisturbed (received fd) timeout t)) ∧
    (∀ (fd : Int) (data : Str) (size : Nat) (timeout : Int) (maxRetries : Nat) (t : Trace D)
      (x : Transfer), Runs (bestEffortWrite fd data size timeout maxRetries) t x →
        (WriteAccounts fd data size t x ↔ Undisturbed (sent fd) timeout t)) := by
  constructor
  · intro fd base size timeout maxRetries t x hr
    rcases bestEffortRead_runs fd base size timeout maxRetries t x hr with ⟨hm, he⟩
    have hbehind := bestEffortRead_behind fd base size timeout maxRetries t x hr
    rcases bestEffortTemplate_passed (coRead_honest fd base) size timeout maxRetries t x hr with
      ⟨start, u, rfl, hp⟩
    -- Only a fatal reply behind a first piece makes -1 of bytes that were moved.
    have hiff := nothing_iff_undisturbed (received fd) timeout start u x hm.received
      (received_append fd) (fun v => rfl)
      (fun d e h => by rw [received_singleton, (fatal_moves_nothing d fd e h).1]) hp
    refine ⟨fun h => hiff.mp h.nothing, fun h => ⟨fun hpos => ?_, hiff.mpr h⟩⟩
    have hle := he.length_le
    rw [hm.received]
    refine ⟨?_, ?_, hbehind⟩ <;> rcases he.ret with hret | hret <;> omega
  · intro fd data size timeout maxRetries t x hr
    rcases bestEffortWrite_runs fd data size timeout maxRetries t x hr with ⟨hm, he, hdata⟩
    have hbehind := bestEffortWrite_behind fd data size timeout maxRetries t x hr
    rcases bestEffortTemplate_passed (coWrite_honest fd data) size timeout maxRetries t x hr with
      ⟨start, u, rfl, hp⟩
    have hiff := nothing_iff_undisturbed (sent fd) timeout start u x hm.sent
      (sent_append fd) (fun v => rfl)
      (fun d e h => by rw [sent_singleton, (fatal_moves_nothing d fd e h).2]) hp
    refine ⟨fun h => hiff.mp h.nothing, fun h => ⟨fun hpos => ?_, hiff.mpr h⟩⟩
    have hle := he.length_le
    have hret : x.ret = x.moved.length := by rcases he.ret with hret | hret <;> omega
    rw [hm.sent]
    refine ⟨hret, by omega, ?_, hbehind⟩
    rw [hret, Int.toNat_natCast]
    exact hdata

/-- One byte arrives, and then `poll` fails. -/
def oneByte : Network := ⟨[65], [1], -1, 1, fun _ _ => .error (.std "none")⟩

/-- A read of the one byte counts it. -/
theorem effort_accounts_one :
    (drive Network.reply oneByte (bestEffortRead 3 0 1 1000 10)).2.ret = 1 ∧
    (ReadAccounts 3 0 1 (drive Network.reply oneByte (bestEffortRead 3 0 1 1000 10)).1
        (drive Network.reply oneByte (bestEffortRead 3 0 1 1000 10)).2 ↔
      Undisturbed (received 3) 1000
        (drive Network.reply oneByte (bestEffortRead 3 0 1 1000 10)).1) :=
  ⟨by decide +kernel, effort_accounts.1 3 0 1 1000 10 _ _ (runs_drive Network.reply oneByte _)⟩

/-- A read of two bytes returns `-1` behind the first. -/
theorem effort_broken_off :
    ¬ ∀ t x, Runs (bestEffortRead (D := Unit) 3 0 2 1000 10) t x → ReadAccounts 3 0 2 t x := by
  intro h
  have hnone := (h _ _ (runs_drive Network.reply oneByte _)).nothing (by decide +kernel)
  exact absurd hnone (by decide +kernel)

end Trpc
