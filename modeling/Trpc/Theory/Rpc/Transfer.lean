import Trpc.Core.BestEffort
import Trpc.Theory.Rpc.Network

/-!
# What a Transfer Does

One rule for the loop of `bestEffortTemplate`, and what it gives for reads,
writes and the wait for a first byte. The rule carries a predicate over the
trace so far, the offset and the bytes moved; if the three calls between
attempts and the attempt itself preserve it, it holds at every way out, where
the return value is the offset or `-1`.

## Main definitions

* `Silent`: Nobody was called and nothing reported.
* `ReadsInside`: No read reached past a limit.
* `Moves`: What a run did to a descriptor, and nothing else.
* `Ended`: How a transfer may have ended.
* `Dumped.frame`: The bytes of a message.

## Theorems

* `attempts_runs`: The rule.
* `bestEffortRead_runs`, `bestEffortWrite_runs`: Its instances.
* `finish`: A run that has stopped can be finished.
-/

namespace Trpc

open Vsjson Interaction

variable {D : Type}

/-! ## Traces, piece by piece -/

@[simp] theorem received_nil (fd : Int) : received fd ([] : Trace D) = [] := rfl
@[simp] theorem sent_nil (fd : Int) : sent fd ([] : Trace D) = [] := rfl
@[simp] theorem netCalls_nil : netCalls ([] : Trace D) = [] := rfl
@[simp] theorem reports_nil : reports ([] : Trace D) = [] := rfl
@[simp] theorem requestCalls_nil : requestCalls ([] : Trace D) = [] := rfl
@[simp] theorem responseCalls_nil : responseCalls ([] : Trace D) = [] := rfl
@[simp] theorem invocations_nil : invocations ([] : Trace D) = [] := rfl

@[simp] theorem received_append (fd : Int) (t u : Trace D) :
    received fd (t ++ u) = received fd t ++ received fd u := List.flatMap_append
@[simp] theorem sent_append (fd : Int) (t u : Trace D) :
    sent fd (t ++ u) = sent fd t ++ sent fd u := List.flatMap_append
@[simp] theorem netCalls_append (t u : Trace D) :
    netCalls (t ++ u) = netCalls t ++ netCalls u := List.flatMap_append
@[simp] theorem reports_append (t u : Trace D) :
    reports (t ++ u) = reports t ++ reports u := List.flatMap_append
@[simp] theorem requestCalls_append (t u : Trace D) :
    requestCalls (t ++ u) = requestCalls t ++ requestCalls u := List.flatMap_append
@[simp] theorem responseCalls_append (t u : Trace D) :
    responseCalls (t ++ u) = responseCalls t ++ responseCalls u := List.flatMap_append
@[simp] theorem invocations_append (t u : Trace D) :
    invocations (t ++ u) = invocations t ++ invocations u := List.flatMap_append

theorem received_singleton (fd : Int) (e : Ev D) : received fd [e] = e.received fd :=
  List.flatMap_singleton ..
theorem sent_singleton (fd : Int) (e : Ev D) : sent fd [e] = e.sent fd :=
  List.flatMap_singleton ..

/-- Nobody was called. -/
structure Silent (t : Trace D) : Prop where
  netCalls : netCalls t = []
  requestCalls : requestCalls t = []
  responseCalls : responseCalls t = []
  invocations : invocations t = []

theorem silent_nil : Silent ([] : Trace D) := ⟨rfl, rfl, rfl, rfl⟩

/-- If nobody is called on either of two traces, nobody is on both. -/
theorem silent_append (t u : Trace D) (ht : Silent t) (hu : Silent u) : Silent (t ++ u) := by
  constructor
  · rw [netCalls_append, ht.netCalls, hu.netCalls, List.append_nil]
  · rw [requestCalls_append, ht.requestCalls, hu.requestCalls, List.append_nil]
  · rw [responseCalls_append, ht.responseCalls, hu.responseCalls, List.append_nil]
  · rw [invocations_append, ht.invocations, hu.invocations, List.append_nil]

/-- A read into a buffer ended at or before `limit`. -/
def Ev.ReadsInside (limit : Nat) : Ev D → Prop
  | ⟨.read _ offset size, _⟩ => offset + size ≤ limit
  | _ => True

/-- No read into a buffer reached past `limit`. -/
def ReadsInside (limit : Nat) (t : Trace D) : Prop := ∀ e ∈ t, e.ReadsInside limit

theorem readsInside_nil (limit : Nat) : ReadsInside limit ([] : Trace D) :=
  fun _ he => absurd he List.not_mem_nil

theorem readsInside_append (limit : Nat) (t u : Trace D) :
    ReadsInside limit (t ++ u) ↔ ReadsInside limit t ∧ ReadsInside limit u :=
  List.forall_mem_append

theorem readsInside_singleton (limit : Nat) (e : Ev D) :
    ReadsInside limit [e] ↔ e.ReadsInside limit := List.forall_mem_singleton

/-- A larger limit will do. -/
theorem readsInside_mono (n m : Nat) (t : Trace D) (hnm : n ≤ m) (h : ReadsInside n t) :
    ReadsInside m t := by
  intro e he
  have hin := h e he
  rcases e with ⟨c, r⟩
  cases c with
  | read fd offset size => exact le_trans hin hnm
  | _ => trivial

/-- A run that read `got` and wrote `put` over `fd`, reported `reps`, read into
    no buffer past `limit`, and called nobody. -/
structure Moves (fd : Int) (limit : Nat) (t : Trace D) (got put : Str) (reps : List Report) :
    Prop where
  received : received fd t = got
  sent : sent fd t = put
  reports : reports t = reps
  inside : ReadsInside limit t
  silent : Silent t

theorem moves_nil (fd : Int) (limit : Nat) : Moves fd limit ([] : Trace D) [] [] [] :=
  ⟨rfl, rfl, rfl, readsInside_nil limit, silent_nil⟩

/-- What two runs move, they move one behind the other. -/
theorem moves_append {fd : Int} {limit : Nat} {t u : Trace D} {got got' put put' : Str}
    {reps reps' : List Report} (ht : Moves fd limit t got put reps)
    (hu : Moves fd limit u got' put' reps') :
    Moves fd limit (t ++ u) (got ++ got') (put ++ put') (reps ++ reps') where
  received := by rw [received_append, ht.received, hu.received]
  sent := by rw [sent_append, ht.sent, hu.sent]
  reports := by rw [reports_append, ht.reports, hu.reports]
  inside := (readsInside_append limit t u).mpr ⟨ht.inside, hu.inside⟩
  silent := silent_append t u ht.silent hu.silent

theorem moves_mono {fd : Int} {n m : Nat} {t : Trace D} {got put : Str} {reps : List Report}
    (hnm : n ≤ m) (h : Moves fd n t got put reps) : Moves fd m t got put reps :=
  ⟨h.received, h.sent, h.reports, readsInside_mono n m t hnm h.inside, h.silent⟩

/-- A call that moves nothing, calls nobody and reports nothing. -/
def Ev.Idle : Ev D → Prop
  | ⟨.tick, _⟩ => True
  | ⟨.poll _ _ _, _⟩ => True
  | ⟨.usleep _, _⟩ => True
  | ⟨.close _, _⟩ => True
  | ⟨.stack _, _⟩ => True
  | ⟨.setErrno _, _⟩ => True
  | _ => False

/-- A call that moves nothing, whichever it is. -/
theorem moves_idle (fd : Int) (limit : Nat) (e : Ev D) (h : Ev.Idle e) :
    Moves fd limit [e] [] [] [] := by
  rcases e with ⟨c, r⟩
  have hinside : ReadsInside limit [(⟨c, r⟩ : Ev D)] := by
    rw [readsInside_singleton]
    cases c with
    | read => exact absurd h id
    | _ => trivial
  cases c with
  | tick => exact ⟨rfl, rfl, rfl, hinside, ⟨rfl, rfl, rfl, rfl⟩⟩
  | poll => exact ⟨rfl, rfl, rfl, hinside, ⟨rfl, rfl, rfl, rfl⟩⟩
  | usleep => exact ⟨rfl, rfl, rfl, hinside, ⟨rfl, rfl, rfl, rfl⟩⟩
  | close => exact ⟨rfl, rfl, rfl, hinside, ⟨rfl, rfl, rfl, rfl⟩⟩
  | stack => exact ⟨rfl, rfl, rfl, hinside, ⟨rfl, rfl, rfl, rfl⟩⟩
  | setErrno => exact ⟨rfl, rfl, rfl, hinside, ⟨rfl, rfl, rfl, rfl⟩⟩
  | _ => exact absurd h id

theorem moves_report (fd : Int) (limit : Nat) (x : Report) (r : Unit) :
    Moves fd limit [(⟨Call.report x, r⟩ : Ev D)] [] [] [x] :=
  ⟨rfl, rfl, rfl, (readsInside_singleton limit _).mpr trivial, ⟨rfl, rfl, rfl, rfl⟩⟩

/-- Idle calls may follow a run. -/
theorem moves_append_idle {fd : Int} {limit : Nat} {t : Trace D} {got put : Str}
    {reps : List Report} (ht : Moves fd limit t got put reps) (e : Ev D) (he : Ev.Idle e) :
    Moves fd limit (t ++ [e]) got put reps := by
  have h := moves_append ht (moves_idle fd limit e he)
  simp only [List.append_nil] at h
  exact h

theorem moves_cons_idle {fd : Int} {limit : Nat} {t : Trace D} {got put : Str}
    {reps : List Report} (ht : Moves fd limit t got put reps) (e : Ev D) (he : Ev.Idle e) :
    Moves fd limit (e :: t) got put reps :=
  moves_append (moves_idle fd limit e he) ht

/-- A report may follow what a transfer does. -/
theorem moves_append_report {fd : Int} {limit : Nat} {t : Trace D} {got put : Str}
    {reps : List Report} (ht : Moves fd limit t got put reps) (x : Report) (r : Unit) :
    Moves fd limit (t ++ [(⟨Call.report x, r⟩ : Ev D)]) got put (reps ++ [x]) := by
  have h := moves_append ht (moves_report fd limit x r)
  simp only [List.append_nil] at h
  exact h

/-! ## Runs that have stopped -/

/-- Where every call is refused nothing is moved. -/
theorem refused_nothing (fd : Int) (t : Trace D) (h : ∀ e ∈ t, e = ⟨e.1, refuse e.1⟩) :
    received fd t = [] ∧ sent fd t = [] := by
  induction t with
  | nil => exact ⟨rfl, rfl⟩
  | cons e t ih =>
      rcases List.forall_mem_cons.mp h with ⟨he, ht⟩
      rcases ih ht with ⟨hgot, hput⟩
      have hgot' : Ev.received fd e = [] := by
        rw [he]
        cases e.1 <;> rfl
      have hput' : Ev.sent fd e = [] := by
        rw [he]
        cases e.1 <;> rfl
      exact ⟨by rw [received, List.flatMap_cons, hgot']; exact hgot,
        by rw [sent, List.flatMap_cons, hput']; exact hput⟩

/-- A run that has stopped can be finished without moving anything more. -/
theorem finish {α : Type} (fd : Int) (p q : Proc D α) (t : Trace D) (h : Reaches p t q) :
    ∃ t' a, Runs p (t ++ t') a ∧ received fd t' = [] ∧ sent fd t' = [] := by
  rcases runs_of_reaches refuse p q t h with ⟨t', a, hr, hg⟩
  exact ⟨t', a, hr, refused_nothing fd t' hg⟩

/-! ## The rule for the loop -/

section Rule

variable (func : CoPosixFunc D) (event : PollEvent) (fd : Int) (size : Nat)
  (I : Trace D → Nat → Str → Prop)

/-- `I` survives the calls between attempts. -/
def KeptIdle : Prop := ∀ t e off m, I t off m → Ev.Idle e → I (t ++ [e]) off m

/-- `I` survives an attempt that fails. -/
def KeptFailing : Prop := ∀ t u off m errno, I t off m → off < size ∨ off = 0 →
  Runs (func off (size - off)) u (none, errno) → I (t ++ u) off m

/-- `I` follows an attempt that moves bytes. -/
def KeptMoving : Prop := ∀ t u off m n bytes errno, I t off m → off < size ∨ off = 0 →
  Runs (func off (size - off)) u (some (n, bytes), errno) →
    off + n ≤ size ∧ (n = 0 → bytes = []) ∧ I (t ++ u) (off + n) (m ++ bytes)

variable {func event fd size I}

/-- The rule. At every way out `I` holds of the whole trace, the bytes moved and
    some offset within the size, and what is returned is that offset or `-1`. -/
theorem attempts_runs (timeout : Int) (interval : Int32) (start : Int) (hidle : KeptIdle I)
    (hfail : KeptFailing func size I) (hmove : KeptMoving func size I) :
    ∀ retries t off m errno u x, I t off m → off < size ∨ off = 0 →
      Runs (attempts func event fd size timeout interval start retries off m errno) u x →
      ∃ off', I (t ++ u) off' x.moved ∧ off' ≤ size ∧
        (x.ret = -1 ∧ (off' < size ∨ off' = 0) ∨ x.ret = off') := by
  intro retries
  induction retries with
  | zero =>
      intro t off m errno u x hI hoff hr
      simp only [attempts] at hr
      -- The attempts are used up, with something moved or nothing.
      split at hr <;>
        · simp only [Prog.pure_def, runs_ret_iff] at hr
          rcases hr with ⟨rfl, rfl⟩
          rw [List.append_nil]
          exact ⟨off, hI, by omega, by simp [hoff]⟩
  | succ retries ih =>
      intro t off m errno u x hI hoff hr
      simp only [attempts, Prog.bind_def, Prog.pure_def, runs_tick_bind] at hr
      rcases hr with ⟨now, u, rfl, hr⟩
      rw [List.append_cons]
      have hI := hidle t ⟨.tick, now⟩ off m hI trivial
      -- The time may be up.
      split at hr
      · rcases (runs_ret_iff ..).mp hr with ⟨rfl, rfl⟩
        exact ⟨off, by rwa [List.append_nil], by omega, Or.inl ⟨rfl, hoff⟩⟩
      rw [runs_poll_bind] at hr
      rcases hr with ⟨pret, u, rfl, hr⟩
      rw [List.append_cons]
      have hI := hidle _ ⟨.poll fd event interval, pret⟩ off m hI trivial
      -- Nothing may be ready.
      split at hr
      · split at hr
        · rcases (runs_ret_iff ..).mp hr with ⟨rfl, rfl⟩
          exact ⟨off, by rwa [List.append_nil], by omega, Or.inl ⟨rfl, hoff⟩⟩
        · exact ih _ off m _ u x hI hoff hr
      -- The attempt itself.
      rcases (runs_bind_iff ..).mp hr with ⟨u1, u2, ⟨ret, errno⟩, rfl, h1, h2⟩
      rw [← List.append_assoc]
      cases ret with
      | none =>
          have hI := hfail _ u1 off m errno hI hoff h1
          simp only at h2
          split at h2
          · exact ih _ off m _ u2 x hI hoff h2
          split at h2
          · rw [runs_usleep_bind] at h2
            rcases h2 with ⟨e, u, rfl, h2⟩
            rw [List.append_cons]
            exact ih _ off m _ u x (hidle _ ⟨.usleep 1, e⟩ off m hI trivial) hoff h2
          · rcases (runs_ret_iff ..).mp h2 with ⟨rfl, rfl⟩
            exact ⟨off, by rwa [List.append_nil], by omega, Or.inl ⟨rfl, hoff⟩⟩
      | some moved =>
          rcases moved with ⟨n, bytes⟩
          rcases hmove _ u1 off m n bytes errno hI hoff h1 with ⟨hle, hzero, hI⟩
          simp only at h2
          split at h2
          · -- Nothing was moved: for `bestEffortTemplate` this is the end.
            rename_i hn
            rcases (runs_ret_iff ..).mp h2 with ⟨rfl, rfl⟩
            rw [hzero hn, hn, List.append_nil] at hI
            exact ⟨off, by rwa [List.append_nil], by omega, Or.inr rfl⟩
          split at h2
          · -- All of it was moved.
            rename_i hsize
            rcases (runs_ret_iff ..).mp h2 with ⟨rfl, rfl⟩
            exact ⟨off + n, by rwa [List.append_nil], hle, Or.inr (by rw [hsize])⟩
          · exact ih _ (off + n) (m ++ bytes) errno u2 x hI (by omega) h2

/-- The rule for the function itself, which asks for the time first. -/
theorem bestEffortTemplate_runs (timeout : Int) (maxRetries : Nat) (hidle : KeptIdle I)
    (hfail : KeptFailing func size I) (hmove : KeptMoving func size I) (hinit : I [] 0 [])
    (t : Trace D) (x : Transfer)
    (hr : Runs (bestEffortTemplate func event fd size timeout maxRetries) t x) :
    ∃ off, I t off x.moved ∧ off ≤ size ∧
      (x.ret = -1 ∧ (off < size ∨ off = 0) ∨ x.ret = off) := by
  simp only [bestEffortTemplate, Prog.bind_def, runs_tick_bind] at hr
  rcases hr with ⟨start, u, rfl, hr⟩
  exact attempts_runs timeout _ start hidle hfail hmove maxRetries [⟨.tick, start⟩] 0 [] 0 u x
    (hidle [] ⟨.tick, start⟩ 0 [] hinit trivial) (Or.inr rfl) hr

end Rule

/-! ## Its instances -/

/-- How a transfer of at most `size` bytes may have ended. -/
structure Ended (size : Nat) (x : Transfer) : Prop where
  length_le : x.moved.length ≤ size
  ret : x.ret = -1 ∧ (x.moved.length < size ∨ x.moved.length = 0) ∨ x.ret = x.moved.length

/-- One attempt at reading. -/
theorem coRead_runs (fd : Int) (base off size : Nat) (hoff : off < size ∨ off = 0)
    (u : Trace D) (r : Option (Nat × Str)) (errno : Errno)
    (hr : Runs (coRead fd base off (size - off)) u (r, errno)) :
    (r = none → Moves fd (base + size) u [] [] []) ∧
      ∀ n bytes, r = some (n, bytes) →
        off + n ≤ size ∧ bytes.length = n ∧ Moves fd (base + size) u bytes [] [] := by
  simp only [coRead, Prog.bind_def, runs_read_bind] at hr
  rcases hr with ⟨⟨reply, e⟩, u, rfl, hr⟩
  have hin : ReadsInside (base + size)
      [(⟨Call.read fd (base + off) (size - off), (reply, e)⟩ : Ev D)] := by
    rw [readsInside_singleton]
    change base + off + (size - off) ≤ base + size
    omega
  cases reply with
  | none =>
      rcases (runs_ret_iff (none, e) (r, errno) u).mp hr with ⟨rfl, h⟩
      cases h
      exact ⟨fun _ => ⟨rfl, rfl, rfl, hin, ⟨rfl, rfl, rfl, rfl⟩⟩, fun _ _ h => by cases h⟩
  | some bs =>
      rcases (runs_ret_iff (some (bs.1.length, bs.1), e) (r, errno) u).mp hr with ⟨rfl, h⟩
      cases h
      refine ⟨fun h => (by cases h), fun n bytes h => ?_⟩
      cases h
      -- The kernel brings no more bytes than were asked for.
      refine ⟨by have := bs.2; omega, rfl, ?_, rfl, rfl, hin, ⟨rfl, rfl, rfl, rfl⟩⟩
      rw [received_singleton]
      exact if_pos rfl

/-- A read moves bytes into its part of the buffer and does nothing else. -/
theorem bestEffortRead_runs (fd : Int) (base size : Nat) (timeout : Int) (maxRetries : Nat)
    (t : Trace D) (x : Transfer)
    (hr : Runs (bestEffortRead fd base size timeout maxRetries) t x) :
    Moves fd (base + size) t x.moved [] [] ∧ Ended size x := by
  -- The invariant of the loop: what has been read is what has been moved, and the offset
  -- counts it.
  let I : Trace D → Nat → Str → Prop :=
    fun t off m => Moves fd (base + size) t m [] [] ∧ m.length = off
  have hidle : KeptIdle I := by
    rintro t e off m ⟨ht, hm⟩ he
    exact ⟨moves_append_idle ht e he, hm⟩
  have hfail : KeptFailing (coRead fd base) size I := by
    rintro t u off m errno ⟨ht, hm⟩ hoff hu
    have h := moves_append ht ((coRead_runs fd base off size hoff u none errno hu).1 rfl)
    rw [List.append_nil m] at h
    exact ⟨h, hm⟩
  have hmove : KeptMoving (coRead fd base) size I := by
    rintro t u off m n bytes errno ⟨ht, hm⟩ hoff hu
    rcases (coRead_runs fd base off size hoff u (some (n, bytes)) errno hu).2 n bytes rfl with
      ⟨hn, hlen, hread⟩
    refine ⟨hn, fun h => List.eq_nil_of_length_eq_zero (by rw [hlen, h]),
      moves_append ht hread, by rw [List.length_append, hm, hlen]⟩
  rcases bestEffortTemplate_runs timeout maxRetries hidle hfail hmove ⟨moves_nil fd _, rfl⟩ t x hr
    with ⟨off, ⟨hread, hlen⟩, hle, hret⟩
  exact ⟨hread, by rw [hlen]; exact hle, by rw [hlen]; exact hret⟩

/-- One attempt at writing. -/
theorem coWrite_runs (fd : Int) (data : Str) (off size : Nat) (hoff : off < size ∨ off = 0)
    (u : Trace D) (r : Option (Nat × Str)) (errno : Errno)
    (hr : Runs (coWrite fd data off (size - off)) u (r, errno)) :
    (r = none → Moves fd 0 u [] [] []) ∧
      ∀ n bytes, r = some (n, bytes) → off + n ≤ size ∧ bytes.length = n ∧
        Moves fd 0 u [] bytes [] ∧ bytes = (data.drop off).take n := by
  simp only [coWrite, Prog.bind_def, runs_write_bind] at hr
  rcases hr with ⟨⟨reply, e⟩, u, rfl, hr⟩
  cases reply with
  | none =>
      rcases (runs_ret_iff (none, e) (r, errno) u).mp hr with ⟨rfl, h⟩
      cases h
      exact ⟨fun _ => ⟨rfl, rfl, rfl,
        (readsInside_singleton 0 _).mpr trivial, ⟨rfl, rfl, rfl, rfl⟩⟩, fun _ _ h => by cases h⟩
  | some n =>
      rcases n with ⟨n, hn⟩
      rcases (runs_ret_iff (some (n, ((data.drop off).take (size - off)).take n), e) (r, errno)
        u).mp hr with ⟨rfl, h⟩
      cases h
      refine ⟨fun h => (by cases h), fun n' bytes h => ?_⟩
      cases h
      have hle : n ≤ size - off := le_trans hn (by rw [List.length_take]; exact min_le_left _ _)
      refine ⟨by omega, by rw [List.length_take]; exact min_eq_left hn, ?_, ?_⟩
      · refine ⟨rfl, ?_, rfl, (readsInside_singleton 0 _).mpr trivial, ⟨rfl, rfl, rfl, rfl⟩⟩
        rw [sent_singleton]
        exact if_pos rfl
      · rw [List.take_take, min_eq_left hle]

/-- A write puts the first bytes of its data on the wire and does nothing
    else. -/
theorem bestEffortWrite_runs (fd : Int) (data : Str) (size : Nat) (timeout : Int)
    (maxRetries : Nat) (t : Trace D) (x : Transfer)
    (hr : Runs (bestEffortWrite fd data size timeout maxRetries) t x) :
    Moves fd 0 t [] x.moved [] ∧ Ended size x ∧ x.moved = data.take x.moved.length := by
  -- Besides, what has been moved is the beginning of the data.
  let I : Trace D → Nat → Str → Prop := fun t off m =>
    Moves fd 0 t [] m [] ∧ m.length = off ∧ m = data.take off
  have hidle : KeptIdle I := by
    rintro t e off m ⟨ht, hm⟩ he
    exact ⟨moves_append_idle ht e he, hm⟩
  have hfail : KeptFailing (coWrite fd data) size I := by
    rintro t u off m errno ⟨ht, hm⟩ hoff hu
    have h := moves_append ht
      ((coWrite_runs fd data off size hoff u none errno hu).1 rfl)
    rw [List.append_nil m] at h
    exact ⟨h, hm⟩
  have hmove : KeptMoving (coWrite fd data) size I := by
    rintro t u off m n bytes errno ⟨ht, hlen, hm⟩ hoff hu
    rcases (coWrite_runs fd data off size hoff u (some (n, bytes)) errno hu).2 n bytes rfl with
      ⟨hn, hn', hwrite, hbytes⟩
    refine ⟨hn, fun h => List.eq_nil_of_length_eq_zero (by rw [hn', h]),
      moves_append ht hwrite, by rw [List.length_append, hlen, hn'], ?_⟩
    rw [hm, hbytes, ← List.take_add]
  rcases bestEffortTemplate_runs timeout maxRetries hidle hfail hmove
    ⟨moves_nil fd _, rfl, rfl⟩ t x hr with ⟨off, ⟨hwrite, hlen, hm⟩, hle, hret⟩
  exact ⟨hwrite, ⟨by rw [hlen]; exact hle, by rw [hlen]; exact hret⟩, by rw [hlen]; exact hm⟩

theorem Ended.full (size : Nat) (x : Transfer) (h : Ended size x) (hret : x.ret = size) :
    x.moved.length = size := by
  rcases h.ret with h | h <;> omega

/-! ## Buffers -/

theorem store_eq (buf bytes : Str) (offset : Nat) (h : offset + bytes.length ≤ buf.length) :
    store buf offset bytes
      = some (buf.take offset ++ (bytes ++ buf.drop (offset + bytes.length))) := if_pos h

theorem store_eq_none (buf bytes : Str) (offset : Nat) (h : buf.length < offset + bytes.length) :
    store buf offset bytes = none := if_neg (by omega)

/-- Storing behind a header. -/
theorem store_behind (h rest bytes : Str) (hle : bytes.length ≤ rest.length) :
    store (h ++ rest) h.length bytes = some (h ++ (bytes ++ rest.drop bytes.length)) := by
  rw [store_eq _ _ _ (by rw [List.length_append]; omega), List.take_left, ← List.drop_drop,
    List.drop_left]

theorem contentLength_append (h rest : Str) (hh : h.length = headerSize) :
    contentLength (h ++ rest) headerSize = (true, ntohl h) := by
  match h, hh with
  | [a, b, c, d], _ => rfl

/-- A header with as many bytes behind it as it says. -/
theorem verify_append (h rest : Str) (hh : h.length = headerSize) :
    verify (h ++ rest) (headerSize + ntohl h) = true := by
  have hlength : contentLength (h ++ rest) (headerSize + ntohl h) = (true, ntohl h) := by
    rw [← contentLength_append h rest hh]
    exact if_neg (by omega)
  simp only [verify, hlength, le_refl, decide_true, Bool.and_self]

/-! ## Messages as frames -/

/-- The content that `Codec::dump` announces: all of it, unless it is longer
    than a header can say. -/
def Dumped.content (d : Dumped) : Str := d.dump.take d.length

/-- The bytes that are written for it. -/
def Dumped.frame (d : Dumped) : Str := d.beLength ++ d.content

theorem length_content [DecimalImpl D] (j : Json D) :
    (Codec.dump j).content.length = (Codec.dump j).length := by
  rw [Dumped.content, List.length_take]
  exact min_eq_left (Nat.mod_le _ _)

theorem content_fits [DecimalImpl D] (j : Json D) : beHeader.Fits (Codec.dump j).content := by
  rw [Framing.Header.Fits, length_content]
  exact Nat.mod_lt _ (by decide)

theorem dump_frame [DecimalImpl D] (j : Json D) :
    (Codec.dump j).frame = beHeader.frame (Codec.dump j).content := by
  rw [Framing.Header.frame, length_content]
  rfl

/-- A text short enough for a header is announced whole. -/
theorem dump_content [DecimalImpl D] (j : Json D) (h : (Vsjson.dump j).length < 4294967296) :
    (Codec.dump j).content = Vsjson.dump j := by
  simp only [Dumped.content, Codec.dump, Nat.mod_eq_of_lt h, List.take_length]

end Trpc
