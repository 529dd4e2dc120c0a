import Trpc.Theory.Rpc.Network
import Trpc.Theory.Rpc.Transfer

/-!
# How Long a Transfer Keeps Trying

What a transfer makes of bytes that become transferable one after the other,
while every call succeeds and nobody hangs up. `bestEffortTemplate` has two
limits: a time, looked at when an attempt begins, and a number of attempts. An
attempt counts whether it moved a piece or waited for one in vain, and a vain
wait lasts the whole share of the timeout that an attempt is given, in whole
milliseconds.

So a transfer that is not late gives up only when its attempts are used up, and
it takes as many vain waits as attempts are left over from the pieces before
that happens. `effort_progress` puts this into terms of the schedule: with `p`
pieces to come, `maxRetries + 1 - p` shares of waiting are guaranteed. A transfer
in one piece is waited for all the time there is, shares not being rounded; one
that comes in more pieces than there are attempts is not completed at all.

Late is what the code takes for late. It compares nanoseconds in an `int64_t`, so
`late_elapsed` needs a timeout that fits into one.

## Main definitions

* `Scheduled`: A run to which the clock, the polls and the transfers answer as a
  schedule has it.
* `pieces`, `vains`: The attempts that moved bytes, and those that waited for
  nothing.
* `Late`: An attempt began with the timeout expired.
* `InTime`: What a schedule guarantees.
* `Progress`: What comes of it.

## Theorems

* `late_elapsed`: Late means late.
* `attempts_scheduled`: The loop completes, is late, or uses up its attempts.
* `effort_progress`: When a transfer is completed.
-/

namespace Trpc

open Vsjson Interaction

variable {D : Type}

/-! ## Schedules -/

/-- A run that begins at time `now`, in nanoseconds, with `k` bytes moved. Byte
    `i` becomes transferable at `ready i`. Time does not run backwards; a poll
    that finds something finds the next byte; one that does not has waited for
    all of its interval, during which that byte did not come. A transfer moves
    bytes that have come. No call fails and nobody hangs up; a timer cannot be
    set to a negative interval, so no poll waits for one. -/
inductive Scheduled (ready : Nat → Int) : Int → Nat → Trace D → Prop
  | halt (now : Int) (k : Nat) : Scheduled ready now k []
  | tick (now now' : Int) (k : Nat) (t : Trace D) : now ≤ now' → Scheduled ready now' k t →
      Scheduled ready now k (⟨.tick, now'⟩ :: t)
  | found (now now' : Int) (k : Nat) (t : Trace D) (fd : Int) (event : PollEvent)
      (interval : Int32) (r : Int) (e : Errno) : now ≤ now' → 0 < r → ready k ≤ now' →
      Scheduled ready now' k t → Scheduled ready now k (⟨.poll fd event interval, (r, e)⟩ :: t)
  | vain (now now' : Int) (k : Nat) (t : Trace D) (fd : Int) (event : PollEvent)
      (interval : Int32) (e : Errno) : 0 ≤ interval.toInt →
      now + interval.toInt * 1000000 ≤ now' → now + interval.toInt * 1000000 ≤ ready k →
      Scheduled ready now' k t → Scheduled ready now k (⟨.poll fd event interval, (0, e)⟩ :: t)
  | read (now now' : Int) (k : Nat) (t : Trace D) (fd : Int) (offset size : Nat)
      (bs : { bs : Str // bs.length ≤ size }) (e : Errno) : now ≤ now' → 0 < bs.1.length →
      (∀ i < bs.1.length, ready (k + i) ≤ now') → Scheduled ready now' (k + bs.1.length) t →
      Scheduled ready now k (⟨.read fd offset size, (some bs, e)⟩ :: t)
  | write (now now' : Int) (k : Nat) (t : Trace D) (fd : Int) (data : Str)
      (n : { n : Nat // n ≤ data.length }) (e : Errno) : now ≤ now' → 0 < n.1 →
      (∀ i < n.1, ready (k + i) ≤ now') → Scheduled ready now' (k + n.1) t →
      Scheduled ready now k (⟨.write fd data, (some n, e)⟩ :: t)

/-- A transfer that moved bytes. -/
def Ev.isPiece : Ev D → Bool
  | ⟨.read _ _ _, (some _, _)⟩ => true
  | ⟨.write _ _, (some _, _)⟩ => true
  | _ => false

/-- A poll that found nothing. -/
def Ev.isVain : Ev D → Bool
  | ⟨.poll _ _ _, (r, _)⟩ => r == 0
  | _ => false

/-- How many attempts moved bytes. -/
def pieces (t : Trace D) : Nat := t.countP Ev.isPiece

/-- How many attempts waited in vain. -/
def vains (t : Trace D) : Nat := t.countP Ev.isVain

/-- An attempt began with the timeout expired, as the loop sees it. -/
def Late (start timeout : Int) (t : Trace D) : Prop :=
  ∃ now : Int, ⟨.tick, now⟩ ∈ t ∧ expired start timeout now = true

theorem late_cons (start timeout : Int) (e : Ev D) (t : Trace D) (h : Late start timeout t) :
    Late start timeout (e :: t) := by
  rcases h with ⟨now, hmem, hlate⟩
  exact ⟨now, List.mem_cons_of_mem e hmem, hlate⟩

/-! ## The loop -/

section Loop

variable (event : PollEvent) (fd : Int) (func : CoPosixFunc D)

/-- On schedule, an attempt behind a poll that found something moves a piece. -/
def Moving : Prop := ∀ ready now off n u rest r errno, Runs (func off n) u (r, errno) →
  Scheduled ready now off (u ++ rest) → ∃ m bytes now', r = some (m, bytes) ∧ 0 < m ∧ m ≤ n ∧
    bytes.length = m ∧ now ≤ now' ∧ Scheduled ready now' (off + m) rest ∧
    ∃ e, u = [e] ∧ Ev.isPiece e = true ∧ Ev.isVain e = false

/-- The attempts were used up at time `now`, with `off` of `size` bytes moved: so
    many bytes are missing, and the vain waits took as long as they should. -/
structure Spent (ready : Nat → Int) (size : Nat) (interval : Int32) (retries : Nat) (now : Int)
    (u : Trace D) (x : Transfer) : Prop where
  short : x.moved.length < size
  used : pieces u + vains u = retries
  waited : 0 < vains u → 0 ≤ interval.toInt ∧
    ∃ i < size, now + vains u * (interval.toInt * 1000000) ≤ ready i

/-- How a loop that began at `now` ends on schedule. -/
def Ending (start timeout : Int) (ready : Nat → Int) (size : Nat) (interval : Int32) (retries : Nat)
    (now : Int) (u : Trace D) (x : Transfer) : Prop :=
  x.ret = size ∨ Late start timeout u ∨ Spent ready size interval retries now u x

variable {event fd func}

/-- An event that neither moves nor waits, in front. -/
theorem ending_cons (start timeout : Int) (ready : Nat → Int) (size : Nat) (interval : Int32)
    (retries : Nat) (now now' : Int) (e : Ev D) (u : Trace D) (x : Transfer) (hnow : now ≤ now')
    (hpiece : Ev.isPiece e = false) (hvain : Ev.isVain e = false)
    (h : Ending start timeout ready size interval retries now' u x) :
    Ending start timeout ready size interval retries now (e :: u) x := by
  rcases h with h | h | h
  · exact Or.inl h
  · exact Or.inr (Or.inl (late_cons _ _ e u h))
  · have hp : pieces (e :: u) = pieces u := by
      rw [pieces, List.countP_cons_of_neg (by rw [hpiece]; exact Bool.false_ne_true), pieces]
    have hv : vains (e :: u) = vains u := by
      rw [vains, List.countP_cons_of_neg (by rw [hvain]; exact Bool.false_ne_true), vains]
    refine Or.inr (Or.inr ⟨h.short, by rw [hp, hv]; exact h.used, fun hpos => ?_⟩)
    rw [hv] at hpos ⊢
    rcases h.waited hpos with ⟨hint, i, hi, hle⟩
    exact ⟨hint, i, hi, by omega⟩

/-- A piece in front takes one attempt. -/
theorem ending_piece (start timeout : Int) (ready : Nat → Int) (size : Nat) (interval : Int32)
    (retries : Nat) (now now' : Int) (e : Ev D) (u : Trace D) (x : Transfer) (hnow : now ≤ now')
    (hpiece : Ev.isPiece e = true) (hvain : Ev.isVain e = false)
    (h : Ending start timeout ready size interval retries now' u x) :
    Ending start timeout ready size interval (retries + 1) now (e :: u) x := by
  rcases h with h | h | h
  · exact Or.inl h
  · exact Or.inr (Or.inl (late_cons _ _ e u h))
  · have hp : pieces (e :: u) = pieces u + 1 := by
      rw [pieces, List.countP_cons_of_pos hpiece, pieces]
    have hv : vains (e :: u) = vains u := by
      rw [vains, List.countP_cons_of_neg (by rw [hvain]; exact Bool.false_ne_true), vains]
    refine Or.inr (Or.inr ⟨h.short, by rw [hp, hv, ← h.used]; omega, fun hpos => ?_⟩)
    rw [hv] at hpos ⊢
    rcases h.waited hpos with ⟨hint, i, hi, hle⟩
    exact ⟨hint, i, hi, by omega⟩

/-- So does a vain wait, and it takes its time. -/
theorem ending_vain (start timeout : Int) (ready : Nat → Int) (size off : Nat) (interval : Int32)
    (retries : Nat) (now now' : Int) (e : Ev D) (u : Trace D) (x : Transfer) (hoff : off < size)
    (hint : 0 ≤ interval.toInt) (hnow : now + interval.toInt * 1000000 ≤ now')
    (hready : now + interval.toInt * 1000000 ≤ ready off)
    (hpiece : Ev.isPiece e = false) (hvain : Ev.isVain e = true)
    (h : Ending start timeout ready size interval retries now' u x) :
    Ending start timeout ready size interval (retries + 1) now (e :: u) x := by
  rcases h with h | h | h
  · exact Or.inl h
  · exact Or.inr (Or.inl (late_cons _ _ e u h))
  · have hp : pieces (e :: u) = pieces u := by
      rw [pieces, List.countP_cons_of_neg (by rw [hpiece]; exact Bool.false_ne_true), pieces]
    have hv : vains (e :: u) = vains u + 1 := by
      rw [vains, List.countP_cons_of_pos hvain, vains]
    refine Or.inr (Or.inr ⟨h.short, by rw [hp, hv, ← h.used]; omega, fun _ => ⟨hint, ?_⟩⟩)
    rw [hv]
    -- Of all vain waits the byte of the last one is the one that came latest.
    by_cases hpos : 0 < vains u
    · rcases h.waited hpos with ⟨_, i, hi, hle⟩
      exact ⟨i, hi, by push_cast; linarith⟩
    · -- It was the last one: the byte it waited for is still to come.
      have hzero : vains u = 0 := by omega
      exact ⟨off, hoff, by rw [hzero]; push_cast; linarith⟩

/-- The loop, from any point of it on. -/
theorem attempts_scheduled (hfunc : Moving func) (ready : Nat → Int) (size : Nat) (timeout : Int)
    (interval : Int32) (start : Int) : ∀ retries now off m errno u x, m.length = off → off < size →
      Runs (attempts func event fd size timeout interval start retries off m errno) u x →
      Scheduled ready now off u →
      Ending start timeout ready size interval retries now u x := by
  intro retries
  induction retries with
  | zero =>
      intro now off m errno u x hm hoff hr hp
      simp only [attempts] at hr
      split at hr <;>
        · rcases (runs_ret_iff ..).mp hr with ⟨rfl, rfl⟩
          exact Or.inr (Or.inr ⟨by simp only [hm]; exact hoff, rfl,
            fun h => absurd h (by simp [vains])⟩)
  | succ retries ih =>
      intro now off m errno u x hm hoff hr hp
      simp only [attempts, Prog.bind_def, Prog.pure_def, runs_tick_bind] at hr
      rcases hr with ⟨now1, u, rfl, hr⟩
      cases hp with
      | tick _ _ _ _ hnow1 hp =>
      split at hr
      · rename_i hlate
        -- The timeout is over at the head of the attempt.
        exact Or.inr (Or.inl ⟨now1, List.mem_cons_self, hlate⟩)
      refine ending_cons _ _ _ _ _ _ now now1 _ u x hnow1 rfl rfl ?_
      rw [runs_poll_bind] at hr
      rcases hr with ⟨⟨pret, perr⟩, u, rfl, hr⟩
      simp only at hr
      cases hp with
      -- A wait in vain takes a share of the timeout and one attempt.
      | vain _ now2 _ _ _ _ _ _ hint hnow2 hready hp =>
          simp only [le_refl, if_true, lt_irrefl, if_false] at hr
          exact ending_vain _ _ _ _ off _ _ now1 now2 _ u x hoff hint hnow2 hready rfl rfl
            (ih now2 off m _ u x hm hoff hr hp)
      | found _ now2 _ _ _ _ _ _ _ hnow2 hpos hready hp =>
          -- The poll found the next byte, so the attempt moves something.
          rw [if_neg (not_le.mpr hpos)] at hr
          rcases (runs_bind_iff ..).mp hr with ⟨u1, u2, ⟨ret, errno'⟩, rfl, h1, h2⟩
          rcases hfunc ready now2 off _ u1 u2 ret errno' h1 hp with
            ⟨n, bytes, now3, rfl, hn, hle, hlen, hnow3, hp', e, rfl, hpiece, hvain⟩
          refine ending_cons _ _ _ _ _ _ now1 now2 _ _ x hnow2 rfl
            (by simp only [Ev.isVain, beq_eq_false_iff_ne]; omega) ?_
          refine ending_piece _ _ _ _ _ _ now2 now3 e u2 x hnow3 hpiece hvain ?_
          simp only [if_neg (Nat.pos_iff_ne_zero.mp hn)] at h2
          split at h2
          · rcases (runs_ret_iff ..).mp h2 with ⟨rfl, rfl⟩
            exact Or.inl rfl
          · -- A piece takes an attempt as well, though it brings bytes.
            exact ih now3 (off + n) (m ++ bytes) _ u2 x
              (by rw [List.length_append, hm, hlen]) (by omega) h2 hp'

end Loop

/-- A read on schedule moves what has come. -/
theorem coRead_moving (fd : Int) (base : Nat) : Moving (coRead (D := D) fd base) := by
  intro ready now off n u rest r errno hr hp
  simp only [coRead, Prog.bind_def, runs_read_bind] at hr
  rcases hr with ⟨⟨reply, e⟩, u, rfl, hr⟩
  cases reply with
  | none => cases hp
  | some bs =>
      rcases (runs_ret_iff (some (bs.1.length, bs.1), e) (r, errno) u).mp hr with ⟨rfl, h⟩
      cases h
      cases hp with
      | read _ now' _ _ _ _ _ _ _ hnow hpos hready hp =>
          exact ⟨_, _, now', rfl, hpos, bs.2, rfl, hnow, hp, _, rfl, rfl, rfl⟩

/-- A write on schedule moves what it can. -/
theorem coWrite_moving (fd : Int) (data : Str) : Moving (coWrite (D := D) fd data) := by
  intro ready now off n u rest r errno hr hp
  simp only [coWrite, Prog.bind_def, runs_write_bind] at hr
  rcases hr with ⟨⟨reply, e⟩, u, rfl, hr⟩
  cases reply with
  | none => cases hp
  | some k =>
      rcases (runs_ret_iff (some (k.1, ((data.drop off).take n).take k.1), e) (r, errno)
        u).mp hr with ⟨rfl, h⟩
      cases h
      cases hp with
      | write _ now' _ _ _ _ _ _ hnow hpos hready hp =>
          have hk : k.1 ≤ n := le_trans k.2 (List.length_take_le _ _)
          refine ⟨_, _, now', rfl, hpos, hk, ?_, hnow, hp, _, rfl, rfl, rfl⟩
          rw [List.length_take]
          exact min_eq_left k.2

/-! ## A whole transfer -/

/-- What a schedule guarantees: all `size` bytes come within so many shares of
    the timeout as there are attempts left over from the `p` pieces in which
    they are moved, one of them for the last piece itself. -/
structure InTime (ready : Nat → Int) (size : Nat) (timeout : Int) (maxRetries : Nat)
    (start : Int) (p : Nat) : Prop where
  few : p ≤ maxRetries
  soon : ∀ i < size, ready i < start +
    ((maxRetries + 1 - p : Nat) : Int) * ((pollInterval timeout maxRetries).toInt * 1000000)

/-- On schedule, a transfer of at least one byte is completed, or late, or has
    used up its attempts. -/
theorem bestEffortTemplate_scheduled {event : PollEvent} {fd : Int} {func : CoPosixFunc D}
    (hfunc : Moving func) (ready : Nat → Int) (size : Nat) (timeout : Int) (maxRetries : Nat)
    (start : Int) (u : Trace D) (x : Transfer) (hsize : 0 < size)
    (hr : Runs (bestEffortTemplate func event fd size timeout maxRetries)
      (⟨.tick, start⟩ :: u) x) (hp : Scheduled ready start 0 u) :
    Ending start timeout ready size (pollInterval timeout maxRetries) maxRetries
      start u x := by
  simp only [bestEffortTemplate, Prog.bind_def, runs_tick_bind] at hr
  rcases hr with ⟨start', u', ht, hr⟩
  cases ht
  exact attempts_scheduled hfunc ready size timeout _ start maxRetries start 0 [] 0 u x rfl hsize hr
    hp

/-- A transfer whose attempts are used up has had more to wait for, or more
    pieces to move, than a schedule in time gives it. -/
theorem spent_not_inTime (ready : Nat → Int) (size : Nat) (timeout : Int) (maxRetries : Nat)
    (start : Int) (u : Trace D) (x : Transfer) (p : Nat)
    (h : Spent ready size (pollInterval timeout maxRetries) maxRetries start u x)
    (hin : InTime ready size timeout maxRetries start p)
    (hpieces : p ≤ pieces u → size ≤ x.moved.length) : False := by
  -- With `p` pieces all bytes would be there.
  have hfew : pieces u < p := by
    by_contra hge
    exact absurd (hpieces (not_lt.mp hge)) (not_le.mpr h.short)
  -- The attempts that were no pieces were waits.
  have hleft : maxRetries + 1 - p ≤ vains u := by
    have := h.used
    omega
  have hp := hin.few
  rcases h.waited (by omega) with ⟨hint, i, hi, hle⟩
  have hsoon := hin.soon i hi
  have hmul : ((maxRetries + 1 - p : Nat) : Int) *
      ((pollInterval timeout maxRetries).toInt * 1000000)
      ≤ vains u * ((pollInterval timeout maxRetries).toInt * 1000000) :=
    mul_le_mul_of_nonneg_right (by exact_mod_cast hleft) (by omega)
  omega

/-! ## The clock -/

/-- A timeout expires only when it has elapsed, if its nanoseconds fit into an `int64_t`. -/
theorem expired_elapsed (start timeout now : Int) (hnow : start ≤ now) (hpos : 0 ≤ timeout)
    (hfit : timeout ≤ 9223372036854) (h : expired start timeout now = true) :
    start + timeout * 1000000 < now := by
  have hcmp : nanoseconds (timeout * 1000000) < nanoseconds (now - start) := of_decide_eq_true h
  have htimeout : nanoseconds (timeout * 1000000) = timeout * 1000000 :=
    Int.bmod_eq_of_le (by omega) (by omega)
  -- The time elapsed may have wrapped around, but that only makes it less.
  have helapsed : nanoseconds (now - start) ≤ now - start := by
    rw [nanoseconds, Int.bmod_eq_emod]
    split <;> omega
  omega

/-- On schedule time does not run backwards. -/
theorem scheduled_clock (ready : Nat → Int) (now : Int) (k : Nat) (u : Trace D)
    (hp : Scheduled ready now k u) (now' : Int) (h : ⟨.tick, now'⟩ ∈ u) : now ≤ now' := by
  induction hp with
  | halt => cases h
  | tick now now1 k t hle _ ih =>
      rcases List.mem_cons.mp h with heq | hmem
      · cases heq
        exact hle
      · exact le_trans hle (ih hmem)
  | vain now now1 k t fd event interval e hint hle _ _ ih =>
      rcases List.mem_cons.mp h with heq | hmem
      · cases heq
      · -- A vain wait does not go back in time either.
        have := ih hmem
        omega
  | found now now1 k t fd event interval r e hle _ _ _ ih
  | read now now1 k t fd offset size bs e hle _ _ _ ih
  | write now now1 k t fd data n e hle _ _ _ ih =>
      rcases List.mem_cons.mp h with heq | hmem
      · cases heq
      · exact le_trans hle (ih hmem)

theorem late_elapsed (ready : Nat → Int) (start timeout : Int) (k : Nat) (u : Trace D)
    (hp : Scheduled ready start k u) (hpos : 0 ≤ timeout) (hfit : timeout ≤ 9223372036854)
    (h : Late start timeout u) :
    ∃ now : Int, ⟨.tick, now⟩ ∈ u ∧ start + timeout * 1000000 < now := by
  rcases h with ⟨now, hmem, hlate⟩
  exact ⟨now, hmem, expired_elapsed start timeout now (scheduled_clock ready start k u hp now hmem)
    hpos hfit hlate⟩

/-! ## What comes of a schedule -/

/-- A transfer on schedule, with no call failing. -/
structure Progress (ready : Nat → Int) (size : Nat) (timeout : Int) (maxRetries : Nat)
    (start : Int) (moved : Str) (u : Trace D) (x : Transfer) : Prop where
  /-- It is completed, or late, or has used up its attempts. -/
  ends : x.ret = size ∨ Late start timeout u ∨ pieces u + vains u = maxRetries
  /-- It is completed, when not late, if `p` pieces bring all bytes and these come within
      `maxRetries + 1 - p` shares of the timeout. -/
  completes : ∀ p, InTime ready size timeout maxRetries start p →
    (p ≤ pieces u → size ≤ moved.length) → ¬ Late start timeout u → x.ret = size
  /-- When late, the timeout is really over, if it fits into the comparison. -/
  elapsed : 0 ≤ timeout → timeout ≤ 9223372036854 → Late start timeout u →
    ∃ now : Int, ⟨.tick, now⟩ ∈ u ∧ start + timeout * 1000000 < now

/-- From how a transfer ends to what comes of its schedule. -/
theorem progress_of_ending (ready : Nat → Int) (size : Nat) (timeout : Int) (maxRetries : Nat)
    (start : Int) (u : Trace D) (x : Transfer) (hp : Scheduled ready start 0 u)
    (hend : Ending start timeout ready size (pollInterval timeout maxRetries) maxRetries start u
      x) :
    Progress ready size timeout maxRetries start x.moved u x := by
  refine ⟨hend.imp_right (Or.imp_right Spent.used), fun p hin hpieces hlate => ?_,
    fun hpos hfit => late_elapsed ready start timeout 0 u hp hpos hfit⟩
  rcases hend with h | h | h
  · exact h
  · exact absurd h hlate
  · -- With all attempts used up, the last byte would have come in one of them.
    exact (spent_not_inTime _ _ _ _ _ _ _ p h hin hpieces).elim

/-- What comes of a schedule, for a transfer of at least one byte in either direction. -/
theorem effort_progress :
    (∀ (fd : Int) (base size : Nat) (timeout : Int) (maxRetries : Nat) (ready : Nat → Int)
      (start : Int) (u : Trace D) (x : Transfer), 0 < size →
      Runs (bestEffortRead fd base size timeout maxRetries) (⟨.tick, start⟩ :: u) x →
      Scheduled ready start 0 u →
      Progress ready size timeout maxRetries start (received fd u) u x) ∧
    (∀ (fd : Int) (data : Str) (size : Nat) (timeout : Int) (maxRetries : Nat)
      (ready : Nat → Int) (start : Int) (u : Trace D) (x : Transfer), 0 < size →
      Runs (bestEffortWrite fd data size timeout maxRetries) (⟨.tick, start⟩ :: u) x →
      Scheduled ready start 0 u →
      Progress ready size timeout maxRetries start (sent fd u) u x) := by
  constructor
  · intro fd base size timeout maxRetries ready start u x hsize hr hp
    have hend := bestEffortTemplate_scheduled (coRead_moving fd base) ready size timeout maxRetries
      start u x hsize hr hp
    have hm : received fd u = x.moved :=
      (bestEffortRead_runs fd base size timeout maxRetries _ x hr).1.received
    rw [hm]
    exact progress_of_ending ready size timeout maxRetries start u x hp hend
  · intro fd data size timeout maxRetries ready start u x hsize hr hp
    have hend := bestEffortTemplate_scheduled (coWrite_moving fd data) ready size timeout maxRetries
      start u x hsize hr hp
    have hm : sent fd u = x.moved :=
      (bestEffortWrite_runs fd data size timeout maxRetries _ x hr).1.sent
    rw [hm]
    exact progress_of_ending ready size timeout maxRetries start u x hp hend

/-- Two bytes, at once or one by one. -/
def twoBytes (piece : Nat) : Network := ⟨[65, 66], [], 1, piece, fun _ _ => .error (.std "none")⟩

theorem twoBytes_run :
    Runs (bestEffortRead (D := Unit) 3 0 2 1000 1) (⟨.tick, (0 : Int)⟩ :: [⟨.tick, (0 : Int)⟩,
      ⟨.poll 3 .pollin 1000, ((1 : Int), (0 : Errno))⟩,
      ⟨.read 3 0 2, (some ⟨[65, 66], by decide⟩, (0 : Errno))⟩]) ⟨2, [65, 66], 0⟩ :=
  runs_drive Network.reply (twoBytes 2) _

theorem oneOfTwo_run :
    Runs (bestEffortRead (D := Unit) 3 0 2 1000 1) (⟨.tick, (0 : Int)⟩ :: [⟨.tick, (0 : Int)⟩,
      ⟨.poll 3 .pollin 1000, ((1 : Int), (0 : Errno))⟩,
      ⟨.read 3 0 2, (some ⟨[65], by decide⟩, (0 : Errno))⟩]) ⟨1, [65], 0⟩ :=
  runs_drive Network.reply (twoBytes 1) _

/-- In one piece they are waited for as long as the timeout lasts. -/
theorem effort_progress_two : ∃ (u : Trace Unit) (x : Transfer),
    Runs (bestEffortRead 3 0 2 1000 1) (⟨.tick, (0 : Int)⟩ :: u) x ∧
      Scheduled (fun _ => 0) 0 0 u ∧ x.ret = (2 : Nat) := by
  have hp : Scheduled (D := Unit) (fun _ => 0) 0 0 [⟨.tick, (0 : Int)⟩,
      ⟨.poll 3 .pollin 1000, ((1 : Int), (0 : Errno))⟩,
      ⟨.read 3 0 2, (some ⟨[65, 66], by decide⟩, (0 : Errno))⟩] :=
    .tick 0 0 0 _ (by decide) (.found 0 0 0 _ 3 .pollin 1000 1 0 (by decide) (by decide)
      (by decide) (.read 0 0 0 _ 3 0 2 ⟨[65, 66], by decide⟩ 0 (by decide) (by decide)
        (fun _ _ => le_refl _) (.halt 0 2)))
  refine ⟨_, _, twoBytes_run, hp, (effort_progress.1 3 0 2 1000 1 (fun _ => 0) 0 _ _ (by decide)
    twoBytes_run hp).completes 1 ⟨by decide, fun i _ => by decide +kernel⟩ (fun _ => by decide) ?_⟩
  -- The clock was read once behind the start, and stood still.
  rintro ⟨now, hmem, hlate⟩
  simp only [List.mem_cons, List.not_mem_nil, or_false] at hmem
  rcases hmem with h | h | h
  · cases h
    exact absurd hlate (by decide)
  · cases h
  · cases h

/-- In two pieces they are too many for one attempt, although both are there at
    once and nothing fails. -/
theorem effort_one_attempt :
    ¬ ∀ (ready : Nat → Int) (start : Int) (u : Trace Unit) (x : Transfer),
      Runs (bestEffortRead 3 0 2 1000 1) (⟨.tick, start⟩ :: u) x → Scheduled ready start 0 u →
      (∀ i < 2, ready i < start + 1000 * 1000000) →
      (∀ now : Int, ⟨.tick, now⟩ ∈ u → now ≤ start + 1000 * 1000000) → x.ret = (2 : Nat) := by
  intro h
  refine absurd (h (fun _ => 0) 0 _ _ oneOfTwo_run ?_ (fun i _ => by decide) ?_) (by decide)
  · exact .tick 0 0 0 _ (by decide) (.found 0 0 0 _ 3 .pollin 1000 1 0 (by decide) (by decide)
      (by decide) (.read 0 0 0 _ 3 0 2 ⟨[65], by decide⟩ 0 (by decide) (by decide)
        (fun _ _ => le_refl _) (.halt 0 1)))
  · intro now hmem
    simp only [List.mem_cons, List.not_mem_nil, or_false] at hmem
    rcases hmem with h | h | h
    · cases h
      decide
    · cases h
    · cases h

end Trpc
