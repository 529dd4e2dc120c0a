import Trpc.Theory.Co.Polling

/-!
# The Pauses of a Connection Attempt

`co::connect` tries as often as it is told to, with pauses that double from the fourth
attempt on. The comment in its loop says how long they are: `0 - 0 - 0 - 1s - 2s - 4s`.
The counter is compared before it is incremented, but the shift is by what it has been
incremented to, so the first pause is two seconds, and each is twice what the comment has.

A run in which every attempt fails with an error that is worth another attempt is taken
apart into attempts and pauses: `connect_attempts`. In a pause the timer tells how long it
is, and the calls of `::connect` in front of it tell which pause it is, so that the two
schedules cannot be confused: `attempts_timer`.

## Main definitions

* `Retryable`: What is answered to an attempt that fails and is made again.
* `Attempt`, `Attempts`: The calls of one such attempt, and of all there are.
* `coded`, `documented`: The pauses of the code, and those of the comment.
* `Documented`: `co::connect` does as the comment says.

## Theorems

* `connect_attempts`: What `co::connect` does.
* `attempts_timer`: Which pause a timer is for.
* `documented_iff`: When that is what the comment says.
-/

namespace Co

open Trpc Interaction

/-- The errors with which the peer is asked for. -/
def AsksPeer (e : Errno) : Prop :=
  e = 0 ∨ e = Errno.EINTR ∨ e = Errno.EINPROGRESS ∨ e = Errno.EALREADY ∨ e = Errno.EISCONN

/-- The errors with which another attempt is made. -/
def TriesAgain (e : Errno) : Prop :=
  e = Errno.EAGAIN ∨ e = Errno.EADDRINUSE ∨ e = Errno.EADDRNOTAVAIL ∨ e = Errno.ENETUNREACH
    ∨ e = Errno.ECONNREFUSED

/-- Nothing is answered that would end `co::connect` before its attempts are used up. -/
def Retryable : Ev → Prop
  | ⟨.addEvent caller _ _, (iter : Bool)⟩ => caller = .connect → iter = true
  | ⟨.getsockopt _, soerr⟩ => ∃ e, soerr = some e ∧ (AsksPeer e ∨ TriesAgain e)
  | ⟨.getpeername _, (failed : Bool)⟩ => failed = true
  | _ => True

/-- The calls of an attempt up to the error of the socket. -/
def attemptCalls (fd r : Int) (e : Errno) : List Ev :=
  [⟨.connect fd, r⟩, ⟨.addEvent .connect fd .write, true⟩, ⟨.yield fd .write, ()⟩,
    ⟨.getsockopt fd, some e⟩]

/-- An attempt that fails and is made again. -/
inductive Attempt (fd : Int) : List Ev → Prop where
  | refused (r : Int) (e : Errno) : ¬ AsksPeer e → TriesAgain e → Attempt fd (attemptCalls fd r e)
  | noPeer (r : Int) (e : Errno) : AsksPeer e →
      Attempt fd (attemptCalls fd r e ++ [⟨.getpeername fd, true⟩])

/-- A pause, or none: `co::poll` without descriptors. -/
def Paused : Option Int → List Ev → Prop
  | none, t => t = []
  | some ms, t => ∃ x, Runs (poll [] ms) t x

/-- The attempts from the `k`-th on, `n` of them, each behind its pause, and the error in the
    end. -/
inductive Attempts (fd : Int) (pause : Nat → Option Int) : Nat → Nat → List Ev → Prop where
  | ends (k : Nat) : Attempts fd pause k 0 [⟨.setErrno Errno.ETIMEDOUT, ()⟩]
  | more (k n : Nat) (t u v : List Ev) : Paused (pause k) t → Attempt fd u →
      Attempts fd pause (k + 1) n v → Attempts fd pause k (n + 1) (t ++ (u ++ v))

/-- The pause in front of the `k`-th attempt, as the code has it. -/
def coded (k : Nat) : Option Int := if k ≤ 3 then none else some (backOff k)

/-- The same, as the comment has it: `0 - 0 - 0 - 1s - 2s - 4s - ...`. -/
def documented (k : Nat) : Option Int := if k ≤ 3 then none else some (1024 * 2 ^ (k - 4))

/-! ## Runs -/

/-- An attempt that does not end `co::connect`, and what comes behind it. -/
theorem attempt_runs (fd : Int) (retry : Proc Int) (t : List Ev) (x : Int)
    (hr : Runs (connectAttempt fd retry) t x) (ha : ∀ e ∈ t, Retryable e) :
    ∃ u v, t = u ++ v ∧ Attempt fd u ∧ Runs retry v x := by
  unfold connectAttempt at hr
  rcases runs_ask _ _ _ _ hr with ⟨(r : Int), t1, rfl, hadd⟩
  rcases runs_ask _ _ _ _ hadd with ⟨(iter : Bool), t2, rfl, hyield⟩
  -- Descriptor and `addEvent` raise no objection, so the coroutine yields.
  have hiter : iter = true := ha _ (List.mem_cons_of_mem _ List.mem_cons_self) rfl
  subst hiter
  rw [if_pos rfl] at hyield
  rcases runs_ask _ _ _ _ hyield with ⟨_, t3, rfl, hsock⟩
  rcases runs_ask _ _ _ _ hsock with ⟨soerr, t4, rfl, hrest⟩
  rcases ha _ (List.mem_cons_of_mem _ (List.mem_cons_of_mem _ (List.mem_cons_of_mem _
    List.mem_cons_self))) with ⟨e, rfl, he⟩
  by_cases hpeer : AsksPeer e
  · have hask := (show e = 0 ∨ e = Errno.EINTR ∨ e = Errno.EINPROGRESS ∨ e = Errno.EALREADY
      ∨ e = Errno.EISCONN from hpeer)
    simp only [if_pos hask] at hrest
    rcases runs_ask _ _ _ _ hrest with ⟨(failed : Bool), t5, rfl, hretry⟩
    -- No error is pending, but there is no peer either.
    have hfailed : failed = true :=
      ha _ (List.mem_cons_of_mem _ (List.mem_cons_of_mem _ (List.mem_cons_of_mem _
        (List.mem_cons_of_mem _ List.mem_cons_self))))
    subst hfailed
    exact ⟨_, t5, rfl, Attempt.noPeer r e hpeer, hretry⟩
  · have hagain : TriesAgain e := he.resolve_left hpeer
    have hnot := (show ¬ (e = 0 ∨ e = Errno.EINTR ∨ e = Errno.EINPROGRESS ∨ e = Errno.EALREADY
      ∨ e = Errno.EISCONN) from hpeer)
    have htry := (show e = Errno.EAGAIN ∨ e = Errno.EADDRINUSE ∨ e = Errno.EADDRNOTAVAIL
      ∨ e = Errno.ENETUNREACH ∨ e = Errno.ECONNREFUSED from hagain)
    simp only [if_neg hnot, if_pos htry] at hrest
    exact ⟨_, t4, rfl, Attempt.refused r e hpeer hagain, hrest⟩

/-- The loop, from behind `retries` attempts. -/
theorem connectLoop_attempts (fd : Int) (left : Nat) : ∀ (retries : Nat) (t : List Ev) (x : Int),
    Runs (connectLoop fd left retries) t x → (∀ e ∈ t, Retryable e) →
      Attempts fd coded (retries + 1) left t ∧ x = -1 := by
  induction left with
  | zero =>
      intro retries t x hr _
      rcases runs_ask _ _ _ _ hr with ⟨_, t', rfl, hret⟩
      rcases (runs_ret_iff ..).mp hret with ⟨rfl, rfl⟩
      exact ⟨Attempts.ends _, rfl⟩
  | succ left ih =>
      intro retries t x hr ha
      unfold connectLoop at hr
      by_cases hpause : retries > 2
      · -- From the fourth attempt on there is a pause.
        rw [if_pos hpause] at hr
        rcases (runs_bind_iff ..).mp hr with ⟨t1, t2, y, rfl, hpoll, hattempt⟩
        rcases attempt_runs fd _ t2 x hattempt fun e he => ha e (List.mem_append_right t1 he) with
          ⟨u, v, rfl, hu, hv⟩
        rcases ih (retries + 1) v x hv fun e he =>
          ha e (List.mem_append_right t1 (List.mem_append_right u he)) with ⟨hrest, hx⟩
        have hcoded : coded (retries + 1) = some (backOff (retries + 1)) := if_neg (by omega)
        exact ⟨Attempts.more _ _ t1 u v (hcoded ▸ ⟨y, hpoll⟩) hu hrest, hx⟩
      · rw [if_neg hpause] at hr
        rcases attempt_runs fd _ t x hr ha with ⟨u, v, rfl, hu, hv⟩
        rcases ih (retries + 1) v x hv fun e he => ha e (List.mem_append_right u he) with
          ⟨hrest, hx⟩
        have hcoded : coded (retries + 1) = none := if_pos (by omega)
        exact ⟨Attempts.more _ _ [] u v (hcoded ▸ rfl) hu hrest, hx⟩

/-- What `co::connect` does when no attempt succeeds and none is fatal. -/
theorem connect_attempts (n : Nat) (fd : Int) (t : List Ev) (x : Int)
    (hr : Runs (connect n fd) t x) (ha : ∀ e ∈ t, Retryable e) :
    Attempts fd coded 1 n t ∧ x = -1 :=
  connectLoop_attempts fd n 0 t x hr ha

/-! ## Which pause is which -/

def isConnect : Ev → Bool
  | ⟨.connect _, _⟩ => true
  | _ => false

/-- The attempts that have been begun. -/
def connects (t : List Ev) : Nat := t.countP isConnect

theorem connects_append (t u : List Ev) : connects (t ++ u) = connects t + connects u :=
  List.countP_append

theorem paused_calls (w : Option Int) (t : List Ev) (h : Paused w t) :
    ∀ e ∈ t, ∃ ms, w = some ms ∧ Call.OfPoll ms e.1 := by
  intro e he
  cases w with
  | none =>
      rw [show t = [] from h] at he
      exact absurd he List.not_mem_nil
  | some ms =>
      rcases h with ⟨x, hr⟩
      exact ⟨ms, rfl, runs_only _ t x (poll_calls [] ms) hr e he⟩

theorem connects_paused (w : Option Int) (t : List Ev) (h : ∀ e ∈ t, ∃ ms, w = some ms ∧
    Call.OfPoll ms e.1) : connects t = 0 := by
  refine List.countP_eq_zero.mpr fun e he => ?_
  rcases h e he with ⟨ms, _, hcall⟩
  rcases e with ⟨c, r⟩
  -- `co::poll` connects nothing.
  cases c with
  | connect fd => exact absurd hcall id
  | _ => exact Bool.false_ne_true

theorem Attempt.connects (fd : Int) (u : List Ev) (h : Attempt fd u) : Co.connects u = 1 := by
  cases h <;> rfl

theorem Attempt.no_timer (fd : Int) (u : List Ev) (h : Attempt fd u) (timerfd sec nsec : Int)
    (r : Reply (.timerfdSettime timerfd sec nsec)) :
    (⟨.timerfdSettime timerfd sec nsec, r⟩ : Ev) ∉ u := by
  have hall : ∀ e ∈ u, ∀ timerfd sec nsec, e.1 ≠ .timerfdSettime timerfd sec nsec := by
    cases h <;>
      simp only [attemptCalls, List.cons_append, List.nil_append, List.forall_mem_cons, ne_eq,
        reduceCtorEq, not_false_eq_true, implies_true, true_and, List.not_mem_nil, false_implies]
  exact fun hmem => hall _ hmem timerfd sec nsec rfl

/-- An element of two lists in a row is in the first, or behind it in the second. -/
theorem append_split {α : Type} (t w a b : List α) (e : α) (h : t ++ w = a ++ e :: b) :
    (∃ c, t = a ++ e :: c) ∨ ∃ a', a = t ++ a' ∧ w = a' ++ e :: b := by
  -- The element is in front of the seam or behind it.
  rcases List.append_eq_append_iff.mp h with ⟨a', ha, hw⟩ | ⟨c, ht, hc⟩
  · exact Or.inr ⟨a', ha, hw⟩
  · cases c with
    | nil => exact Or.inr ⟨[], by rw [ht, List.append_nil, List.append_nil], hc.symm⟩
    | cons x c =>
        rcases List.cons.inj hc with ⟨rfl, _⟩
        exact Or.inl ⟨c, ht⟩

/-- A timer belongs to the pause in front of the attempt that comes next. -/
theorem attempts_timer (fd : Int) (pause : Nat → Option Int) (k n : Nat) (t : List Ev)
    (h : Attempts fd pause k n t) : ∀ (a b : List Ev) (timerfd sec nsec : Int)
      (r : Reply (.timerfdSettime timerfd sec nsec)),
      t = a ++ ⟨.timerfdSettime timerfd sec nsec, r⟩ :: b →
      ∃ ms, pause (k + connects a) = some ms ∧ sec = ms.tdiv 1000 ∧
        nsec = ms.tmod 1000 * 1000000 := by
  induction h with
  | ends k =>
      intro a b timerfd sec nsec r heq
      have hmem : (⟨.timerfdSettime timerfd sec nsec, r⟩ : Ev)
          ∈ ([⟨.setErrno Errno.ETIMEDOUT, ()⟩] : List Ev) :=
        heq ▸ List.mem_append_right a List.mem_cons_self
      cases List.mem_singleton.mp hmem
  | more k n t u v hpause hattempt _ ih =>
      intro a b timerfd sec nsec r heq
      have hcalls := paused_calls _ t hpause
      rcases append_split t (u ++ v) a b _ heq with ⟨c, ht⟩ | ⟨a', ha, hrest⟩
      · -- In the pause in front of this attempt.
        have hmem : (⟨.timerfdSettime timerfd sec nsec, r⟩ : Ev) ∈ t :=
          ht ▸ List.mem_append_right a List.mem_cons_self
        rcases hcalls _ hmem with ⟨ms, hms, htimer⟩
        have hzero : connects a = 0 :=
          connects_paused _ a fun x hx => hcalls x (ht ▸ List.mem_append_left _ hx)
        exact ⟨ms, hzero ▸ hms, htimer⟩
      rcases append_split u v a' b _ hrest with ⟨c, hu⟩ | ⟨a'', ha', hv⟩
      · -- The attempt itself sets no timer.
        exact absurd (hu ▸ List.mem_append_right a' List.mem_cons_self)
          (hattempt.no_timer _ _ timerfd sec nsec r)
      · -- In a later one, with one attempt more in front of it.
        rcases ih a'' b timerfd sec nsec r hv with ⟨ms, hms, htimer⟩
        refine ⟨ms, ?_, htimer⟩
        rw [ha, ha', connects_append, connects_append, connects_paused _ t hcalls,
          hattempt.connects, Nat.zero_add, ← Nat.add_assoc]
        exact hms

/-! ## The comment -/

/-- `co::connect` does as the comment says with this many attempts: if they all fail it makes
    that many, with the pauses of the comment, each of which is a positive `int`. -/
def Documented (n : Nat) : Prop :=
  ∀ fd t x, Runs (connect n fd) t x → (∀ e ∈ t, Retryable e) →
    Attempts fd documented 1 n t ∧
    ∀ k ms, k ≤ n → documented k = some ms → 0 < ms ∧ ms ≤ 2147483647

theorem attempts_congr (fd : Int) (pause pause' : Nat → Option Int) (k n : Nat) (t : List Ev)
    (h : Attempts fd pause k n t) :
    (∀ i, k ≤ i → i < k + n → pause i = pause' i) → Attempts fd pause' k n t := by
  induction h with
  | ends k => exact fun _ => Attempts.ends k
  | more k n t u v hpause hattempt _ ih =>
      intro heq
      -- Only pauses in front of attempts that are made matter.
      refine Attempts.more k n t u v (heq k (Nat.le_refl k) (by omega) ▸ hpause) hattempt ?_
      exact ih fun i hi hlt => heq i (by omega) (by omega)

/-- A peer that refuses, and a kernel that does as it is told. -/
def refusing : (c : Call) → Reply c
  | .read _ _ => (-1 : Int)
  | .write _ _ => (-1 : Int)
  | .connect _ => (-1 : Int)
  | .accept4 _ => (-1 : Int)
  | .getsockopt _ => some Errno.ECONNREFUSED
  | .getpeername _ => true
  | .poll fds => ((0, ⟨List.replicate fds.length 0, List.length_replicate⟩) :
      Int × { revents : List Int16 // revents.length = fds.length })
  | .timerfdCreate => (9 : Int)
  | .timerfdSettime _ _ _ => false
  | .timerfdGettime _ => none
  | .epollCreate1 => (8 : Int)
  | .epollCtl _ _ _ _ => false
  | .epollWait _ _ => some ⟨[], Nat.zero_le _⟩
  | .now => (0 : Int)
  | .close _ => ()
  | .setErrno _ => ()
  | .addEvent _ _ _ => true
  | .yield _ _ => ()

theorem refusing_retryable (c : Call) : Retryable ⟨c, refusing c⟩ := by
  cases c with
  | addEvent caller fd type => exact fun _ => rfl
  | getsockopt fd => exact ⟨_, rfl, Or.inr (by unfold TriesAgain; decide)⟩
  | getpeername fd => exact rfl
  | _ => exact trivial

/-- An attempt with a peer that refuses. -/
def refusal (fd : Int) : List Ev := attemptCalls fd (-1) Errno.ECONNREFUSED

theorem refusal_runs (fd : Int) (retry : Proc Int) (t : List Ev) (x : Int)
    (h : Runs retry t x) : Runs (connectAttempt fd retry) (refusal fd ++ t) x := by
  unfold refusal attemptCalls
  simp only [List.cons_append, List.nil_append]
  refine Runs.call _ _ _ _ _ (Runs.call _ _ _ _ _ (Runs.call _ _ _ _ _ (Runs.call _ _ _ _ _ ?_)))
  exact h

theorem refusal_retryable (fd : Int) : ∀ e ∈ refusal fd, Retryable e := by
  simp only [refusal, attemptCalls, List.forall_mem_cons]
  exact ⟨trivial, fun _ => rfl, trivial, refusing_retryable (.getsockopt fd),
    fun e he => absurd he List.not_mem_nil⟩

/-- The first pause, in which nothing happens. -/
def firstPause : List Ev :=
  [⟨.poll [], ((0, ⟨[], rfl⟩) : Int × { revents : List Int16 // revents.length = 0 })⟩,
    ⟨.epollCreate1, (8 : Int)⟩, ⟨.timerfdCreate, (9 : Int)⟩, ⟨.timerfdSettime 9 2 48000000, false⟩,
    ⟨.epollCtl 8 9 0 1, false⟩, ⟨.addEvent .poll 8 .read, true⟩, ⟨.yield 8 .read, ()⟩,
    ⟨.epollWait 8 1, some ⟨[(0, 1)], by decide⟩⟩, ⟨.close 8, ()⟩, ⟨.close 9, ()⟩]

theorem firstPause_runs : Runs (poll [] (backOff 4)) firstPause (.ok (0, [])) := by
  unfold firstPause
  repeat refine Runs.call _ _ _ _ _ ?_
  exact Runs.ret _

theorem firstPause_retryable : ∀ e ∈ firstPause, Retryable e := by
  have hadd : Retryable ⟨.addEvent .poll 8 .read, true⟩ := fun h => Api.noConfusion h
  simp only [firstPause, List.forall_mem_cons]
  exact ⟨trivial, trivial, trivial, trivial, trivial, hadd, trivial, trivial, trivial, trivial,
    fun e he => absurd he List.not_mem_nil⟩

/-- The pause in front of the fourth attempt is two seconds, however many attempts come
    behind it. -/
theorem not_documented (m : Nat) : ¬ Documented (m + 4) := by
  intro h
  rcases runs_with refusing (connectLoop 3 m 4) with ⟨t, x, hrest, hreplies⟩
  have hfourth : Runs (connectLoop 3 (m + 1) 3) (firstPause ++ (refusal 3 ++ t)) x :=
    (runs_bind_iff ..).mpr ⟨_, _, _, rfl, firstPause_runs, refusal_runs 3 _ t x hrest⟩
  have hrun : Runs (connect (m + 4) 3)
      (refusal 3 ++ (refusal 3 ++ (refusal 3 ++ (firstPause ++ (refusal 3 ++ t))))) x :=
    refusal_runs 3 _ _ x (refusal_runs 3 _ _ x (refusal_runs 3 _ _ x hfourth))
  have hretryable : ∀ e ∈ refusal 3 ++ (refusal 3 ++ (refusal 3 ++ (firstPause ++
      (refusal 3 ++ t)))), Retryable e := by
    have hrefusal := refusal_retryable 3
    have htail : ∀ e ∈ t, Retryable e := fun e he => hreplies e he ▸ refusing_retryable e.1
    simp only [List.forall_mem_append]
    exact ⟨hrefusal, hrefusal, hrefusal, firstPause_retryable, hrefusal, htail⟩
  -- Three attempts have been begun when the timer is set.
  have hsplit : refusal 3 ++ (refusal 3 ++ (refusal 3 ++ (firstPause ++ (refusal 3 ++ t))))
      = (refusal 3 ++ (refusal 3 ++ (refusal 3 ++ firstPause.take 3))) ++
        ⟨.timerfdSettime 9 2 48000000, false⟩ :: (firstPause.drop 4 ++ (refusal 3 ++ t)) := rfl
  rcases attempts_timer 3 documented 1 (m + 4) _ (h 3 _ x hrun hretryable).1 _ _ 9 2 48000000 false
    hsplit with ⟨ms, hms, hsec, _⟩
  have hconnects : connects (refusal 3 ++ (refusal 3 ++ (refusal 3 ++ firstPause.take 3))) = 3 :=
    rfl
  rw [hconnects] at hms
  cases hms
  exact absurd hsec (by decide)

/-- The comment is right about `co::connect` with three attempts at most. -/
theorem documented_iff (n : Nat) : Documented n ↔ n ≤ 3 := by
  constructor
  · intro h
    by_contra hlarge
    obtain ⟨m, rfl⟩ : ∃ m, n = m + 4 := ⟨n - 4, by omega⟩
    exact not_documented m h
  · intro hn fd t x hr ha
    refine ⟨?_, fun k ms hk hms => ?_⟩
    · refine attempts_congr fd coded documented 1 n t (connect_attempts n fd t x hr ha).1 ?_
      intro i _ hi
      have hi' : i ≤ 3 := by omega
      rw [coded, documented, if_pos hi', if_pos hi']
    · have hk' : k ≤ 3 := by omega
      rw [documented, if_pos hk'] at hms
      cases hms

/-- With the default of eight attempts it is not. -/
theorem documented_default : ¬ ∀ n, Documented n := fun h => not_documented 4 (h 8)

end Co
