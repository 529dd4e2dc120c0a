import Trpc.Core.Listener
import Trpc.Lib.Exclusive
import Trpc.Theory.Rpc.Ownership
import Trpc.Theory.Rpc.Streaming

/-!
# Who Closes What in a Server

`Server::start` hands each descriptor that it accepts to a worker and forgets it. In
any run, whatever the workers, `start` and the rest of the process do in between, a
worker calls nothing on a descriptor other than its own, and closes that one, once, as
the last thing it does: `workers_own`. So no descriptor is lost, none is closed twice,
and none under which something else has been opened since.

The condition is that `co::accept4` is not refused by `addEvent`. It returns `0` then,
which `start` takes for a descriptor: `refused_stray`.

The workers share one error code. It is set before a worker gives up, and at no other
time: `errors_told`.

## Main definitions

* `Call.On`, `Call.Serving`, `Call.Fails`: Calls of a worker.
* `Worker.Serves`, `Worker.Closing`, `Worker.Gone`: How far a worker is.
* `Listener.held`: The descriptors somebody has to close.
* `Listener.Owned`: The invariant.

## Theorems

* `worker_step`: What a call of a worker may be.
* `refused_stray`: What becomes of a refusal.
* `workers_own`: Descriptors over whole runs.
* `errors_told`: The error code over whole runs.
-/

namespace Trpc

open Vsjson Interaction Transition Holding

variable {D : Type}

/-! ## What a worker calls -/

/-- The call is about no descriptor but `fd`. -/
def Call.On (fd : Int) : Call D → Prop
  | .poll fd' _ _ => fd' = fd
  | .read fd' _ _ => fd' = fd
  | .write fd' _ => fd' = fd
  | .sysRead fd' _ => fd' = fd
  | .close fd' => fd' = fd
  | _ => True

/-- What a worker calls while it serves `peer`. -/
def Call.Serving (peer : Int) : Call D → Prop
  | .poll fd _ _ => fd = peer
  | .read fd _ _ => fd = peer
  | .write fd _ => fd = peer
  | .sysRead _ _ => False
  | .close _ => False
  | .setErrno _ => False
  | _ => True

/-- An error code is left. -/
def Call.Fails : Call D → Prop
  | .setErrno e => e ≠ 0
  | _ => False

/-- The loop is left without an error code: by an exception, or outside defined
    behaviour. -/
def Exit.Untold (exit : Exit) : Prop := exit ≠ .broke

/-- The loop is left behind an error code. -/
def Exit.Told (exit : Exit) : Prop := exit = .broke ∨ ∃ f, exit = .fault f

/-- What a worker calls while it serves is about its own descriptor. -/
theorem Call.Serving.on (peer : Int) (c : Call D) (h : c.Serving peer) : c.On peer := by
  cases c with
  | sysRead fd n => exact h.elim
  | close fd => exact h.elim
  | poll fd event timeout => exact h
  | read fd off n => exact h
  | write fd data => exact h
  | _ => exact trivial

/-- What is asked of the application is about no descriptor. -/
theorem Call.App.serving (peer : Int) (c : Call D) (h : c.App) : c.Serving peer := by
  cases c with
  | requestCallback j => exact trivial
  | responseCallback j => exact trivial
  | invoke method sig args => exact trivial
  | netCall method args => exact trivial
  | _ => exact h.elim

theorem Call.Fails.on (peer : Int) (c : Call D) (h : c.Fails) : c.On peer := by
  cases c with
  | setErrno e => exact trivial
  | _ => exact h.elim

namespace Server

variable (s : Server) (peer : Int)

/-- A transfer tells that it has failed. -/
theorem conclude_signals (size : Nat) (x : Transfer) :
    (conclude (D := D) size x).Signals (Call.Serving peer) Call.Fails
      (fun b => b = true) (fun b => b = false) := by
  unfold conclude
  split
  · exact rfl
  · exact Or.inr ⟨Client.lastErrno_ne_zero x, fun _ => ⟨false, rfl, rfl⟩⟩

/-- A read that brings all its bytes has set no code, and one that does not has set it last. -/
theorem bestEffortRead_signals (phase : Phase) (base size : Nat) :
    (s.bestEffortRead (D := D) peer phase base size).Signals (Call.Serving peer) Call.Fails
      (fun x => x.1 = true) (fun x => x.1 = false) := by
  simp only [bestEffortRead, Trpc.bestEffortRead, Prog.bind_def]
  refine signals_only_bind _ _ _ _ (bestEffortTemplate_only
    (coRead_only base (fun _ _ => rfl)) trivial _ _ rfl trivial) (fun x => ?_)
  refine signals_only_bind _ _ _ _ (only_perform _ trivial) (fun _ => ?_)
  -- Only the verdict decides; the number of bytes goes along.
  exact signals_bind _ _ _ _ _ _ (conclude_signals peer size x) (fun b hb => hb)
    (fun b hb => ⟨(b, x.moved), rfl, hb⟩)

/-- The same for a write. -/
theorem bestEffortWrite_signals (phase : Phase) (data : Str) (size : Nat) :
    (s.bestEffortWrite (D := D) peer phase data size).Signals (Call.Serving peer) Call.Fails
      (fun b => b = true) (fun b => b = false) := by
  simp only [bestEffortWrite, Trpc.bestEffortWrite, Prog.bind_def]
  refine signals_only_bind _ _ _ _ (bestEffortTemplate_only
    (coWrite_only data (fun _ => rfl)) trivial _ _ rfl trivial) (fun x => ?_)
  exact signals_only_bind _ _ _ _ (only_perform _ trivial)
    (fun _ => conclude_signals peer size x)

/-- And for the wait for the next frame, which reads nothing. -/
theorem bestEffortPending_signals :
    (s.bestEffortPending (D := D) peer).Signals (Call.Serving peer) Call.Fails
      (fun b => b = true) (fun b => b = false) := by
  simp only [bestEffortPending, Prog.bind_def]
  have hfirst : ∀ off n, (firstByte (D := D) off n).Only (Call.Serving peer) :=
    fun _ _ => trivial
  exact signals_only_bind _ _ _ _ (bestEffortTemplate_only hfirst trivial _ _ rfl trivial)
    (fun x => conclude_signals peer 1 x)

theorem proto_ne_zero : Errno.EPROTO ≠ 0 := by decide

/-- The content of a frame: a length out of bounds and an empty one are given up behind a
    code. -/
theorem receiveContent_signals (buf : Str) :
    (s.receiveContent (D := D) peer buf).Signals (Call.Serving peer) Call.Fails
      (fun r => ∀ exit, r = .error exit → exit.Untold)
      (fun r => ∃ exit, r = .error exit ∧ exit.Told) := by
  simp only [receiveContent, Prog.bind_def, Prog.pure_def]
  split
  · -- The length is more than the buffer holds.
    exact Or.inr ⟨proto_ne_zero, fun _ => ⟨_, rfl, .broke, rfl, Or.inl rfl⟩⟩
  refine signals_bind _ _ _ _ _ _ (bestEffortRead_signals s peer _ _ _) (fun x hx => ?_)
    (fun x hx => ?_)
  · simp only [hx]
    split
    · intro exit h
      cases h
      exact fun h => (by cases h)
    split
    · -- A read that has succeeded is not told to have failed.
      rename_i h
      exact absurd h (by decide)
    split
    · exact Or.inr ⟨proto_ne_zero, fun _ => ⟨_, rfl, .broke, rfl, Or.inl rfl⟩⟩
    · exact fun exit h => (by cases h)
  · -- The bytes go to the buffer even if there are too few of them.
    simp only [hx]
    split
    · exact ⟨_, rfl, .fault .overflow, rfl, Or.inr ⟨_, rfl⟩⟩
    · exact ⟨_, rfl, .broke, rfl, Or.inl rfl⟩

/-- The wait, the header and the content, one behind the other. -/
theorem receive_signals (buf : Str) :
    (s.receive (D := D) peer buf).Signals (Call.Serving peer) Call.Fails
      (fun r => ∀ exit, r = .error exit → exit.Untold)
      (fun r => ∃ exit, r = .error exit ∧ exit.Told) := by
  simp only [receive, Prog.bind_def, Prog.pure_def]
  refine signals_bind _ _ _ _ _ _ (bestEffortPending_signals s peer) (fun b hb => ?_)
    (fun b hb => ?_)
  · simp only [hb]
    refine signals_bind _ _ _ _ _ _ (bestEffortRead_signals s peer _ _ _) (fun x hx => ?_)
      (fun x hx => ?_)
    · simp only [hx]
      split
      · intro exit h
        cases h
        exact fun h => (by cases h)
      · exact receiveContent_signals s peer _
    · simp only [hx]
      split
      · exact ⟨_, rfl, .fault .overflow, rfl, Or.inr ⟨_, rfl⟩⟩
      · exact ⟨_, rfl, .broke, rfl, Or.inl rfl⟩
  · simp only [hb]
    exact ⟨_, rfl, .broke, rfl, Or.inl rfl⟩

/-- The two writes of a response. -/
theorem wire_signals [DecimalImpl D] (response : Json D) :
    (s.wire peer response).Signals (Call.Serving peer) Call.Fails
      (fun r => ∀ exit, r = some exit → exit.Untold)
      (fun r => ∃ exit, r = some exit ∧ exit.Told) := by
  unfold wire
  refine signals_bind _ _ _ _ _ _ (bestEffortWrite_signals s peer _ _ _) (fun b hb => ?_)
    (fun b hb => ?_)
  · simp only [hb]
    refine signals_bind _ _ _ _ _ _ (bestEffortWrite_signals s peer _ _ _) (fun b hb => ?_)
      (fun b hb => ?_)
    · simp only [hb]
      exact fun exit h => (by cases h)
    · simp only [hb]
      exact ⟨_, rfl, .broke, rfl, Or.inl rfl⟩
  · simp only [hb]
    exact ⟨_, rfl, .broke, rfl, Or.inl rfl⟩

/-- An exit by an exception or a fault. -/
theorem untold_some (exit : Exit) (h : exit ≠ .broke) (exit' : Exit)
    (heq : some exit = some exit') : exit'.Untold := by
  cases heq
  exact h

/-- The application leaves no error code. -/
theorem answer_signals [DecimalImpl D] (request : Json D) :
    (s.answer peer request).Signals (Call.Serving peer) Call.Fails
      (fun r => ∀ exit, r = some exit → exit.Untold)
      (fun r => ∃ exit, r = some exit ∧ exit.Told) := by
  rw [answer_answering]
  refine signals_only_bind _ _ _ _
    (only_mono (Call.App.serving peer) _ (answering_app s request)) (fun x => ?_)
  rcases x with (_ | response) | e | f
  · exact fun exit h => (by cases h)
  · exact wire_signals s peer response
  · exact untold_some _ (fun h => (by cases h))
  · exact untold_some _ (fun h => (by cases h))

/-- A turn either leaves a code and the loop, or it does neither. -/
theorem turn_signals [DecimalImpl D] (buf : Str) :
    (s.turn (D := D) peer buf).Signals (Call.Serving peer) Call.Fails
      (fun r => ∀ exit, r = .inr exit → exit.Untold)
      (fun r => ∃ exit, r = .inr exit ∧ exit.Told) := by
  simp only [turn, Prog.bind_def, Prog.pure_def]
  refine signals_bind _ _ _ _ _ _ (receive_signals s peer buf) (fun r hr => ?_) (fun r hr => ?_)
  · rcases r with exit | ⟨buf, n⟩
    · -- Without a code the turn can have ended by a fault only.
      exact fun exit' h => hr exit' (congrArg Except.error (Sum.inr.inj h))
    · refine signals_bind _ (fun r => ∃ exit, r = some exit ∧ exit.Told) _ _ _ _
        (?_ : (s.handle peer buf n).Signals _ _ (fun r => ∀ exit, r = some exit → exit.Untold) _)
        (fun r hr => ?_) (fun r hr => ?_)
      · unfold handle
        split
        · exact untold_some _ (fun h => (by cases h))
        · exact untold_some _ (fun h => (by cases h))
        · exact answer_signals s peer _
      · rcases r with _ | exit
        · exact fun exit h => (by cases h)
        · exact fun exit' h => hr exit' (congrArg some (Sum.inr.inj h))
      · rcases hr with ⟨exit, rfl, htold⟩
        exact ⟨_, rfl, exit, rfl, htold⟩
  · rcases hr with ⟨exit, rfl, htold⟩
    exact ⟨_, rfl, exit, rfl, htold⟩

/-- And so do all turns up to the last. -/
theorem onAccept_signals [DecimalImpl D] (n : Nat) :
    (s.onAccept (D := D) peer n).Signals (Call.Serving peer) Call.Fails
      (fun r => ∀ exit, r = .inr exit → exit.Untold)
      (fun r => ∃ exit, r = .inr exit ∧ exit.Told) := by
  simp only [onAccept, Prog.bind_def]
  exact signals_only_bind _ _ _ _ (only_perform _ trivial)
    (fun buf => signals_loop _ _ _ _ _ (turn_signals s peer) n buf.1)

end Server

namespace Worker

/-- What the coroutine does behind `onAccept`. -/
def finish (peer : Int) (r : Str ⊕ Exit) : Proc D (Str ⊕ Exit) :=
  match r with
  | .inr .broke => (sysClose peer).bind fun _ => .ret r
  | _ => .ret r

/-- Behind an exception nothing is done. -/
theorem finish_untold (peer : Int) (r : Str ⊕ Exit) (h : ∀ exit, r = .inr exit → exit.Untold) :
    finish (D := D) peer r = .ret r := by
  unfold finish
  split
  · exact absurd rfl (h .broke rfl)
  · rfl

/-- The worker is in `onAccept`, or has left it by an exception. -/
def Serves (peer : Int) (left : Proc D (Str ⊕ Exit)) : Prop :=
  ∃ p : Proc D (Str ⊕ Exit), left = p.bind (finish peer) ∧
    p.Signals (Call.Serving peer) Call.Fails (fun r => ∀ exit, r = .inr exit → exit.Untold)
      (fun r => ∃ exit, r = .inr exit ∧ exit.Told)

/-- It is about to close its descriptor. -/
def Closing (peer : Int) (left : Proc D (Str ⊕ Exit)) : Prop := left = finish peer (.inr .broke)

/-- It has closed its descriptor. -/
def Gone (left : Proc D (Str ⊕ Exit)) : Prop := left = .ret (.inr .broke)

theorem worker_serves [DecimalImpl D] (s : Server) (peer : Int) (n : Nat) :
    Serves (D := D) peer (s.worker peer n) := ⟨_, rfl, s.onAccept_signals peer n⟩

/-- Before the descriptor is closed it has not been. -/
theorem serves_not_gone (peer : Int) (left : Proc D (Str ⊕ Exit)) (h : Serves peer left) :
    ¬ Gone left := by
  intro hgone
  rcases h with ⟨p, hp, hsignals⟩
  rw [hp] at hgone
  cases p with
  | call c k => cases hgone
  -- The loop is over without a code, so not by the exit that closes.
  | ret a =>
      unfold Gone at hgone
      rw [Prog.ret_bind, finish_untold peer a hsignals] at hgone
      cases hgone
      exact hsignals .broke rfl rfl

/-- A close that lies ahead has not been made. -/
theorem closing_not_gone (peer : Int) (left : Proc D (Str ⊕ Exit)) (h : Closing peer left) :
    ¬ Gone left := by
  intro hgone
  rw [Closing] at h
  rw [h] at hgone
  cases hgone

/-- What a call of a worker may be: it goes on serving, it leaves an error code before it
    closes its descriptor, or it closes that. -/
theorem worker_step (peer : Int) (left : Proc D (Str ⊕ Exit)) (c : Call D)
    (k : Reply D c → Proc D (Str ⊕ Exit)) (r : Reply D c) (hleft : left = .call c k)
    (hlive : ∀ exit, k r = .ret (.inr exit) → exit = .broke)
    (h : Serves peer left ∨ Closing peer left ∨ Gone left) :
    (c.Serving peer ∧ Serves peer left ∧ Serves peer (k r)) ∨
      (c.Fails ∧ Serves peer left ∧ Closing peer (k r)) ∨
        (c = .close peer ∧ Closing peer left ∧ Gone (k r)) := by
  subst hleft
  rcases h with h | h | h
  · -- In the loop the next call is either one of serving, or the code.
    rcases h with ⟨p, hp, hsignals⟩
    cases p with
    | ret a =>
        rw [Prog.ret_bind, finish_untold peer a hsignals] at hp
        cases hp
    | call c' k' =>
        cases hp
        have hserves : Serves peer ((Prog.call c k').bind (finish peer)) := ⟨_, rfl, hsignals⟩
        rcases hsignals with ⟨hc, hk⟩ | ⟨hc, hk⟩
        · exact Or.inl ⟨hc, hserves, _, rfl, hk r⟩
        · -- Behind the error code nothing is left but to close.
          rcases hk r with ⟨a, ha, exit, rfl, hexit⟩
          simp only [ha] at hlive
          rcases hexit with rfl | ⟨f, rfl⟩
          · exact Or.inr (Or.inl ⟨hc, hserves, by simp only [ha]; rfl⟩)
          · exact absurd (hlive (.fault f) rfl) (fun h => (by cases h))
  · -- Behind the loop it is the close.
    have hclosing := h
    cases h
    exact Or.inr (Or.inr ⟨rfl, hclosing, rfl⟩)
  · cases h

end Worker

/-! ## What a worker holds and has done -/

namespace Worker

/-- The descriptor that a worker has to close. -/
def holds (w : Worker D) : Option Int :=
  match w.left with
  | .ret (.inr .broke) => none
  | _ => some w.peer

theorem holds_gone (w : Worker D) (h : Gone w.left) : w.holds = none := by
  unfold holds
  rw [h]

/-- Any other holds its own. -/
theorem holds_not_gone (w : Worker D) (h : ¬ Gone w.left) : w.holds = some w.peer := by
  unfold holds
  split
  · rename_i hleft
    exact absurd hleft h
  · rfl

/-- A worker has called nothing on other descriptors than its own, and has closed that
    once if it has left its loop and does not hold it any more. -/
structure Sound (w : Worker D) : Prop where
  stage : Serves w.peer w.left ∨ Closing w.peer w.left ∨ Gone w.left
  own : ∀ e ∈ w.done, e.1.On w.peer
  shut : w.holds = some w.peer ∧ closed w.done = [] ∨
    w.holds = none ∧ closed w.done = [w.peer]

/-- `start` makes sound workers. -/
theorem sound_new [DecimalImpl D] (s : Server) (peer : Int) (n : Nat) :
    Sound (⟨peer, [], s.worker peer n⟩ : Worker D) := by
  have hserves := worker_serves (D := D) s peer n
  exact ⟨Or.inl hserves, fun e he => absurd he List.not_mem_nil,
    Or.inl ⟨holds_not_gone _ (serves_not_gone peer _ hserves), rfl⟩⟩

/-- What has not left its loop, or not closed its descriptor, has closed nothing. -/
theorem Sound.open (w : Worker D) (h : Sound w) (hgone : ¬ Gone w.left) : closed w.done = [] := by
  rcases h.shut with ⟨_, hclosed⟩ | ⟨hholds, _⟩
  · exact hclosed
  · rw [holds_not_gone w hgone] at hholds
    cases hholds

/-- A call that is not `::close` closes nothing. -/
theorem closed_serving (peer : Int) (c : Call D) (r : Reply D c)
    (h : c.Serving peer ∨ c.Fails) : closed ([⟨c, r⟩] : Trace D) = [] := by
  cases c with
  | close fd => rcases h with h | h <;> exact h.elim
  | _ => rfl

/-- A sound worker after its next call, which is about its own descriptor. -/
theorem Sound.step (w : Worker D) (c : Call D) (k : Reply D c → Proc D (Str ⊕ Exit))
    (r : Reply D c) (h : Sound w) (hleft : w.left = .call c k)
    (hlive : ∀ exit, k r = .ret (.inr exit) → exit = .broke) :
    Sound ⟨w.peer, w.done ++ [⟨c, r⟩], k r⟩ := by
  have hgone : ¬ Gone w.left := by
    rw [hleft]
    exact fun h => (by cases h)
  have hclosed := h.open w hgone
  have hcalls : ∀ (_ : c.On w.peer), ∀ e ∈ w.done ++ [⟨c, r⟩], e.1.On w.peer := by
    intro hon e he
    rcases List.mem_append.mp he with he | he
    · exact h.own e he
    · rw [List.mem_singleton.mp he]
      exact hon
  rcases worker_step w.peer w.left c k r hleft hlive h.stage with
    ⟨hc, _, hnext⟩ | ⟨hc, _, hnext⟩ | ⟨rfl, _, hnext⟩
  · refine ⟨Or.inl hnext, hcalls (hc.on _), Or.inl ⟨holds_not_gone _ ?_, ?_⟩⟩
    · exact serves_not_gone _ _ hnext
    · rw [closed_append, hclosed, closed_serving w.peer c r (Or.inl hc), List.nil_append]
  · refine ⟨Or.inr (Or.inl hnext), hcalls (hc.on _), Or.inl ⟨holds_not_gone _ ?_, ?_⟩⟩
    · exact closing_not_gone _ _ hnext
    · rw [closed_append, hclosed, closed_serving w.peer c r (Or.inr hc), List.nil_append]
  · -- The close takes the descriptor from the worker, and is its only one.
    refine ⟨Or.inr (Or.inr hnext), hcalls rfl, Or.inr ⟨holds_gone _ hnext, ?_⟩⟩
    rw [closed_append, hclosed, List.nil_append]
    rfl

end Worker

/-! ## What `co::accept4` brings -/

/-- What is left of `co::accept4` brings nothing but what `::accept4` has just returned,
    as long as `addEvent` does not refuse. If that refuses, it brings `0`. -/
def Grants : Co.Proc Int → Prop
  | .ret _ => False
  | .call (.accept4 _) k => ∀ ret : Int, k ret = .ret ret ∨ ret < 0 ∧ Grants (k ret)
  | .call (.addEvent _ _ _) k => k false = .ret (0 : Int) ∧ Grants (k true)
  | .call _ k => ∀ r, Grants (k r)

/-- `co::accept4`, call by call. -/
theorem accept4_eq (fd : Int) : Co.accept4 fd = .call (.accept4 fd) fun ret : Int =>
    if ret ≥ 0 then .ret ret
    else .call (.addEvent .accept4 fd .read) fun iter : Bool =>
      if iter then .call (.yield fd .read) fun _ => .call (.accept4 fd) .ret
      else .ret 0 := rfl

/-- It brings what `::accept4` has returned last. -/
theorem accept4_grants (fd : Int) : Grants (Co.accept4 fd) := by
  rw [accept4_eq]
  intro ret
  by_cases hret : 0 ≤ ret
  · exact Or.inl (if_pos hret)
  · simp only [ge_iff_le, if_neg hret]
    -- It waits once, and what the second `::accept4` returns is the result.
    exact Or.inr ⟨by omega, rfl, fun _ ret' => Or.inl rfl⟩

/-! ## The invariants -/

namespace Listener

def Sound (x : Listener D) : Prop := ∀ w ∈ x.workers, w.Sound

/-- The descriptors that somebody has to close: the workers' own, the one of the object,
    and those of the rest of the process. -/
def held (x : Listener D) : List Int :=
  x.workers.filterMap Worker.holds ++
    ((if x._fd = socketInvalid then [] else [x._fd]) ++ x.others)

structure Owned (x : Listener D) : Prop where
  ledger : Ledger x.opens x.closes x.held
  grants : ∀ left, x.stage = .accepting left → Grants left

/-- If `addEvent` is asked for an entry, it does not refuse. -/
def Admitted (_ : Listener D) : Act D → Prop
  | .asks ⟨.addEvent _ _ _, r⟩ => r = true
  | _ => True

theorem answered_workers (x : Listener D) (e : Event Co.Call Co.Reply) :
    (x.answered e).workers = x.workers := by
  unfold answered
  split <;> rfl

section Proceed

variable [DecimalImpl D] (s : Server) (n : Nat) (x : Listener D)

theorem proceed_failed (ret : Int) (h : ret < 0) :
    x.proceed s n (.ret ret) = { x with stage := .looping } := if_pos h

/-- With one it makes a worker. -/
theorem proceed_accepted (ret : Int) (h : ¬ ret < 0) :
    x.proceed s n (.ret ret) =
      { x with
        stage := .looping
        workers := x.workers ++ [⟨ret, [], s.worker ret n⟩] } := if_neg h

/-- What is left of `co::accept4` is gone on with. -/
theorem proceed_grants (left : Co.Proc Int) (h : Grants left) :
    x.proceed s n left = { x with stage := .accepting left } := by
  cases left with
  | ret a => exact h.elim
  | call c k => rfl

/-- Workers are not touched by `start`. -/
theorem proceed_sound (left : Co.Proc Int) (h : x.Sound) : (x.proceed s n left).Sound := by
  cases left with
  | call c k => exact h
  | ret ret =>
      by_cases hret : ret < 0
      · rw [proceed_failed s n x ret hret]
        exact h
      · rw [proceed_accepted s n x ret hret]
        intro w hw
        rcases List.mem_append.mp hw with hw | hw
        · exact h w hw
        · rw [List.mem_singleton.mp hw]
          exact Worker.sound_new s ret n

end Proceed

/-- One thing that happens keeps the workers sound. -/
theorem step_sound [DecimalImpl D] (s : Server) (x x' : Listener D) (a : Act D) (h : x.Sound)
    (hstep : Step s x a x') : x'.Sound := by
  cases hstep with
  | asks c k r n hstage hanswer =>
      refine proceed_sound s n _ _ ?_
      intro w hw
      rw [answered_workers] at hw
      exact h w hw
  | works before after w c k r hworkers hleft hlive =>
      intro w' hw'
      have hmem : ∀ v, v ∈ before ∨ v ∈ after → v ∈ x.workers := by
        intro v hv
        rw [hworkers, List.mem_append, List.mem_cons]
        exact hv.imp id Or.inr
      rcases List.mem_append.mp hw' with hw' | hw'
      · exact h w' (hmem w' (Or.inl hw'))
      -- The worker that made the call, and all the others.
      rcases List.mem_cons.mp hw' with rfl | hw'
      · exact (h w (by rw [hworkers]; exact List.mem_append_right _ List.mem_cons_self)).step
          w c k r hleft hlive
      · exact h w' (hmem w' (Or.inr hw'))
  | closes =>
      unfold close
      split <;> exact h
  | listenFails errno hstage herrno => exact h
  | listens hstage => exact h
  | enters hstage => exact h
  | errors => exact h
  | othersOpen fd hfree => exact h
  | othersClose fd hfd => exact h

/-- One worker among all that is held. -/
theorem held_worker (x : Listener D) (before after : List (Worker D)) (w : Worker D)
    (hworkers : x.workers = before ++ w :: after) :
    x.held.Perm (w.holds.toList ++ ({ x with workers := before ++ after } : Listener D).held) := by
  unfold held
  rw [hworkers, List.filterMap_append, List.filterMap_cons]
  cases hw : w.holds with
  | none => simp only [List.filterMap_append, Option.toList, List.nil_append, List.Perm.refl]
  | some fd =>
      simp only [List.filterMap_append, Option.toList, List.append_assoc,
        List.cons_append]
      exact List.perm_middle

/-- The calls of a worker that are not `::close` leave the descriptors alone. -/
theorem worked_keeps (x : Listener D) (peer : Int) (c : Call D) (r : Reply D c)
    (h : c.Serving peer ∨ c.Fails) : ∃ e, x.worked ⟨c, r⟩ = { x with _errno := e } := by
  cases c with
  | close fd => rcases h with h | h <;> exact h.elim
  | setErrno e => exact ⟨e, rfl⟩
  | _ => exact ⟨x._errno, rfl⟩

/-- A call of a worker keeps the accounts. It matters only if it closes the descriptor. -/
theorem works_owned (x : Listener D) (before after : List (Worker D)) (w : Worker D) (c : Call D)
    (k : Reply D c → Proc D (Str ⊕ Exit)) (r : Reply D c) (h : x.Owned) (hw : w.Sound)
    (hworkers : x.workers = before ++ w :: after) (hleft : w.left = .call c k)
    (hlive : ∀ exit, k r = .ret (.inr exit) → exit = .broke) :
    Owned { x.worked ⟨c, r⟩ with
      workers := before ++ ⟨w.peer, w.done ++ [⟨c, r⟩], k r⟩ :: after } := by
  have hgone : ¬ Worker.Gone w.left := by
    rw [hleft]
    exact fun h => (by cases h)
  have hbefore := held_worker x before after w hworkers
  rw [w.holds_not_gone hgone] at hbefore
  have hledger := ledger_perm h.ledger hbefore
  have hafter := held_worker { x.worked ⟨c, r⟩ with
    workers := before ++ ⟨w.peer, w.done ++ [⟨c, r⟩], k r⟩ :: after } before after _ rfl
  -- Whatever it calls, a worker that does not close its descriptor goes on holding it.
  have hkept : c.Serving w.peer ∨ c.Fails → ¬ Worker.Gone (k r) →
      Owned { x.worked ⟨c, r⟩ with
        workers := before ++ ⟨w.peer, w.done ++ [⟨c, r⟩], k r⟩ :: after } := by
    intro hc hnext
    rw [Worker.holds_not_gone _ hnext] at hafter
    rcases worked_keeps x w.peer c r hc with ⟨e, hsame⟩
    rw [hsame] at hafter ⊢
    exact ⟨ledger_perm hledger hafter.symm, h.grants⟩
  rcases Worker.worker_step w.peer w.left c k r hleft hlive hw.stage with
    ⟨hc, _, hnext⟩ | ⟨hc, _, hnext⟩ | ⟨rfl, _, hnext⟩
  · exact hkept (Or.inl hc) (Worker.serves_not_gone _ _ hnext)
  · exact hkept (Or.inr hc) (Worker.closing_not_gone _ _ hnext)
  · rw [Worker.holds_gone _ hnext] at hafter
    exact ⟨ledger_perm (ledger_close w.peer hledger) hafter.symm, h.grants⟩

/-- A call inside `co::accept4` keeps the accounts. -/
theorem asks_owned [DecimalImpl D] (s : Server) (n : Nat) (x : Listener D) (c : Co.Call)
    (k : Co.Reply c → Co.Proc Int) (r : Co.Reply c) (h : x.Owned)
    (hstage : x.stage = .accepting (.call c k)) (hanswer : x.MayAnswer ⟨c, r⟩)
    (hadmitted : x.Admitted (.asks ⟨c, r⟩)) :
    Owned ((x.answered ⟨c, r⟩).proceed s n (k r)) := by
  have hgrants := h.grants _ hstage
  -- As long as `co::accept4` goes on, nothing has been opened.
  have hon : accepted ⟨c, r⟩ = none → Grants (k r) →
      Owned ((x.answered ⟨c, r⟩).proceed s n (k r)) := by
    intro hnone hnext
    rw [proceed_grants s n _ _ hnext]
    unfold answered
    rw [hnone]
    exact ⟨h.ledger, fun left hleft => by cases hleft; exact hnext⟩
  cases c with
  | accept4 fd =>
      change Int at r
      by_cases hr : r < 0
      · have hnone : accepted ⟨.accept4 fd, r⟩ = none := if_pos hr
        rcases hgrants r with hret | ⟨_, hnext⟩
        · unfold answered
          rw [hret, hnone, proceed_failed s n _ r hr]
          exact ⟨h.ledger, fun left hleft => by cases hleft⟩
        · exact hon hnone hnext
      · have hsome : accepted ⟨.accept4 fd, r⟩ = some r := if_neg hr
        rcases hgrants r with hret | ⟨hneg, _⟩
        · -- The descriptor that was free goes to the new worker.
          have hfree := hanswer r hsome
          unfold answered
          rw [hret, hsome, proceed_accepted s n _ r hr]
          refine ⟨ledger_perm (ledger_open h.ledger r hfree.2) ?_,
            fun left hleft => by cases hleft⟩
          have hheld := held_worker
            { x.opened r with
              stage := .looping
              workers := x.workers ++ [⟨r, [], s.worker r n⟩] } x.workers [] _ rfl
          rw [Worker.holds_not_gone _ (Worker.serves_not_gone _ _ (Worker.worker_serves s r n)),
            List.append_nil] at hheld
          exact hheld.symm
        · exact absurd hneg hr
  | addEvent caller fd type =>
      have hr : r = true := hadmitted
      -- It is not refused, by assumption.
      subst hr
      exact hon rfl hgrants.2
  | _ => exact hon rfl (hgrants r)

/-- One thing that happens keeps the accounts, unless `addEvent` refuses. -/
theorem step_owned [DecimalImpl D] (s : Server) (x x' : Listener D) (a : Act D) (hsound : x.Sound)
    (h : x.Owned) (hstep : Step s x a x') (hadmitted : x.Admitted a) : x'.Owned := by
  cases hstep with
  | listenFails errno hstage herrno => exact ⟨h.ledger, h.grants⟩
  | listens hstage => exact ⟨h.ledger, fun left hleft => by cases hleft⟩
  | enters hstage =>
      refine ⟨h.ledger, fun left hleft => ?_⟩
      cases hleft
      exact accept4_grants x._fd
  | asks c k r n hstage hanswer => exact asks_owned s n x c k r h hstage hanswer hadmitted
  | works before after w c k r hworkers hleft hlive =>
      refine works_owned x before after w c k r h (hsound w ?_) hworkers hleft hlive
      rw [hworkers]
      exact List.mem_append_right _ List.mem_cons_self
  | closes =>
      unfold close
      split
      · rename_i hfd
        -- The descriptor of the object leaves the list of what is held.
        refine ⟨ledger_close x._fd (ledger_perm h.ledger ?_), h.grants⟩
        simp only [held, if_neg hfd, if_true]
        exact List.perm_middle
      · exact h
  | errors => exact ⟨h.ledger, h.grants⟩
  | othersOpen fd hfree =>
      -- What others do only concerns their part of it.
      refine ⟨ledger_perm (ledger_open h.ledger fd hfree.2) ?_, h.grants⟩
      simp only [held, opened, ← List.append_assoc]
      exact List.perm_middle.symm
  | othersClose fd hfd =>
      refine ⟨ledger_close fd (ledger_perm h.ledger ?_), h.grants⟩
      simp only [held, shut, ← List.append_assoc]
      exact ((List.perm_cons_erase hfd).append_left _).trans List.perm_middle

/-- Where `addEvent` refuses, `start` makes a worker for descriptor `0`, which nobody has
    opened for it. -/
theorem refused_stray [DecimalImpl D] (s : Server) (x x' : Listener D) (caller : Co.Api)
    (fd : Int) (type : Co.EventType) (h : x.Owned)
    (hstep : Step s x (.asks ⟨.addEvent caller fd type, false⟩) x') :
    (∃ n, x'.workers = x.workers ++ [⟨0, [], s.worker 0 n⟩]) ∧ ¬ x'.Owned := by
  cases hstep with
  | asks _ k _ n hstage hanswer =>
      have hret : k false = .ret (0 : Int) := (h.grants _ hstage).1
      have hstate : (x.answered ⟨.addEvent caller fd type, false⟩).proceed s n (k false) =
          { x with
            stage := .looping
            workers := x.workers ++ [⟨0, [], s.worker 0 n⟩] } := by
        rw [hret]
        exact proceed_accepted s n x 0 (lt_irrefl 0)
      rw [hstate]
      refine ⟨⟨n, rfl⟩, fun howned => ?_⟩
      -- It is one more to close, and as many are open as before.
      have hheld := held_worker { x with
        stage := .looping
        workers := x.workers ++ [⟨0, [], s.worker 0 n⟩] } x.workers [] _ rfl
      rw [Worker.holds_not_gone _ (Worker.serves_not_gone _ _ (Worker.worker_serves s 0 n)),
        List.append_nil] at hheld
      have hcount : List.count 0 (0 :: x.held) = x.held.count 0 + 1 := List.count_cons_self
      have hbefore := h.ledger.balance 0
      have hafter : x.opens 0 = x.closes 0 + List.count 0 (0 :: x.held) :=
        (ledger_perm howned.ledger hheld).balance 0
      omega

/-! ## Whole runs -/

/-- The descriptor that has come by this act, if any. -/
def Act.accepted : Act D → Option Int
  | .asks e => Listener.accepted e
  | _ => none

/-- Every descriptor accepted gets a worker, and there are no others. -/
theorem step_workers [DecimalImpl D] (s : Server) (x x' : Listener D) (a : Act D) (h : x.Owned)
    (hstep : Step s x a x') (hadmitted : x.Admitted a) :
    x'.workers.map Worker.peer = x.workers.map Worker.peer ++ a.accepted.toList := by
  cases hstep with
  | asks c k r n hstage hanswer =>
      have hgrants := h.grants _ hstage
      have hon : accepted ⟨c, r⟩ = none → Grants (k r) →
          ((x.answered ⟨c, r⟩).proceed s n (k r)).workers.map Worker.peer =
            x.workers.map Worker.peer ++ (accepted ⟨c, r⟩).toList := by
        intro hnone hnext
        rw [proceed_grants s n _ _ hnext, hnone, Option.toList_none, List.append_nil]
        exact congrArg _ (answered_workers x _)
      cases c with
      | accept4 fd =>
          change Int at r
          by_cases hr : r < 0
          · have hnone : accepted ⟨.accept4 fd, r⟩ = none := if_pos hr
            rcases hgrants r with hret | ⟨_, hnext⟩
            · rw [hret, proceed_failed s n _ r hr, answered_workers]
              simp only [Act.accepted, hnone, Option.toList_none, List.append_nil]
            · exact hon hnone hnext
          · have hsome : accepted ⟨.accept4 fd, r⟩ = some r := if_neg hr
            rcases hgrants r with hret | ⟨hneg, _⟩
            · rw [hret, proceed_accepted s n _ r hr, answered_workers]
              simp only [Act.accepted, hsome, Option.toList_some, List.map_append, List.map_cons,
                List.map_nil]
            · exact absurd hneg hr
      | addEvent caller fd type =>
          have hr : r = true := hadmitted
          subst hr
          exact hon rfl hgrants.2
      | _ => exact hon rfl (hgrants r)
  -- A worker keeps its descriptor for good, in its record at least.
  | works before after w c k r hworkers hleft hlive =>
      rw [hworkers]
      simp only [List.map_append, List.map_cons, Act.accepted, Option.toList_none, List.append_nil]
  | closes =>
      unfold close
      split <;> exact (List.append_nil _).symm
  | listenFails errno hstage herrno => exact (List.append_nil _).symm
  | listens hstage => exact (List.append_nil _).symm
  | enters hstage => exact (List.append_nil _).symm
  | errors => exact (List.append_nil _).symm
  | othersOpen fd hfree => exact (List.append_nil _).symm
  | othersClose fd hfd => exact (List.append_nil _).symm

/-- At first the object and the rest of the process hold what is open. -/
theorem initial_owned (fd : Int) (others : List Int) (hfd : fd = socketInvalid ∨ fd ∉ others)
    (hothers : others.Nodup) : Owned (initial fd others : Listener D) := by
  have hledger : Ledger (fun d => others.count d +
      (if fd = socketInvalid then [] else [fd]).count d) (fun _ => 0)
      ((if fd = socketInvalid then [] else [fd]) ++ others) := by
    by_cases hne : fd = socketInvalid
    · rw [if_pos hne]
      exact ⟨hothers, fun d => by rw [List.nil_append, List.count_nil]; omega⟩
    · rw [if_neg hne]
      refine ⟨?_, fun d => by rw [List.count_append]; omega⟩
      rw [List.singleton_append, List.nodup_cons]
      exact ⟨hfd.resolve_left hne, hothers⟩
  exact ⟨hledger, fun left h => (by cases h)⟩

/-- In every run in which `co::accept4` is not refused, the workers are those for the
    descriptors accepted, in this order; what is open is what a worker, the object, or the
    rest of the process has still to close, each held by one of them only; and a worker
    has called nothing on other descriptors than its own, and has closed that once if it
    does not hold it any more. -/
theorem workers_own [DecimalImpl D] (s : Server) (fd : Int) (others : List Int)
    (hfd : fd = socketInvalid ∨ fd ∉ others) (hothers : others.Nodup) (acts : List (Act D))
    (x : Listener D) (hrun : Steps (Guarded (Step s) Admitted) (initial fd others) acts x) :
    x.workers.map Worker.peer = acts.filterMap Act.accepted ∧
      Ledger x.opens x.closes x.held ∧
      ∀ w ∈ x.workers, (∀ e ∈ w.done, e.1.On w.peer) ∧
        (w.holds = some w.peer ∧ closed w.done = [] ∨
          w.holds = none ∧ closed w.done = [w.peer]) := by
  have hall := steps_history
    (fun acts (x : Listener D) => (x.Sound ∧ x.Owned) ∧
      x.workers.map Worker.peer = acts.filterMap Act.accepted)
    (initial fd others)
    ⟨⟨fun w hw => absurd hw List.not_mem_nil, initial_owned fd others hfd hothers⟩, rfl⟩
    (fun acts x a x' _ h hstep => ?_) acts x hrun
  · exact ⟨hall.2, hall.1.2.ledger, fun w hw => ⟨(hall.1.1 w hw).own, (hall.1.1 w hw).shut⟩⟩
  · -- One more step, which may bring one more worker.
    rcases h with ⟨⟨hsound, howned⟩, hpeers⟩
    refine ⟨⟨step_sound s x x' a hsound hstep.1,
      step_owned s x x' a hsound howned hstep.1 hstep.2⟩, ?_⟩
    rw [step_workers s x x' a howned hstep.1 hstep.2, hpeers, List.filterMap_append]
    cases haccepted : a.accepted with
    | none => rw [List.filterMap_cons_none haccepted]; rfl
    | some d => rw [List.filterMap_cons_some haccepted]; rfl

/-- A server without functions accepts a connection, and waits for its first byte in
    vain. -/
theorem accepted_given_up : ∃ (acts : List (Act Unit)) (x : Listener Unit) (w : Worker Unit),
    Steps (Guarded (Step (bareServer fun _ => none)) Admitted) (initial 3 [0, 1, 2]) acts x ∧
      .errors ∉ acts ∧ x.workers = [w] ∧ w.peer = 4 ∧ Worker.Gone w.left := by
  have h0 : Steps (Guarded (Step (bareServer fun _ => none)) Admitted)
    (initial 3 [0, 1, 2] : Listener Unit) [] (initial 3 [0, 1, 2]) := Steps.refl _
  have h1 := steps_snoc _ _ _ _ _ h0 ⟨Step.listens _ rfl, trivial⟩
  have h2 := steps_snoc _ _ _ _ _ h1 ⟨Step.enters _ rfl, trivial⟩
  have h3 := steps_snoc _ _ _ _ _ h2 ⟨Step.asks _ (.accept4 3) _ (4 : Int) 1 rfl (fun fd h => by
    cases h
    exact ⟨by decide, by decide⟩), trivial⟩
  have h4 := steps_snoc _ _ _ _ _ h3 ⟨Step.works _ [] [] _ (.stack 16384) _
    ⟨List.replicate 16384 0, List.length_replicate⟩ rfl rfl (fun e h => by cases h), trivial⟩
  have h5 := steps_snoc _ _ _ _ _ h4 ⟨Step.works _ [] [] _ .tick _ (0 : Int) rfl rfl
    (fun e h => by cases h), trivial⟩
  -- The clock has passed `_pending`.
  have h6 := steps_snoc _ _ _ _ _ h5 ⟨Step.works _ [] [] _ .tick _ (1000000001 : Int) rfl rfl
    (fun e h => by cases h), trivial⟩
  have h7 := steps_snoc _ _ _ _ _ h6 ⟨Step.works _ [] [] _ (.setErrno Errno.ETIMEDOUT) _ () rfl rfl
    (fun e h => by cases h), trivial⟩
  have h8 := steps_snoc _ _ _ _ _ h7 ⟨Step.works _ [] [] _ (.close 4) _ () rfl rfl
    (fun e h => by cases h; rfl), trivial⟩
  refine ⟨_, _, _, h8, ?_, rfl, rfl, rfl⟩
  simp only [List.nil_append, List.cons_append, List.mem_cons, List.not_mem_nil, reduceCtorEq,
    or_self, not_false_eq_true]

/-- One worker, which gives up and closes its descriptor. -/
theorem workers_own_given_up : ∃ (acts : List (Act Unit)) (x : Listener Unit) (w : Worker Unit),
    Steps (Guarded (Step (bareServer fun _ => none)) Admitted) (initial 3 [0, 1, 2]) acts x ∧
      x.workers = [w] ∧ acts.filterMap Act.accepted = [4] ∧ closed w.done = [4] ∧
      Ledger x.opens x.closes x.held := by
  rcases accepted_given_up with ⟨acts, x, w, hrun, _, hworkers, hpeer, hgone⟩
  rcases workers_own (bareServer fun _ => none) 3 [0, 1, 2] (Or.inr (by decide)) (by decide) acts x
    hrun with ⟨hpeers, hledger, hall⟩
  rw [hworkers] at hpeers
  refine ⟨acts, x, w, hrun, hworkers, ?_, ?_, hledger⟩
  · rw [← hpeers, ← hpeer]
    rfl
  · rcases (hall w (by rw [hworkers]; exact List.mem_cons_self)).2 with ⟨h, _⟩ | ⟨_, h⟩
    · rw [Worker.holds_gone w hgone] at h
      cases h
    · rw [h, hpeer]

end Listener

/-! ## The error code -/

namespace Worker

/-- The worker has left its loop: it is about to close its descriptor, or has closed it. -/
def leaves (w : Worker D) : Bool :=
  match w.left with
  | .ret (.inr .broke) => true
  | .call (.close _) _ => true
  | _ => false

/-- A worker that serves has not left its loop. -/
theorem leaves_serves (w : Worker D) (h : Serves w.peer w.left) : w.leaves = false := by
  have hgone := serves_not_gone w.peer w.left h
  rcases h with ⟨p, hp, hsignals⟩
  unfold leaves
  split
  · rename_i hleft
    exact absurd hleft hgone
  · rename_i fd k hleft
    -- Neither a call of the loop nor the error code is a `::close`.
    cases p with
    | ret a =>
        rw [Prog.ret_bind, finish_untold w.peer a hsignals, hleft] at hp
        cases hp
    | call c k =>
        rw [hleft] at hp
        cases hp
        rcases hsignals with ⟨hc, _⟩ | ⟨hc, _⟩
        · exact hc.elim
        · exact hc.elim
  · rfl

theorem leaves_closing (w : Worker D) (h : Closing w.peer w.left) : w.leaves = true := by
  unfold leaves
  rw [h]
  rfl

theorem leaves_gone (w : Worker D) (h : Gone w.left) : w.leaves = true := by
  unfold leaves
  rw [h]

end Worker

namespace Listener

/-- How many connections have been given up. -/
def leavers (x : Listener D) : Nat := x.workers.countP Worker.leaves

/-- What an act may mean for the error code. -/
def Tells (x : Listener D) (a : Act D) (x' : Listener D) : Prop :=
  x.leavers ≤ x'.leavers ∧
    (x'._errno ≠ 0 ↔ x._errno ≠ 0 ∨ a = .listenFails ∨ x.leavers < x'.leavers)

/-- An act that changes neither the code nor the number of those who have left. -/
theorem tells_nothing (x x' : Listener D) (a : Act D) (ha : a ≠ .listenFails)
    (hleavers : x'.leavers = x.leavers) (herrno : x'._errno = x._errno) : x.Tells a x' := by
  refine ⟨by omega, ?_⟩
  rw [herrno, hleavers]
  refine ⟨Or.inl, fun h => ?_⟩
  rcases h with h | h | h
  · exact h
  · exact absurd h ha
  · exact absurd h (lt_irrefl _)

/-- The number is that of the others, and the one worker looked at. -/
theorem leavers_works (x : Listener D) (before after : List (Worker D)) (w : Worker D)
    (hworkers : x.workers = before ++ w :: after) :
    x.leavers = before.countP Worker.leaves + after.countP Worker.leaves +
      (if w.leaves then 1 else 0) := by
  rw [leavers, hworkers, List.countP_append, List.countP_cons]
  omega

/-- A call of a worker sets the code exactly when the worker leaves its loop by it. -/
theorem works_tells (x : Listener D) (before after : List (Worker D)) (w : Worker D) (c : Call D)
    (k : Reply D c → Proc D (Str ⊕ Exit)) (r : Reply D c) (hw : w.Sound)
    (hworkers : x.workers = before ++ w :: after) (hleft : w.left = .call c k)
    (hlive : ∀ exit, k r = .ret (.inr exit) → exit = .broke) :
    x.Tells (.works before.length ⟨c, r⟩) { x.worked ⟨c, r⟩ with
      workers := before ++ ⟨w.peer, w.done ++ [⟨c, r⟩], k r⟩ :: after } := by
  have hbefore := leavers_works x before after w hworkers
  have hafter := leavers_works { x.worked ⟨c, r⟩ with
    workers := before ++ ⟨w.peer, w.done ++ [⟨c, r⟩], k r⟩ :: after } before after _ rfl
  rcases Worker.worker_step w.peer w.left c k r hleft hlive hw.stage with
    ⟨hc, hold, hnext⟩ | ⟨hc, hold, hnext⟩ | ⟨rfl, hold, hnext⟩
  · rw [Worker.leaves_serves w hold] at hbefore
    rw [Worker.leaves_serves _ hnext] at hafter
    refine tells_nothing _ _ _ (fun h => by cases h) (by rw [hbefore, hafter]) ?_
    cases c with
    | close fd => exact hc.elim
    | setErrno e => exact hc.elim
    | _ => rfl
  · -- The one call that sets the code is the one by which the worker leaves its loop.
    rw [Worker.leaves_serves w hold] at hbefore
    rw [Worker.leaves_closing _ hnext] at hafter
    have hmore : x.leavers + 1 = Listener.leavers { x.worked ⟨c, r⟩ with
        workers := before ++ ⟨w.peer, w.done ++ [⟨c, r⟩], k r⟩ :: after } := by
      rw [hbefore, hafter]
      rfl
    refine ⟨by omega, fun _ => Or.inr (Or.inr (by omega)), fun _ => ?_⟩
    cases c with
    | setErrno e => exact hc
    | _ => exact hc.elim
  · -- The close comes behind that, and sets nothing.
    rw [Worker.leaves_closing w hold] at hbefore
    rw [Worker.leaves_gone _ hnext] at hafter
    exact tells_nothing _ _ _ (fun h => by cases h) (by rw [hbefore, hafter]) rfl

/-- A call inside `co::accept4` sets no code. -/
theorem asks_tells [DecimalImpl D] (s : Server) (n : Nat) (x : Listener D)
    (e : Event Co.Call Co.Reply) (left : Co.Proc Int) :
    x.Tells (.asks e) ((x.answered e).proceed s n left) := by
  have hleavers : (x.answered e).leavers = x.leavers :=
    congrArg (List.countP Worker.leaves) (answered_workers x e)
  have herrno : (x.answered e)._errno = x._errno := by
    unfold answered
    split <;> rfl
  cases left with
  | call c k => exact tells_nothing _ _ _ (fun h => by cases h) hleavers herrno
  | ret ret =>
      by_cases hret : ret < 0
      · rw [proceed_failed s n _ ret hret]
        exact tells_nothing _ _ _ (fun h => by cases h) hleavers herrno
      · rw [proceed_accepted s n _ ret hret]
        refine tells_nothing _ _ _ (fun h => by cases h) ?_ herrno
        -- A new worker has not left its loop.
        rw [leavers, List.countP_append, List.countP_singleton,
          Worker.leaves_serves _ (Worker.worker_serves s ret n)]
        exact hleavers

/-- One thing that happens, `error()` apart. -/
theorem step_tells [DecimalImpl D] (s : Server) (x x' : Listener D) (a : Act D) (h : x.Sound)
    (hstep : Step s x a x') (ha : a ≠ .errors) : x.Tells a x' := by
  cases hstep with
  | listenFails errno hstage herrno =>
      exact ⟨le_refl _, fun _ => Or.inr (Or.inl rfl), fun _ => herrno⟩
  | asks c k r n hstage hanswer => exact asks_tells s n x ⟨c, r⟩ (k r)
  | works before after w c k r hworkers hleft hlive =>
      refine works_tells x before after w c k r (h w ?_) hworkers hleft hlive
      rw [hworkers]
      exact List.mem_append_right _ List.mem_cons_self
  | errors => exact absurd rfl ha
  | closes =>
      unfold close
      split <;> exact tells_nothing _ _ _ (fun h => by cases h) rfl rfl
  | listens hstage => exact tells_nothing _ _ _ (fun h => by cases h) rfl rfl
  | enters hstage => exact tells_nothing _ _ _ (fun h => by cases h) rfl rfl
  | othersOpen fd hfree => exact tells_nothing _ _ _ (fun h => by cases h) rfl rfl
  | othersClose fd hfd => exact tells_nothing _ _ _ (fun h => by cases h) rfl rfl

/-- All that happens between two calls of `error()`, by induction on the run. -/
theorem steps_tell [DecimalImpl D] (s : Server) (x y : Listener D) (acts : List (Act D))
    (h : x.Sound) (hrun : Steps (Step s) x acts y) (hno : .errors ∉ acts) :
    x.leavers ≤ y.leavers ∧
      (y._errno ≠ 0 ↔ x._errno ≠ 0 ∨ .listenFails ∈ acts ∨ x.leavers < y.leavers) := by
  induction hrun with
  | refl x =>
      refine ⟨le_refl _, Or.inl, fun h => ?_⟩
      rcases h with h | h | h
      · exact h
      · exact absurd h List.not_mem_nil
      · exact absurd h (lt_irrefl _)
  | cons x1 x2 x3 a acts hstep _ ih =>
      rw [List.mem_cons, not_or] at hno
      rcases step_tells s x1 x2 a h hstep (Ne.symm hno.1) with ⟨hle, htells⟩
      rcases ih (step_sound s x1 x2 a h hstep) hno.2 with ⟨hle', htells'⟩
      refine ⟨hle.trans hle', ?_⟩
      rw [htells', htells, List.mem_cons]
      constructor
      · rintro ((h | h | h) | h | h)
        · exact Or.inl h
        · exact Or.inr (Or.inl (Or.inl h.symm))
        · exact Or.inr (Or.inr (by omega))
        · exact Or.inr (Or.inl (Or.inr h))
        · exact Or.inr (Or.inr (by omega))
      · rintro (h | (h | h) | h)
        · exact Or.inl (Or.inl h)
        · exact Or.inl (Or.inr (Or.inl h.symm))
        · exact Or.inr (Or.inl h)
        · -- Somebody has left: in this step, or later.
          by_cases hfirst : x1.leavers < x2.leavers
          · exact Or.inl (Or.inr (Or.inr hfirst))
          · exact Or.inr (Or.inr (by omega))

/-- What `error()` answers, in any run: there is a code if and only if, since the last
    `error()`, `::listen` has failed or a worker has left its loop. -/
theorem errors_told [DecimalImpl D] (s : Server) (fd : Int) (others : List Int)
    (acts acts' : List (Act D)) (x y : Listener D)
    (hrun : Steps (Step s) (initial fd others) acts x)
    (hmore : Steps (Step s) x.error.2 acts' y) (hno : .errors ∉ acts') :
    y.error.1 ≠ 0 ↔ .listenFails ∈ acts' ∨ x.leavers < y.leavers := by
  have hsound : x.Sound := steps_invariant Sound (fun x a x' h => step_sound s x x' a h) _ _ _ hrun
    (fun w hw => absurd hw List.not_mem_nil)
  have htells := (steps_tell s x.error.2 y acts' hsound hmore hno).2
  rw [show y.error.1 = y._errno from rfl, htells]
  refine ⟨fun h => ?_, Or.inr⟩
  rcases h with h | h
  · exact absurd rfl h
  · exact h

/-- Its code is there to be asked for. -/
theorem errors_told_given_up : ∃ (acts : List (Act Unit)) (y : Listener Unit),
    Steps (Step (bareServer fun _ => none)) (initial 3 [0, 1, 2]) acts y ∧ y.error.1 ≠ 0 := by
  rcases accepted_given_up with ⟨acts, y, w, hrun, hno, hworkers, _, hgone⟩
  have hsteps := steps_of_guarded Admitted _ _ _ hrun
  refine ⟨acts, y, hsteps, (errors_told (bareServer fun _ => none) 3 [0, 1, 2] [] acts
    (initial 3 [0, 1, 2]) y (Steps.refl _) hsteps hno).mpr (Or.inr ?_)⟩
  rw [leavers, leavers, hworkers, List.countP_singleton, Worker.leaves_gone w hgone]
  exact Nat.zero_lt_one

end Listener

end Trpc
