import Mathlib.Data.List.Basic
import Mathlib.Logic.Function.Basic

/-!
# Interactive Programs

Programs that talk to an environment nobody controls. A `Prog` either returns
or makes a call and waits for the reply, one continuation per possible reply,
so a program is a tree and everything the environment might do is a branch of
it. Nothing is assumed about the replies except their type; a reply type may
depend on the call, which is how a constraint such as "a read of `n` bytes
yields at most `n`" is stated once, where the call is declared.

`Runs` follows one branch to its end and records the calls and replies along
the way as a trace. `Reaches` stops anywhere. Partial runs are what safety
statements speak about, but finished ones are what compose, so the two are
tied together by `runs_of_reaches`: whatever a program has done so far, the
environment can finish it off with any replies it likes, and in particular
with replies that move nothing.

A loop of the source that never ends becomes `loop`, cut off after a number of
rounds that the theorems quantify over.

Several programs run together in `Interleaved`: each entry of the joint trace
names the program that moved. Programs share no memory here, only an
environment, so a joint run is nothing but a shuffle of the separate ones, and
`interleaved_iff` says so.

## Main definitions

* `Prog`: A program as a tree of calls and replies.
* `Event`: A call together with the reply it got.
* `Runs`: A finished run with its trace.
* `Reaches`: A run stopped at some point, with what is left to do.
* `drive`: A run against a given environment.
* `Prog.Only`: The calls a program can make.
* `Prog.Signals`: A program that tells one kind of result by its last call.
* `Driven`: A run with an environment that answers some of the calls.
* `loop`: A round repeated up to a bound.
* `Interleaved`: A joint run of a family of programs.
* `projection`: The events of one program in a joint trace.

## Theorems

* `runs_bind_iff`: A run of a sequence splits into runs of its parts.
* `runs_perform_iff`: A single call runs by getting a reply.
* `runs_unique`: The replies decide a run.
* `runs_of_reaches`: A stopped run can be finished with chosen replies.
* `reaches_of_runs`: A finished run passes through every prefix of its trace.
* `interleaved_iff`: A joint run is any shuffle of separate runs.
-/

namespace Interaction

/-- A program over calls `C` with replies `R`, returning an `α`. -/
inductive Prog (C : Type) (R : C → Type) (α : Type) : Type where
  | ret (a : α)
  | call (c : C) (k : R c → Prog C R α)

/-- A call and the reply it got. -/
abbrev Event (C : Type) (R : C → Type) : Type := Sigma R

variable {C : Type} {R : C → Type} {α β : Type}

namespace Prog

/-- Sequencing: the second program is handed the first one's result. -/
def bind : Prog C R α → (α → Prog C R β) → Prog C R β
  | .ret a, f => f a
  | .call c k, f => .call c (fun r => (k r).bind f)

instance : Monad (Prog C R) where
  pure := .ret
  bind := bind

/-- Make one call and return its reply. -/
def perform (c : C) : Prog C R (R c) := .call c .ret

@[simp] theorem pure_def (a : α) : (pure a : Prog C R α) = .ret a := rfl

@[simp] theorem bind_def (p : Prog C R α) (f : α → Prog C R β) : p >>= f = p.bind f := rfl

@[simp] theorem ret_bind (a : α) (f : α → Prog C R β) : (Prog.ret a).bind f = f a := rfl

@[simp] theorem call_bind (c : C) (k : R c → Prog C R α) (f : α → Prog C R β) :
    (Prog.call c k).bind f = .call c (fun r => (k r).bind f) := rfl

/-- Sequencing is associative. -/
theorem bind_assoc {γ : Type} (p : Prog C R α) (f : α → Prog C R β) (g : β → Prog C R γ) :
    (p.bind f).bind g = p.bind fun a => (f a).bind g := by
  induction p with
  | ret a => rfl
  | call c k ih =>
      simp only [call_bind]
      -- The call is the same, and the rest is for every reply.
      congr 1
      funext r
      exact ih r

end Prog

/-- A finished run: the calls made, the replies given, and the result. -/
inductive Runs : Prog C R α → List (Event C R) → α → Prop where
  | ret (a : α) : Runs (.ret a) [] a
  | call (c : C) (k : R c → Prog C R α) (r : R c) (t : List (Event C R)) (a : α) :
      Runs (k r) t a → Runs (.call c k) (⟨c, r⟩ :: t) a

/-- A run stopped somewhere, and the program that is left. -/
inductive Reaches : Prog C R α → List (Event C R) → Prog C R α → Prop where
  | refl (p : Prog C R α) : Reaches p [] p
  | call (c : C) (k : R c → Prog C R α) (r : R c) (t : List (Event C R)) (q : Prog C R α) :
      Reaches (k r) t q → Reaches (.call c k) (⟨c, r⟩ :: t) q

/-- A program that returns at once makes no calls. -/
@[simp] theorem runs_ret_iff (a b : α) (t : List (Event C R)) :
    Runs (.ret a) t b ↔ t = [] ∧ b = a := by
  constructor
  · intro h
    cases h
    exact ⟨rfl, rfl⟩
  · rintro ⟨rfl, rfl⟩
    exact Runs.ret _

/-- The first event of a run is the first call with some reply. -/
theorem runs_call_iff (c : C) (k : R c → Prog C R α) (t : List (Event C R)) (a : α) :
    Runs (.call c k) t a ↔ ∃ r t', t = ⟨c, r⟩ :: t' ∧ Runs (k r) t' a := by
  constructor
  · intro h
    cases h with
    | call _ _ r t' _ h' => exact ⟨r, t', rfl, h'⟩
  · rintro ⟨r, t', rfl, h⟩
    exact Runs.call c k r t' a h

/-- A run of a sequence is a run of the first part followed by a run of the
    second. -/
theorem runs_bind_iff (p : Prog C R α) (f : α → Prog C R β) (t : List (Event C R)) (b : β) :
    Runs (p.bind f) t b ↔
      ∃ t1 t2 a, t = t1 ++ t2 ∧ Runs p t1 a ∧ Runs (f a) t2 b := by
  induction p generalizing t with
  | ret a =>
      simp only [Prog.ret_bind, runs_ret_iff]
      constructor
      · intro h
        exact ⟨[], t, a, rfl, ⟨rfl, rfl⟩, h⟩
      · rintro ⟨t1, t2, a', rfl, ⟨rfl, rfl⟩, h⟩
        exact h
  | call c k ih =>
      -- The first event belongs to the first part, and the rest is split by induction.
      simp only [Prog.call_bind, runs_call_iff]
      constructor
      · rintro ⟨r, t', rfl, h⟩
        rcases (ih r t').mp h with ⟨t1, t2, a, rfl, h1, h2⟩
        exact ⟨⟨c, r⟩ :: t1, t2, a, rfl, ⟨r, t1, rfl, h1⟩, h2⟩
      · rintro ⟨t1, t2, a, rfl, ⟨r, t1', rfl, h1⟩, h2⟩
        exact ⟨r, t1' ++ t2, rfl, (ih r _).mpr ⟨t1', t2, a, rfl, h1, h2⟩⟩

/-- The replies decide the run: of two runs neither goes beyond the other. -/
theorem runs_unique (p : Prog C R α) (t1 t2 u1 u2 : List (Event C R)) (a b : α)
    (h1 : Runs p t1 a) (h2 : Runs p t2 b) (heq : t1 ++ u1 = t2 ++ u2) : t1 = t2 ∧ a = b := by
  induction h1 generalizing t2 with
  | ret a =>
      rcases (runs_ret_iff ..).mp h2 with ⟨rfl, rfl⟩
      exact ⟨rfl, rfl⟩
  | call c k r t a _ ih =>
      rcases (runs_call_iff ..).mp h2 with ⟨r', t', rfl, hrest⟩
      -- Both runs begin with the same call, and the common trace gives them the same
      -- reply.
      rw [List.cons_append, List.cons_append] at heq
      rcases List.cons.inj heq with ⟨he, htail⟩
      cases he
      rcases ih t' hrest htail with ⟨rfl, rfl⟩
      exact ⟨rfl, rfl⟩

/-- A single call runs by getting a reply. -/
theorem runs_perform_iff (c : C) (t : List (Event C R)) (r : R c) :
    Runs (Prog.perform c : Prog C R (R c)) t r ↔ t = [⟨c, r⟩] := by
  simp only [Prog.perform, runs_call_iff, runs_ret_iff]
  constructor
  · rintro ⟨r', t', rfl, rfl, rfl⟩
    rfl
  · rintro rfl
    exact ⟨r, [], rfl, rfl, rfl⟩

/-- A call followed by a continuation runs by getting a reply. -/
theorem runs_perform_bind_iff (c : C) (f : R c → Prog C R β) (t : List (Event C R)) (b : β) :
    Runs ((Prog.perform c).bind f) t b ↔ ∃ r t', t = ⟨c, r⟩ :: t' ∧ Runs (f r) t' b := by
  simp only [Prog.perform, Prog.call_bind, Prog.ret_bind, runs_call_iff]

/-- Finishing a program with the replies `g` picks. -/
theorem runs_with (g : (c : C) → R c) (p : Prog C R α) :
    ∃ t a, Runs p t a ∧ ∀ e ∈ t, e = ⟨e.1, g e.1⟩ := by
  induction p with
  | ret a => exact ⟨[], a, Runs.ret a, fun e he => absurd he List.not_mem_nil⟩
  | call c k ih =>
      -- The tree is followed along the replies that `g` picks.
      rcases ih (g c) with ⟨t, a, h, hg⟩
      refine ⟨⟨c, g c⟩ :: t, a, Runs.call c k (g c) t a h, fun e he => ?_⟩
      rcases List.mem_cons.mp he with rfl | he
      · rfl
      · exact hg e he

/-- A stopped run can be finished, with any replies from there on. This is how
    a fact about finished runs reaches the unfinished ones: finish the run with
    replies that leave alone whatever the fact is about. -/
theorem runs_of_reaches (g : (c : C) → R c) (p q : Prog C R α) (t : List (Event C R))
    (h : Reaches p t q) :
    ∃ t' a, Runs p (t ++ t') a ∧ ∀ e ∈ t', e = ⟨e.1, g e.1⟩ := by
  induction h with
  | refl p => exact runs_with g p
  | call c k r t q _ ih =>
      rcases ih with ⟨t', a, h', hg⟩
      exact ⟨t', a, Runs.call c k r _ a h', hg⟩

/-- A finished run passes through every prefix of its trace. -/
theorem reaches_of_runs (p : Prog C R α) (t1 t2 : List (Event C R)) (a : α)
    (h : Runs p (t1 ++ t2) a) : ∃ q, Reaches p t1 q ∧ Runs q t2 a := by
  induction t1 generalizing p with
  | nil => exact ⟨p, Reaches.refl p, h⟩
  | cons e t1 ih =>
      cases h with
      | call c k r _ _ h' =>
          rcases ih (k r) h' with ⟨q, hq, hr⟩
          exact ⟨q, Reaches.call c k r t1 q hq, hr⟩

/-- A run stopped where nothing is left to do is finished. -/
theorem reaches_ret_iff (p : Prog C R α) (t : List (Event C R)) (a : α) :
    Reaches p t (.ret a) ↔ Runs p t a := by
  constructor
  · intro h
    -- The induction needs the program left as a variable.
    generalize hq : (Prog.ret a : Prog C R α) = q at h
    induction h with
    | refl p =>
        subst hq
        exact Runs.ret a
    | call c k r t q _ ih => exact Runs.call c k r t a (ih hq)
  · intro h
    induction h with
    | ret a => exact Reaches.refl _
    | call c k r t a _ ih => exact Reaches.call c k r t _ ih

/-- Before the first event the whole program is left. -/
theorem reaches_nil_iff (p q : Prog C R α) : Reaches p [] q ↔ p = q := by
  constructor
  · intro h
    generalize ht : ([] : List (Event C R)) = t at h
    cases h with
    | refl => rfl
    | call => cases ht
  · rintro rfl
    exact Reaches.refl p

/-- Running a program against an environment with a state of its own. -/
def drive {σ : Type} (g : σ → (c : C) → R c × σ) : σ → Prog C R α → List (Event C R) × α
  | _, .ret a => ([], a)
  | s, .call c k =>
    let r := g s c
    let x := drive g r.2 (k r.1)
    (⟨c, r.1⟩ :: x.1, x.2)

/-- What comes of it is a run. -/
theorem runs_drive {σ : Type} (g : σ → (c : C) → R c × σ) (s : σ) (p : Prog C R α) :
    Runs p (drive g s p).1 (drive g s p).2 := by
  induction p generalizing s with
  | ret a => exact Runs.ret a
  | call c k ih => exact Runs.call c k _ _ _ (ih _ _)

section Only

variable (P : C → Prop)

/-- Every call the program can make, whatever the replies, is one of `P`. -/
def Prog.Only : Prog C R α → Prop
  | .ret _ => True
  | .call c k => P c ∧ ∀ r, (k r).Only

variable {P}

theorem only_perform (c : C) (h : P c) : (Prog.perform c : Prog C R (R c)).Only P :=
  ⟨h, fun _ => trivial⟩

theorem only_bind (p : Prog C R α) (f : α → Prog C R β) (hp : p.Only P)
    (hf : ∀ a, (f a).Only P) : (p.bind f).Only P := by
  induction p with
  | ret a => exact hf a
  | call c k ih => exact ⟨hp.1, fun r => ih r (hp.2 r)⟩

theorem only_mono {Q : C → Prop} (h : ∀ c, P c → Q c) (p : Prog C R α) (hp : p.Only P) :
    p.Only Q := by
  induction p with
  | ret a => exact trivial
  | call c k ih => exact ⟨h c hp.1, fun r => ih r (hp.2 r)⟩

/-- What a program cannot call is in none of its runs. -/
theorem runs_only (p : Prog C R α) (t : List (Event C R)) (a : α) (hp : p.Only P)
    (h : Runs p t a) : ∀ e ∈ t, P e.1 := by
  induction h with
  | ret a => exact fun e he => absurd he List.not_mem_nil
  | call c k r t a _ ih => exact List.forall_mem_cons.mpr ⟨hp.1, ih (hp.2 r)⟩

end Only

section Driven

variable {σ : Type} (P : C → Prop) (g : σ → (c : C) → R c × σ)

/-- What a program comes to, and the state it leaves an environment in that answers all
    its calls. -/
def Prog.play : σ → Prog C R α → α × σ
  | s, .ret a => (a, s)
  | s, .call c k => play (g s c).2 (k (g s c).1)

/-- A run in which the calls of `P` are answered by an environment, whatever becomes of the
    others. -/
inductive Driven : σ → List (Event C R) → σ → Prop
  | nil (s : σ) : Driven s [] s
  | asked (s s' : σ) (c : C) (t : List (Event C R)) : P c → Driven (g s c).2 t s' →
      Driven s (⟨c, (g s c).1⟩ :: t) s'
  | skipped (s s' : σ) (c : C) (r : R c) (t : List (Event C R)) : ¬ P c → Driven s t s' →
      Driven s (⟨c, r⟩ :: t) s'

variable {P g}

/-- A run is driven part by part. -/
theorem driven_append (s s' : σ) (t u : List (Event C R)) :
    Driven P g s (t ++ u) s' ↔ ∃ m, Driven P g s t m ∧ Driven P g m u s' := by
  constructor
  · intro h
    -- Forwards along the first part, the state handed on from event to event.
    induction t generalizing s with
    | nil => exact ⟨s, Driven.nil s, h⟩
    | cons e t ih =>
        cases h with
        | asked _ _ c _ hc h =>
            rcases ih _ h with ⟨m, hm, hu⟩
            exact ⟨m, Driven.asked s m c t hc hm, hu⟩
        | skipped _ _ c r _ hc h =>
            rcases ih _ h with ⟨m, hm, hu⟩
            exact ⟨m, Driven.skipped s m c r t hc hm, hu⟩
  · rintro ⟨m, ht, hu⟩
    -- Backwards, along the derivation of the first part.
    induction ht with
    | nil => exact hu
    | asked s m c t hc _ ih => exact Driven.asked s s' c _ hc (ih hu)
    | skipped s m c r t hc _ ih => exact Driven.skipped s s' c r _ hc (ih hu)

/-- Where the environment is not asked, it stays as it is. -/
theorem driven_apart (s s' : σ) (t : List (Event C R)) (ht : ∀ e ∈ t, ¬ P e.1)
    (h : Driven P g s t s') : s' = s := by
  induction h with
  | nil => rfl
  | asked s s' c t hc _ _ => exact absurd hc (ht _ List.mem_cons_self)
  | skipped s s' c r t _ _ ih => exact ih (fun e he => ht e (List.mem_cons_of_mem _ he))

/-- A program that asks nobody else comes to what the environment makes of it. -/
theorem driven_play (s s' : σ) (p : Prog C R α) (t : List (Event C R)) (a : α) (hp : p.Only P)
    (hr : Runs p t a) (h : Driven P g s t s') : p.play g s = (a, s') := by
  induction hr generalizing s with
  | ret a =>
      cases h
      rfl
  | call c k r t a _ ih =>
      cases h with
      | asked _ _ _ _ hc h => exact ih _ (hp.2 _) h
      -- Every call is one of `P`, so none is skipped.
      | skipped _ _ _ _ _ hc h => exact absurd hp.1 hc

/-- A stopped run can be finished by the environment, with any replies to the other
    calls. -/
theorem driven_finish (f : (c : C) → R c) (p q : Prog C R α) (t : List (Event C R)) (s : σ)
    (h : Reaches p t q) : ∃ u a s', Runs p (t ++ u) a ∧ Driven P g s u s' ∧
      ∀ e ∈ u, P e.1 ∨ e = ⟨e.1, f e.1⟩ := by
  induction h with
  | refl p =>
      induction p generalizing s with
      | ret a => exact ⟨[], a, s, Runs.ret a, Driven.nil s, fun e he => absurd he List.not_mem_nil⟩
      | call c k ih =>
          -- The environment answers the calls that are its own, `f` the others.
          by_cases hc : P c
          · rcases ih (g s c).1 (g s c).2 with ⟨u, a, s', hr, hd, hall⟩
            exact ⟨_, a, s', Runs.call c k _ u a hr, Driven.asked s s' c u hc hd,
              List.forall_mem_cons.mpr ⟨Or.inl hc, hall⟩⟩
          · rcases ih (f c) s with ⟨u, a, s', hr, hd, hall⟩
            exact ⟨_, a, s', Runs.call c k _ u a hr, Driven.skipped s s' c (f c) u hc hd,
              List.forall_mem_cons.mpr ⟨Or.inr rfl, hall⟩⟩
  | call c k r t q _ ih =>
      rcases ih with ⟨u, a, s', hr, hd, hall⟩
      exact ⟨u, a, s', Runs.call c k r _ a hr, hd, hall⟩

/-- Driven by an environment that answers the calls of `P` as `g` does, a program makes
    such a run. -/
theorem driven_drive {τ : Type} (f : τ → (c : C) → R c × τ) (view : τ → σ)
    (hasked : ∀ x c, P c → (f x c).1 = (g (view x) c).1 ∧ view (f x c).2 = (g (view x) c).2)
    (hskipped : ∀ x c, ¬ P c → view (f x c).2 = view x) (x : τ) (p : Prog C R α) :
    ∃ s', Driven P g (view x) (drive f x p).1 s' := by
  induction p generalizing x with
  | ret a => exact ⟨view x, Driven.nil _⟩
  | call c k ih =>
      rcases ih (f x c).1 (f x c).2 with ⟨s', hs'⟩
      -- The state seen through `view` moves at the calls of `P` and nowhere else.
      by_cases hc : P c
      · rcases hasked x c hc with ⟨hreply, hview⟩
        rw [hview] at hs'
        refine ⟨s', ?_⟩
        unfold drive
        simp only [hreply] at hs' ⊢
        exact Driven.asked _ _ c _ hc hs'
      · rw [hskipped x c hc] at hs'
        exact ⟨s', Driven.skipped _ _ c _ _ hc hs'⟩

end Driven

section Signals

variable (P M : C → Prop)

/-- Every call the program can make is one of `P`, and the result one of `Q`, but for a
    last call out of `M`, which is followed by a result out of `F`. -/
def Prog.Signals (Q F : α → Prop) : Prog C R α → Prop
  | .ret a => Q a
  | .call c k => (P c ∧ ∀ r, (k r).Signals Q F) ∨ (M c ∧ ∀ r, ∃ a, k r = .ret a ∧ F a)

variable {P M}

theorem signals_of_only (F : α → Prop) (p : Prog C R α) (hp : p.Only P) :
    p.Signals P M (fun _ => True) F := by
  induction p with
  | ret a => exact trivial
  | call c k ih => exact Or.inl ⟨hp.1, fun r => ih r (hp.2 r)⟩

/-- A signal ends the sequence: behind it the second part has nothing left to do. -/
theorem signals_bind (Q F : α → Prop) (Q' F' : β → Prop) (p : Prog C R α) (f : α → Prog C R β)
    (hp : p.Signals P M Q F) (hf : ∀ a, Q a → (f a).Signals P M Q' F')
    (hend : ∀ a, F a → ∃ b, f a = .ret b ∧ F' b) : (p.bind f).Signals P M Q' F' := by
  induction p with
  | ret a => exact hf a hp
  | call c k ih =>
      rcases hp with ⟨hc, hk⟩ | ⟨hc, hk⟩
      · exact Or.inl ⟨hc, fun r => ih r (hk r)⟩
      · -- The last call of the first part is the last of the whole.
        refine Or.inr ⟨hc, fun r => ?_⟩
        rcases hk r with ⟨a, ha, hF⟩
        rcases hend a hF with ⟨b, hb, hF'⟩
        exact ⟨b, by simp only [ha, Prog.ret_bind, hb], hF'⟩

/-- What does not signal anything, followed by what may. -/
theorem signals_only_bind (Q F : β → Prop) (p : Prog C R α) (f : α → Prog C R β)
    (hp : p.Only P) (hf : ∀ a, (f a).Signals P M Q F) : (p.bind f).Signals P M Q F :=
  signals_bind _ (fun _ => False) Q F p f (signals_of_only _ p hp) (fun a _ => hf a)
    (fun _ h => h.elim)

end Signals

section Loop

variable {S B : Type}

/-- Repeat a round while it hands back a state, at most `n` times. What comes
    out is the state after `n` rounds, or what the round that ended it said. -/
def loop (body : S → Prog C R (S ⊕ B)) : Nat → S → Prog C R (S ⊕ B)
  | 0, s => .ret (.inl s)
  | n + 1, s => (body s).bind fun r => match r with
    | .inl s' => loop body n s'
    | .inr b => .ret (.inr b)

/-- The rounds of a loop, each with its trace, and what came of them. -/
inductive Rounds (body : S → Prog C R (S ⊕ B)) : S → List (List (Event C R)) → S ⊕ B → Prop where
  | halt (s : S) : Rounds body s [] (.inl s)
  | stop (s : S) (t : List (Event C R)) (b : B) : Runs (body s) t (.inr b) →
      Rounds body s [t] (.inr b)
  | next (s s' : S) (t : List (Event C R)) (ts : List (List (Event C R))) (r : S ⊕ B) :
      Runs (body s) t (.inl s') → Rounds body s' ts r → Rounds body s (t :: ts) r

/-- A loop whose rounds signal how they end it signals how it ends. -/
theorem signals_loop (P M : C → Prop) (Q F : B → Prop) (body : S → Prog C R (S ⊕ B))
    (hbody : ∀ s, (body s).Signals P M (fun r => ∀ b, r = .inr b → Q b)
      (fun r => ∃ b, r = .inr b ∧ F b)) (n : Nat) :
    ∀ s, (loop body n s).Signals P M (fun r => ∀ b, r = .inr b → Q b)
      (fun r => ∃ b, r = .inr b ∧ F b) := by
  induction n with
  | zero => exact fun s b h => (by cases h)
  | succ n ih =>
      intro s
      -- A round that does not end the loop hands a state on, and signals nothing.
      refine signals_bind _ _ _ _ (body s) _ (hbody s) (fun r hr => ?_) (fun r hr => ?_)
      · rcases r with s' | b
        · exact ih s'
        · exact hr
      · rcases hr with ⟨b, rfl, hb⟩
        exact ⟨.inr b, rfl, b, rfl, hb⟩

/-- A run of a loop is cut into its rounds, all of them if it was not ended by
    one. -/
theorem loop_rounds (body : S → Prog C R (S ⊕ B)) (n : Nat) :
    ∀ (s : S) (t : List (Event C R)) (r : S ⊕ B), Runs (loop body n s) t r →
      ∃ ts, t = ts.flatten ∧ Rounds body s ts r ∧ (r.isLeft → ts.length = n) := by
  induction n with
  | zero =>
      intro s t r hr
      rcases (runs_ret_iff ..).mp hr with ⟨rfl, rfl⟩
      exact ⟨[], rfl, Rounds.halt s, fun _ => rfl⟩
  | succ n ih =>
      intro s t r hr
      simp only [loop, runs_bind_iff] at hr
      rcases hr with ⟨t1, t2, x, rfl, h1, h2⟩
      cases x with
      -- The round handed a state on, so there is a next one.
      | inl s' =>
          rcases ih s' t2 r h2 with ⟨ts, rfl, hts, hlen⟩
          exact ⟨t1 :: ts, rfl, Rounds.next s s' t1 ts r h1 hts,
            fun h => by rw [List.length_cons, hlen h]⟩
      -- The round ended the loop, and what is left of it is empty.
      | inr b =>
          rcases (runs_ret_iff ..).mp h2 with ⟨rfl, rfl⟩
          exact ⟨[t1], by rw [List.flatten_singleton, List.append_nil], Rounds.stop s t1 b h1,
            fun h => absurd h Bool.false_ne_true⟩

end Loop

section Interleaving

variable {ι : Type} [DecidableEq ι] {A : ι → Type}

/-- A joint run of a family of programs. Each step is one program getting one
    reply; the order in which programs move is unconstrained. -/
inductive Interleaved :
    ((i : ι) → Prog C R (A i)) → List (ι × Event C R) → ((i : ι) → Prog C R (A i)) → Prop where
  | refl (ps : (i : ι) → Prog C R (A i)) : Interleaved ps [] ps
  | step (ps : (i : ι) → Prog C R (A i)) (i : ι) (c : C) (k : R c → Prog C R (A i)) (r : R c)
      (t : List (ι × Event C R)) (qs : (i : ι) → Prog C R (A i)) :
      ps i = .call c k → Interleaved (Function.update ps i (k r)) t qs →
      Interleaved ps ((i, ⟨c, r⟩) :: t) qs

/-- What program `i` did in a joint trace. -/
def projection (i : ι) (t : List (ι × Event C R)) : List (Event C R) :=
  t.filterMap fun e => if e.1 = i then some e.2 else none

@[simp] theorem projection_nil (i : ι) : projection (C := C) (R := R) i [] = [] := rfl

theorem projection_append (i : ι) (t u : List (ι × Event C R)) :
    projection i (t ++ u) = projection i t ++ projection i u := by
  simp only [projection, List.filterMap_append]

theorem projection_cons_self (i : ι) (e : Event C R) (t : List (ι × Event C R)) :
    projection i ((i, e) :: t) = e :: projection i t := by
  simp only [projection, List.filterMap_cons, if_true]

theorem projection_cons_other (i j : ι) (e : Event C R) (t : List (ι × Event C R)) (h : j ≠ i) :
    projection i ((j, e) :: t) = projection i t := by
  simp only [projection, List.filterMap_cons, if_neg h]

/-- In a joint run each program runs by itself: the others only decide when. -/
theorem interleaved_projection (ps qs : (i : ι) → Prog C R (A i)) (t : List (ι × Event C R))
    (h : Interleaved ps t qs) (i : ι) : Reaches (ps i) (projection i t) (qs i) := by
  induction h with
  | refl ps => exact Reaches.refl _
  | step ps j c k r t qs hj _ ih =>
      -- One program moves in a step, and the others stay where they are.
      by_cases hij : j = i
      · subst hij
        rw [projection_cons_self, hj]
        rw [Function.update_self] at ih
        exact Reaches.call c k r _ _ ih
      · rw [projection_cons_other i j _ t hij]
        rwa [Function.update_of_ne (Ne.symm hij)] at ih

/-- Separate runs shuffled in any way are a joint run. -/
theorem interleaved_iff (ps qs : (i : ι) → Prog C R (A i)) (t : List (ι × Event C R)) :
    Interleaved ps t qs ↔ ∀ i, Reaches (ps i) (projection i t) (qs i) := by
  constructor
  · exact fun h i => interleaved_projection ps qs t h i
  · -- The joint trace says whose turn it is; the separate run of that program has the
    -- step.
    induction t generalizing ps with
    | nil =>
        intro h
        have hsame : ps = qs := by
          funext i
          exact (reaches_nil_iff _ _).mp (h i)
        rw [hsame]
        exact Interleaved.refl qs
    | cons x t ih =>
        rcases x with ⟨i, e⟩
        intro h
        have hi := h i
        rw [projection_cons_self] at hi
        generalize hp : ps i = p at hi
        cases hi with
        | call c k r _ _ hrest =>
            refine Interleaved.step ps i c k r t qs hp (ih _ fun j => ?_)
            by_cases hj : j = i
            · subst hj
              rwa [Function.update_self]
            · have hother := h j
              rw [projection_cons_other j i _ t (Ne.symm hj)] at hother
              rwa [Function.update_of_ne hj]

/-- A part of a joint run in which one program moves. -/
def alone (i : ι) (t : List (Event C R)) : List (ι × Event C R) := t.map fun e => (i, e)

theorem projection_alone (i : ι) (t : List (Event C R)) : projection i (alone i t) = t := by
  induction t with
  | nil => rfl
  | cons e t ih =>
      rw [alone, List.map_cons, projection_cons_self]
      exact congrArg (e :: ·) ih

/-- While one program moves alone, the others do nothing. -/
theorem projection_alone_other (i j : ι) (t : List (Event C R)) (h : j ≠ i) :
    projection i (alone j t) = [] := by
  induction t with
  | nil => rfl
  | cons e t ih =>
      rw [alone, List.map_cons, projection_cons_other i j e _ h]
      exact ih

/-- A joint run passes through every prefix of its trace. -/
theorem interleaved_prefix (ps qs : (i : ι) → Prog C R (A i)) (t u : List (ι × Event C R))
    (h : Interleaved ps (t ++ u) qs) : ∃ ms, Interleaved ps t ms := by
  induction t generalizing ps with
  | nil => exact ⟨ps, Interleaved.refl ps⟩
  | cons e t ih =>
      cases h with
      | step _ i c k r _ _ hi h' =>
          rcases ih _ h' with ⟨ms, hms⟩
          exact ⟨ms, Interleaved.step ps i c k r t ms hi hms⟩

/-- What a program has done by some point, it has done by some point of the joint
    run. -/
theorem projection_prefix (i : ι) (t : List (ι × Event C R)) :
    ∀ u : List (Event C R), u <+: projection i t → ∃ v, v <+: t ∧ projection i v = u := by
  induction t with
  | nil =>
      intro u hu
      exact ⟨[], List.prefix_rfl, (List.prefix_nil.mp hu).symm⟩
  | cons x t ih =>
      rcases x with ⟨j, e⟩
      intro u hu
      -- Events of the others are taken along until the program moves.
      by_cases hj : j = i
      · subst hj
        rw [projection_cons_self] at hu
        cases u with
        | nil => exact ⟨[], List.nil_prefix, rfl⟩
        | cons e' u =>
            rcases List.cons_prefix_cons.mp hu with ⟨rfl, hrest⟩
            rcases ih u hrest with ⟨v, hv, rfl⟩
            exact ⟨(j, e') :: v, List.cons_prefix_cons.mpr ⟨rfl, hv⟩, projection_cons_self ..⟩
      · rw [projection_cons_other i j e t hj] at hu
        rcases ih u hu with ⟨v, hv, rfl⟩
        exact ⟨(j, e) :: v, List.cons_prefix_cons.mpr ⟨rfl, hv⟩, projection_cons_other i j e v hj⟩

end Interleaving

end Interaction
