import Mathlib.Logic.Equiv.Basic
import Mathlib.Logic.Relation
import Trpc.Core.Clients
import Trpc.Theory.Rpc.Outcome
import Trpc.Theory.Rpc.Alignment

/-!
# Who Owns a Descriptor

Whatever a program does with its clients, a descriptor belongs to at most one of
them, and is closed at most once for each time it is opened. The record that a client
keeps of a response that is partly read goes along with the descriptor when a client
is moved, assigned or swapped.

It does not go with the descriptor when that is closed. `close` leaves the record
behind in the client, and `init` does not clear it, so a client that is closed inside
a response and opened again takes the new stream for the old one. `Clean` says that
`init` is not used on such a client, and then the record of a client is what the calls
on its present descriptor have left, and nothing else.

Each operation comes down to a few steps in which descriptors change hands, are closed,
opened, or used, and the invariants are shown for these.

## Main definitions

* `Health.Left`: What the calls on a descriptor have left.
* `Clients.Atom`: The steps that operations are made of.
* `Clients.Owned`, `Clients.Described`: The invariants.
* `Clients.Clean`: An `init` that finds no record.

## Theorems

* `step_atoms`: Operations are made of these steps.
* `atom_owned`, `atom_described`: The invariants are kept.
* `clients_own`: Every run.
-/

namespace Trpc

open Vsjson Interaction Transition Client

variable {D : Type}

@[simp] theorem closed_nil : closed ([] : Trace D) = [] := rfl

@[simp] theorem closed_append (t u : Trace D) : closed (t ++ u) = closed t ++ closed u :=
  List.flatMap_append

/-! ## What is closed -/

/-- A call other than `::close`. -/
def Call.Keeps : Call D → Prop
  | .close _ => False
  | _ => True

theorem Call.keeps_transfers : Call.Transfers (D := D) Call.Keeps :=
  ⟨trivial, fun _ _ _ => trivial, fun _ _ _ => trivial, fun _ _ => trivial, fun _ => trivial,
    fun _ => trivial⟩

/-- Calls that do not close have closed nothing. -/
theorem closed_keeps (t : Trace D) (h : ∀ e ∈ t, Call.Keeps e.1) : closed t = [] := by
  refine List.flatMap_eq_nil_iff.mpr (fun e he => ?_)
  have hkeeps := h e he
  rcases e with ⟨c, r⟩
  cases c with
  | close fd => exact absurd hkeeps id
  | _ => rfl

namespace Client

/-- The socket is left alone, or it is closed and given up. -/
def Lets (c : Client) (t : Trace D) (c' : Client) : Prop :=
  closed t = [] ∧ c'._socket = c._socket ∨
    c._socket ≠ socketInvalid ∧ closed t = [c._socket] ∧ c'._socket = socketInvalid

/-- A part that closes nothing may come before. -/
theorem lets_behind (c c1 c' : Client) (t u : Trace D) (ht : closed t = [])
    (hc : c1._socket = c._socket) (h : Lets c1 u c') : Lets c (t ++ u) c' := by
  unfold Lets at h ⊢
  rw [closed_append, ht, List.nil_append, ← hc]
  exact h

theorem lets_none (c c' : Client) (t : Trace D) (ht : closed t = [])
    (hc : c'._socket = c._socket) : Lets c t c' := Or.inl ⟨ht, hc⟩

/-- `close` closes the descriptor if there is one, and forgets it in any case. -/
theorem close_lets (c c' : Client) (t : Trace D) (hr : Runs c.close t c') :
    c' = { c with _socket := socketInvalid } ∧
      (c._socket = socketInvalid ∧ closed t = [] ∨
        c._socket ≠ socketInvalid ∧ closed t = [c._socket]) := by
  unfold close at hr
  split at hr
  · rename_i hs
    simp only [Prog.bind_def, runs_sysClose_bind] at hr
    rcases hr with ⟨r, t', rfl, h⟩
    rcases (runs_ret_iff ..).mp h with ⟨rfl, rfl⟩
    exact ⟨rfl, Or.inr ⟨hs, rfl⟩⟩
  · rename_i hs
    rcases (runs_ret_iff ..).mp hr with ⟨rfl, rfl⟩
    have hs := not_not.mp hs
    exact ⟨by rw [← hs], Or.inl ⟨hs, rfl⟩⟩

/-- The same with a client in between that has the same descriptor. -/
theorem close_lets' (c c1 c' : Client) (t : Trace D) (hc : c1._socket = c._socket)
    (hr : Runs c1.close t c') : Lets c t c' := by
  rcases close_lets c1 c' t hr with ⟨rfl, ⟨hs, ht⟩ | ⟨hs, ht⟩⟩
  · exact Or.inl ⟨ht, by rw [← hc, hs]⟩
  · exact Or.inr ⟨by rwa [← hc], by rw [ht, hc], rfl⟩

theorem conclude_socket (c : Client) (size : Nat) (x : Transfer) :
    (c.conclude size x).1._socket = c._socket := by
  unfold conclude
  split <;> rfl

/-- A transfer closes nothing. -/
theorem bestEffortRead_keeps (c : Client) (phase : Phase) (base size : Nat) (t : Trace D)
    (x : (Client × Bool) × Transfer) (hr : Runs (c.bestEffortRead phase base size) t x) :
    closed t = [] ∧ x.1.1._socket = c._socket := by
  refine ⟨closed_keeps t (runs_only _ t x (bestEffortRead_only Call.keeps_transfers c _ _ _) hr),
    ?_⟩
  rw [(bestEffortRead_reports c phase base size t x hr).2.2, conclude_socket]

/-- Nor does a write close anything. -/
theorem bestEffortWrite_keeps (c : Client) (phase : Phase) (data : Str) (size : Nat) (t : Trace D)
    (x : (Client × Bool) × Transfer) (hr : Runs (c.bestEffortWrite phase data size) t x) :
    closed t = [] ∧ x.1.1._socket = c._socket := by
  refine ⟨closed_keeps t (runs_only _ t x (bestEffortWrite_only Call.keeps_transfers c _ _ _) hr),
    ?_⟩
  rw [(bestEffortWrite_reports c phase data size t x hr).2.2.2, conclude_socket]

/-- The end of a call that gives up: the client is closed, and nothing follows. -/
theorem close_last {α : Type} (c c1 : Client) (f : Client → α) (t : Trace D) (x : α)
    (hc : c1._socket = c._socket) (hr : Runs (c1.close.bind fun c2 => .ret (f c2)) t x) :
    ∃ c2, x = f c2 ∧ Lets c t c2 := by
  rcases (runs_bind_iff ..).mp hr with ⟨t1, t2, c2, rfl, h1, h2⟩
  rcases (runs_ret_iff ..).mp h2 with ⟨rfl, rfl⟩
  rw [List.append_nil]
  exact ⟨c2, rfl, close_lets' c c1 c2 t1 hc h1⟩

/-- A request that does not get out may close the socket. One that does leaves it open. -/
theorem writeRequest_lets (c : Client) (d : Dumped) (t : Trace D) (x : Client × Bool)
    (hr : Runs (c.writeRequest d) t x) : Lets c t x.1 ∧ (x.2 = true → closed t = []) := by
  simp only [writeRequest, Prog.bind_def] at hr
  rcases (runs_bind_iff ..).mp hr with ⟨t1, t2, ⟨⟨c1, s1⟩, y⟩, rfl, h1, h2⟩
  rcases bestEffortWrite_keeps c _ _ _ t1 _ h1 with ⟨hkeep, hc1⟩
  cases s1 with
  | false =>
      simp only [Bool.not_false, if_true] at h2
      split at h2
      · -- A part of the header is out: the stream cannot be used any more.
        rcases close_last c c1 _ t2 x hc1 h2 with ⟨c2, rfl, hlets⟩
        exact ⟨lets_behind c c c2 t1 t2 hkeep rfl hlets, fun h => (by cases h)⟩
      · rcases (runs_ret_iff ..).mp h2 with ⟨rfl, rfl⟩
        rw [List.append_nil]
        exact ⟨lets_none c c1 t1 hkeep hc1, fun h => (by cases h)⟩
  | true =>
      simp only [Bool.not_true, Bool.false_eq_true, if_false] at h2
      -- The header is out, and the content follows.
      rcases (runs_bind_iff ..).mp h2 with ⟨t3, t4, ⟨⟨c3, s3⟩, z⟩, rfl, h3, h4⟩
      rcases bestEffortWrite_keeps c1 _ _ _ t3 _ h3 with ⟨hkeep3, hsame⟩
      have hc3 : c3._socket = c._socket := hsame.trans hc1
      have hkeep : closed (t1 ++ t3) = [] := by rw [closed_append, hkeep, hkeep3, List.append_nil]
      rw [← List.append_assoc]
      cases s3 with
      | false =>
          rcases close_last c c3 _ t4 x hc3 h4 with ⟨c5, rfl, hlets⟩
          exact ⟨lets_behind c c c5 (t1 ++ t3) t4 hkeep rfl hlets, fun h => (by cases h)⟩
      | true =>
          rcases (runs_ret_iff ..).mp h4 with ⟨rfl, rfl⟩
          rw [List.append_nil]
          exact ⟨lets_none c c3 _ hkeep hc3, fun _ => hkeep⟩

/-- Only a response that is too long closes the socket here. -/
theorem readContent_lets [DecimalImpl D] (c : Client) (T : Ty) (buf : Str) (t : Trace D)
    (x : Client × Res (Option (T.denote D))) (hr : Runs (c.readContent T buf) t x) :
    Lets c t x.1 := by
  simp only [readContent, Prog.bind_def] at hr
  split at hr
  · rcases close_last c { c with _errno := Errno.ENOMEM } (fun c => (c, Res.ok none)) t x rfl hr
      with ⟨c2, rfl, hlets⟩
    exact hlets
  · rcases (runs_bind_iff ..).mp hr with ⟨t1, t2, ⟨⟨c1, s1⟩, y⟩, rfl, h1, h2⟩
    rcases bestEffortRead_keeps c _ _ _ t1 _ h1 with ⟨hkeep, hc1⟩
    -- All the other ways out come right behind the read.
    have hlast : ∀ c2, c2._socket = c1._socket → t2 = [] → Lets c (t1 ++ t2) c2 := by
      rintro c2 hc2 rfl
      rw [List.append_nil]
      exact lets_none c c2 t1 hkeep (hc2.trans hc1)
    split at h2
    · rcases (runs_ret_iff ..).mp h2 with ⟨ht2, rfl⟩
      exact hlast _ rfl ht2
    split at h2
    · rcases (runs_ret_iff ..).mp h2 with ⟨ht2, rfl⟩
      exact hlast _ rfl ht2
    split at h2
    · rcases (runs_ret_iff ..).mp h2 with ⟨ht2, rfl⟩
      exact hlast _ rfl ht2
    · rcases (runs_ret_iff ..).mp h2 with ⟨ht2, rfl⟩
      exact hlast _ rfl ht2

/-- The header of a response closes nothing, whatever becomes of it. -/
theorem readResponse_lets [DecimalImpl D] (c : Client) (T : Ty) (t : Trace D)
    (x : Client × Res (Option (T.denote D))) (hr : Runs (c.readResponse T) t x) :
    Lets c t x.1 := by
  simp only [readResponse, Prog.bind_def, runs_stack_bind] at hr
  rcases hr with ⟨buf, t0, rfl, hr⟩
  rcases (runs_bind_iff ..).mp hr with ⟨t1, t2, ⟨⟨c1, s1⟩, y⟩, rfl, h1, h2⟩
  rcases bestEffortRead_keeps c _ _ _ t1 _ h1 with ⟨hkeep, hc1⟩
  have hkeep : closed (⟨Call.stack bufSizeOnStack, buf⟩ :: t1) = [] := hkeep
  rw [← List.cons_append]
  split at h2
  · rcases (runs_ret_iff ..).mp h2 with ⟨rfl, rfl⟩
    rw [List.append_nil]
    exact lets_none c c1 _ hkeep hc1
  split at h2
  · rcases (runs_ret_iff ..).mp h2 with ⟨rfl, rfl⟩
    rw [List.append_nil]
    exact lets_none c _ _ hkeep hc1
  · exact lets_behind c c1 x.1 _ t2 hkeep hc1 (readContent_lets c1 T _ t2 x h2)

/-- A call closes its own socket, if any. -/
theorem call_lets [DecimalImpl D] (c c' : Client) (T : Ty) (function : Str)
    (arguments : List (Json D)) (t : Trace D) (r : Res (Option (T.denote D)))
    (hr : Runs (c.call T function arguments) t (c', r)) : Lets c t c' := by
  simp only [call, Prog.bind_def, makeRequest_eq] at hr
  rcases (runs_bind_iff ..).mp hr with ⟨t1, t2, y, rfl, h1, h2⟩
  -- The health check closes nothing.
  have hcheck : closed t1 = [] := closed_keeps t1 (runs_only _ t1 _
    (Health.check_only _ _ _ (fun _ => trivial) (fun _ => trivial) trivial) h1)
  rcases y with f | ⟨h, healthy⟩
  · rcases (runs_ret_iff ..).mp h2 with ⟨rfl, heq⟩
    cases heq
    rw [List.append_nil]
    exact lets_none _ _ t1 hcheck rfl
  cases healthy with
  | false =>
      rcases (runs_ret_iff ..).mp h2 with ⟨rfl, heq⟩
      cases heq
      rw [List.append_nil]
      exact lets_none _ _ t1 hcheck rfl
  | true =>
      simp only [Bool.not_true, Bool.false_eq_true, if_false] at h2
      rcases (runs_bind_iff ..).mp h2 with ⟨t3, t4, ⟨c1, ok⟩, rfl, h3, h4⟩
      rcases writeRequest_lets _ _ t3 _ h3 with ⟨hlets, hok⟩
      cases ok with
      | false =>
          rcases (runs_ret_iff ..).mp h4 with ⟨rfl, heq⟩
          cases heq
          rw [List.append_nil]
          exact lets_behind c _ _ t1 t3 hcheck rfl hlets
      | true =>
          -- A request that got out leaves the socket open.
          have hkeep := hok rfl
          have hc1 : c1._socket = c._socket := by
            rcases hlets with ⟨_, hs⟩ | ⟨_, ht, _⟩
            · exact hs
            · rw [hkeep] at ht
              cases ht
          have hread := readResponse_lets c1 T t4 _ h4
          refine lets_behind c c _ t1 _ hcheck rfl (lets_behind c c1 _ t3 t4 hkeep hc1 hread)

end Client

/-! ## What calls leave -/

namespace Health

/-- What the calls `ts` on the descriptor `fd` can have left, the first of which found
    no record. -/
inductive Left [DecimalImpl D] (fd : Int) : List (Trace D) → Health → Prop
  | opened (h : Health) : h._state = .noRead → Left fd [] h
  | called (ts : List (Trace D)) (c c' : Client) (T : Ty) (function : Str)
      (arguments : List (Json D)) (t : Trace D) (r : Res (Option (T.denote D))) :
      Left fd ts c._health → c._socket = fd → c'._socket = fd →
      Runs (c.call T function arguments) t (c', r) → (∀ f, r ≠ .fault f) →
      Left fd (ts ++ [t]) c'._health

/-- On a new descriptor the health check is content. -/
theorem left_new [DecimalImpl D] (fd : Int) (hfd : 0 ≤ fd) (h : Health)
    (hleft : Left (D := D) fd [] h)
    (t : Trace D) (r : Except Fault (Health × Bool)) (hr : Runs (h.check fd) t r) :
    r = .ok (h, true) := by
  -- The list of calls is empty, so the last step cannot have been one.
  generalize hts : ([] : List (Trace D)) = ts at hleft
  cases hleft with
  | opened h hs =>
      simp only [check, if_neg (not_lt.mpr hfd), if_pos hs] at hr
      exact ((runs_ret_iff ..).mp hr).2
  | called ts => exact absurd hts (by simp)

/-- With a peer that sends no more than it is asked, and no header cut in two, the
    record is where the client stands in the stream. -/
theorem left_aligned [DecimalImpl D] (fd : Int) (hfd : 0 ≤ fd) (ts : List (Trace D)) (h : Health)
    (hleft : Left fd ts h) (hpaced : Paced fd ts.flatten) (hwrite : HeadersWhole ts.flatten)
    (hread : HeadersRead ts.flatten) : Aligned fd ts.flatten h := by
  induction hleft with
  | opened h hs =>
      exact Aligned.ready [] [] hs (fun _ h => absurd h List.not_mem_nil)
        (fun _ h => absurd h List.not_mem_nil) rfl rfl rfl
  | called ts c c' T function arguments t r _ hc hc' hrun hfault ih =>
      rw [List.flatten_append, List.flatten_singleton] at hpaced hwrite hread ⊢
      have ha := ih (paced_initial fd _ _ hpaced (List.prefix_append _ _))
        ((headersWhole_append _ _).mp hwrite).1 ((headersRead_append _ _).mp hread).1
      have hstands := called_aligned fd c c' T _ ts.flatten t r (Or.inr ⟨hc, ha⟩) hpaced
        ((headersWhole_append _ _).mp hwrite).2 ((headersRead_append _ _).mp hread).2 hfault
        (call_runs c c' T function arguments t r hrun)
      -- The call kept its descriptor, so the client was not closed in it.
      rcases hstands with hclosed | ⟨_, hal⟩
      · rw [hc'] at hclosed
        omega
      · exact hal

end Health

/-! ## The invariants -/

namespace Clients

variable {ι : Type} [DecidableEq ι]

/-- A descriptor belongs to one client at most, what belongs to a client is open, and
    nothing is closed that is not open. -/
structure Owned (w : Clients ι D) : Prop where
  unique : ∀ i j c c', w.client i = some c → w.client j = some c' → c._socket ≠ socketInvalid →
    c'._socket = c._socket → i = j
  live : ∀ i c, w.client i = some c → c._socket ≠ socketInvalid →
    0 ≤ c._socket ∧ w.opens c._socket = w.closes c._socket + 1
  balance : ∀ fd, w.closes fd ≤ w.opens fd ∧ w.opens fd ≤ w.closes fd + 1

/-- The record of a client is what the calls on its descriptor have left. -/
def Described [DecimalImpl D] (w : Clients ι D) : Prop :=
  ∀ i c, w.client i = some c → c._socket ≠ socketInvalid →
    Health.Left c._socket (w.calls c._socket) c._health

/-- If the operation is an `init`, it finds no record. -/
def Clean (w : Clients ι D) (op : Op ι) : Prop :=
  ∀ i c, op = .init i → w.client i = some c → c._health._state = .noRead

/-- The steps that operations are made of. -/
inductive Atom [DecimalImpl D] (clean : Prop) (w : Clients ι D) : Clients ι D → Prop
  /-- Descriptors change hands, with their records, or are given up. -/
  | arrange (f : ι → Option Client) (ρ : ι → ι) :
      (∀ i c', f i = some c' → c'._socket ≠ socketInvalid → ∃ c, w.client (ρ i) = some c ∧
        c._socket = c'._socket ∧ c._health = c'._health) →
      (∀ i j c c', f i = some c → f j = some c' → c._socket ≠ socketInvalid →
        c'._socket ≠ socketInvalid → ρ i = ρ j → i = j) →
      Atom clean w { w with client := f }
  /-- A client closes its descriptor. -/
  | shut (i : ι) (c : Client) : w.client i = some c → c._socket ≠ socketInvalid →
      Atom clean w ((w.shut [c._socket]).put i (some { c with _socket := socketInvalid }))
  /-- A client gets a new descriptor. -/
  | opens (i : ι) (c : Client) : 0 ≤ c._socket → w.opens c._socket = w.closes c._socket →
      (clean → c._health._state = .noRead) →
      Atom clean w ((w.socket c._socket).put i (some c))
  /-- A client makes a call and keeps its descriptor. -/
  | use (i : ι) (c c' : Client) (T : Ty) (function : Str) (arguments : List (Json D))
      (t : Trace D) (r : Res (Option (T.denote D))) : w.client i = some c →
      Runs (c.call T function arguments) t (c', r) → (∀ f, r ≠ .fault f) →
      c'._socket = c._socket → Atom clean w ((w.called c._socket t).put i (some c'))
  /-- A call is noted on a descriptor that nobody owns. -/
  | note (fd : Int) (t : Trace D) :
      (∀ i c, w.client i = some c → c._socket ≠ socketInvalid → c._socket ≠ fd) →
      Atom clean w (w.called fd t)

theorem put_self (w : Clients ι D) (i : ι) (x : Option Client) : (w.put i x).client i = x :=
  Function.update_self ..

theorem put_other (w : Clients ι D) (i j : ι) (x : Option Client) (h : j ≠ i) :
    (w.put i x).client j = w.client j := Function.update_of_ne h ..

/-- An object is changed in what is neither its descriptor nor its record, or has none. -/
theorem atom_put [DecimalImpl D] (clean : Prop) (w : Clients ι D) (i : ι) (x : Option Client)
    (h : ∀ c', x = some c' → c'._socket ≠ socketInvalid → ∃ c, w.client i = some c ∧
      c._socket = c'._socket ∧ c._health = c'._health) : Atom clean w (w.put i x) := by
  refine Atom.arrange (Function.update w.client i x) id (fun j c' hj hs => ?_)
    (fun _ _ _ _ _ _ _ _ h => h)
  by_cases hji : j = i
  · subst hji
    rw [Function.update_self] at hj
    exact h c' hj hs
  · rw [Function.update_of_ne hji] at hj
    exact ⟨c', hj, rfl, rfl⟩

/-- The objects behind a `put`. -/
theorem put_cases (w : Clients ι D) (i j : ι) (x : Option Client) (c : Client)
    (h : (w.put i x).client j = some c) : j = i ∧ x = some c ∨ j ≠ i ∧ w.client j = some c := by
  by_cases hji : j = i
  · subst hji
    rw [put_self] at h
    exact Or.inl ⟨rfl, h⟩
  · rw [put_other w i j x hji] at h
    exact Or.inr ⟨hji, h⟩

omit [DecidableEq ι] in
theorem socket_client (w : Clients ι D) (ret : Int) : (w.socket ret).client = w.client := by
  unfold socket
  split <;> rfl

omit [DecidableEq ι] in
theorem socket_closes (w : Clients ι D) (ret : Int) : (w.socket ret).closes = w.closes := by
  unfold socket
  split <;> rfl

omit [DecidableEq ι] in
/-- A new descriptor has been opened once more. -/
theorem socket_opens (w : Clients ι D) (ret : Int) (hret : 0 ≤ ret) (fd : Int) :
    (w.socket ret).opens fd = w.opens fd + if fd = ret then 1 else 0 := by
  have hne : ret ≠ -1 := by omega
  simp only [socket, if_neg hne]
  by_cases h : fd = ret
  · rw [h, Function.update_self, if_pos rfl]
  · rw [Function.update_of_ne h, if_neg h, Nat.add_zero]

omit [DecidableEq ι] in
theorem socket_calls (w : Clients ι D) (ret : Int) (hret : 0 ≤ ret) (fd : Int) :
    (w.socket ret).calls fd = if fd = ret then [] else w.calls fd := by
  have hne : ret ≠ -1 := by omega
  simp only [socket, if_neg hne, Function.update_apply]

/-- Each of the steps keeps descriptors apart. -/
theorem atom_owned [DecimalImpl D] (clean : Prop) (w w' : Clients ι D) (ho : Owned w)
    (h : Atom clean w w') : Owned w' := by
  cases h with
  | arrange f ρ hfrom hinj =>
      refine ⟨fun i j c c' hi hj hs heq => ?_, fun i c hi hs => ?_, ho.balance⟩
      · have hs' : c'._socket ≠ socketInvalid := by rwa [heq]
        rcases hfrom i c hi hs with ⟨d, hd, hds, _⟩
        rcases hfrom j c' hj hs' with ⟨d', hd', hds', _⟩
        -- Two clients with one descriptor had it from the same client, which gave it to
        -- one of them.
        refine hinj i j c c' hi hj hs hs' (ho.unique _ _ d d' hd hd' ?_ ?_)
        · rwa [hds]
        · rw [hds, hds', heq]
      · rcases hfrom i c hi hs with ⟨d, hd, hds, _⟩
        rw [← hds]
        exact ho.live _ d hd (by rwa [hds])
  | shut i c hi hs =>
      -- What is closed was open, and nobody has it now.
      have hlive := ho.live i c hi hs
      refine ⟨fun j k d d' hj hk hds heq => ?_, fun j d hj hds => ?_, fun fd => ?_⟩
      · rcases put_cases _ i j _ d hj with ⟨_, hd⟩ | ⟨_, hj'⟩
        · cases hd
          exact absurd rfl hds
        · rcases put_cases _ i k _ d' hk with ⟨_, hd'⟩ | ⟨_, hk'⟩
          · cases hd'
            exact absurd heq.symm hds
          · exact ho.unique j k d d' hj' hk' hds heq
      · rcases put_cases _ i j _ d hj with ⟨_, hd⟩ | ⟨hji, hj'⟩
        · cases hd
          exact absurd rfl hds
        · have hne : c._socket ≠ d._socket :=
            fun heq => hji (ho.unique i j c d hi hj' hs heq.symm).symm
          have hd := ho.live j d hj' hds
          have hcount : [c._socket].count d._socket = 0 := by
            rw [List.count_singleton, if_neg (by simpa using hne)]
          exact ⟨hd.1, by simp only [put, Clients.shut, hcount]; exact hd.2⟩
      · have hfd := ho.balance fd
        simp only [put, Clients.shut, List.count_singleton]
        by_cases heq : c._socket = fd
        · rw [if_pos (by simpa using heq)]
          rw [heq] at hlive
          omega
        · rw [if_neg (by simpa using heq)]
          exact hfd
  | opens i c hpos hfree _ =>
      -- The kernel gives out only what is not open, and what a client has is open.
      have hnew : ∀ j d, w.client j = some d → d._socket ≠ socketInvalid →
          d._socket ≠ c._socket := by
        intro j d hj hds heq
        have hd := (ho.live j d hj hds).2
        rw [heq, hfree] at hd
        omega
      -- The objects are the old ones, and the one with the new descriptor.
      have hcases : ∀ j d, ((w.socket c._socket).put i (some c)).client j = some d →
          j = i ∧ d = c ∨ j ≠ i ∧ w.client j = some d := by
        intro j d hj
        rcases put_cases _ i j _ d hj with ⟨hji, hd⟩ | ⟨hji, hj'⟩
        · exact Or.inl ⟨hji, (Option.some.inj hd).symm⟩
        · rw [socket_client] at hj'
          exact Or.inr ⟨hji, hj'⟩
      refine ⟨fun j k d d' hj hk hds heq => ?_, fun j d hj hds => ?_, fun fd => ?_⟩
      · rcases hcases j d hj with ⟨hji, rfl⟩ | ⟨_, hj'⟩
        · rcases hcases k d' hk with ⟨hki, _⟩ | ⟨_, hk'⟩
          · rw [hji, hki]
          · exact absurd heq (hnew k d' hk' (by rwa [heq]))
        · rcases hcases k d' hk with ⟨_, rfl⟩ | ⟨_, hk'⟩
          · exact absurd heq.symm (hnew j d hj' hds)
          · exact ho.unique j k d d' hj' hk' hds heq
      · simp only [put, socket_closes, socket_opens w c._socket hpos]
        rcases hcases j d hj with ⟨_, rfl⟩ | ⟨_, hj'⟩
        · rw [if_pos rfl, hfree]
          exact ⟨hpos, rfl⟩
        · rw [if_neg (hnew j d hj' hds)]
          exact ho.live j d hj' hds
      · have hfd := ho.balance fd
        simp only [put, socket_closes, socket_opens w c._socket hpos]
        by_cases heq : fd = c._socket
        · rw [if_pos heq]
          rw [heq] at hfd ⊢
          omega
        · rw [if_neg heq]
          exact hfd
  | use i c c' T function arguments t r hi _ _ hsame =>
      refine ⟨fun j k d d' hj hk hds heq => ?_, fun j d hj hds => ?_, ho.balance⟩
      · rcases put_cases _ i j _ d hj with ⟨hji, hd⟩ | ⟨_, hj'⟩
        · cases hd
          rcases put_cases _ i k _ d' hk with ⟨hki, _⟩ | ⟨_, hk'⟩
          · rw [hji, hki]
          · rw [hji]
            exact ho.unique i k c d' hi hk' (by rwa [← hsame]) (heq.trans hsame)
        · rcases put_cases _ i k _ d' hk with ⟨hki, hd'⟩ | ⟨_, hk'⟩
          · cases hd'
            rw [hki]
            exact ho.unique j i d c hj' hi hds (hsame.symm.trans heq)
          · exact ho.unique j k d d' hj' hk' hds heq
      · rcases put_cases _ i j _ d hj with ⟨_, hd⟩ | ⟨_, hj'⟩
        · cases hd
          rw [hsame]
          exact ho.live i c hi (by rwa [← hsame])
        · exact ho.live j d hj' hds
  | note fd t hnobody => exact ⟨ho.unique, ho.live, ho.balance⟩

/-- Each of the steps keeps the records true, if no `init` finds one. -/
theorem atom_described [DecimalImpl D] (w w' : Clients ι D) (ho : Owned w) (hd : Described w)
    (h : Atom True w w') : Described w' := by
  cases h with
  | arrange f ρ hfrom _ =>
      intro i c hi hs
      rcases hfrom i c hi hs with ⟨d, hdi, hds, hdh⟩
      rw [← hds, ← hdh]
      exact hd _ d hdi (by rwa [hds])
  | shut i c hi hs =>
      intro j d hj hds
      rcases put_cases _ i j _ d hj with ⟨_, heq⟩ | ⟨_, hj'⟩
      · cases heq
        exact absurd rfl hds
      · exact hd j d hj' hds
  | opens i c hpos hfree hclean =>
      intro j d hj hds
      simp only [put, socket_calls w c._socket hpos]
      rcases put_cases _ i j _ d hj with ⟨_, heq⟩ | ⟨_, hj'⟩
      · cases heq
        rw [if_pos rfl]
        exact Health.Left.opened _ (hclean trivial)
      · rw [socket_client] at hj'
        have hne : d._socket ≠ c._socket := by
          intro heq
          -- A new descriptor is free, and what another client holds is not.
          have hlive := (ho.live j d hj' hds).2
          rw [heq, hfree] at hlive
          omega
        rw [if_neg hne]
        exact hd j d hj' hds
  | use i c c' T function arguments t r hi hrun hfault hsame =>
      intro j d hj hds
      simp only [put, called]
      rcases put_cases _ i j _ d hj with ⟨_, heq⟩ | ⟨hji, hj'⟩
      · cases heq
        rw [hsame, Function.update_self]
        exact Health.Left.called _ c c' T function arguments t r (hd i c hi (by rwa [← hsame])) rfl
          hsame hrun hfault
      · -- Two clients with one descriptor are one client.
        have hne : d._socket ≠ c._socket := fun heq =>
          hji (ho.unique j i d c hj' hi hds heq.symm)
        rw [Function.update_of_ne hne]
        exact hd j d hj' hds
  | note fd t hnobody =>
      intro j d hj hds
      simp only [called]
      rw [Function.update_of_ne (hnobody j d hj hds)]
      exact hd j d hj hds

end Clients

/-! ## The operations -/

namespace Client

/-- The destructor closes what there is to close. -/
theorem destroy_closed (c : Client) (t : Trace D) (u : Unit) (hr : Runs c.destroy t u) :
    c._socket = socketInvalid ∧ closed t = [] ∨
      c._socket ≠ socketInvalid ∧ closed t = [c._socket] := by
  simp only [destroy, Prog.bind_def] at hr
  rcases (runs_bind_iff ..).mp hr with ⟨t1, t2, c', rfl, h1, h2⟩
  rcases (runs_ret_iff ..).mp h2 with ⟨rfl, _⟩
  rw [List.append_nil]
  exact (close_lets c c' t1 h1).2

/-- Without a socket there is nothing to destroy. -/
theorem destroy_moved (c : Client) (hc : c._socket = socketInvalid) (t : Trace D) (u : Unit)
    (hr : Runs c.destroy t u) : closed t = [] := by
  rcases destroy_closed c t u hr with ⟨_, ht⟩ | ⟨hs, _⟩
  · exact ht
  · exact absurd hc hs

/-- What `make` makes of the socket it gets. -/
theorem make_runs (token token' : Int32) (ret : Int) (errno : Errno) (t : Trace D)
    (x : Option Client) (hret : ret = -1 ∨ 0 ≤ ret)
    (hr : Runs (make token token' ret errno) t x) :
    closed t = [] ∧ (ret = -1 ∧ x = none ∨
      x = some ⟨ret, noTimedout, 0, token', Health.fresh⟩) := by
  simp only [make, Prog.bind_def] at hr
  split at hr
  · rename_i herr
    -- Only without a socket is there an error behind `init`.
    have hneg : ret = -1 := by
      rcases hret with h | h
      · exact h
      · refine absurd ?_ herr
        simp only [error, init, new, if_neg (not_lt.mpr h)]
    rcases (runs_bind_iff ..).mp hr with ⟨t1, t2, u, rfl, h1, h2⟩
    rcases (runs_ret_iff ..).mp h2 with ⟨rfl, rfl⟩
    rw [List.append_nil]
    exact ⟨destroy_moved _ hneg t1 u h1, Or.inl ⟨hneg, rfl⟩⟩
  · rcases (runs_bind_iff ..).mp hr with ⟨t1, t2, u, rfl, h1, h2⟩
    rcases (runs_ret_iff ..).mp h2 with ⟨rfl, rfl⟩
    rw [List.append_nil]
    exact ⟨destroy_moved _ rfl t1 u h1, Or.inr rfl⟩

/-- What becomes of the socket: there is none, a client has it, or it has been closed again. -/
theorem makeConnected_runs (test : Bool) (token token' : Int32) (ret : Int) (errno : Errno)
    (ret' : Int) (errno' : Errno) (t : Trace D) (x : Option Client) (hret : ret = -1 ∨ 0 ≤ ret)
    (hr : Runs (makeConnected test token token' ret errno ret' errno') t x) :
    (test = false ∨ ret = -1) ∧ x = none ∧ closed t = [] ∨
      test = true ∧ closed t = [] ∧
        (∃ c, x = some c ∧ c._socket = ret ∧ c._health = Health.fresh) ∨
      test = true ∧ 0 ≤ ret ∧ x = none ∧ closed t = [ret] := by
  cases test with
  | false =>
      rcases (runs_ret_iff ..).mp hr with ⟨rfl, rfl⟩
      exact Or.inl ⟨Or.inl rfl, rfl, rfl⟩
  | true =>
      simp only [makeConnected, Bool.not_true, Bool.false_eq_true, if_false, Prog.bind_def] at hr
      rcases (runs_bind_iff ..).mp hr with ⟨t1, t2, opt, rfl, h1, h2⟩
      rcases make_runs token token' ret errno t1 opt hret h1 with ⟨ht1, ⟨hneg, rfl⟩ | rfl⟩
      · -- Without a socket nothing is connected.
        rcases (runs_ret_iff ..).mp h2 with ⟨rfl, rfl⟩
        rw [List.append_nil]
        exact Or.inl ⟨Or.inr hneg, rfl, ht1⟩
      · simp only [connect] at h2
        split at h2
        · -- The connection is refused, and the client is destroyed again.
          rcases (runs_bind_iff ..).mp h2 with ⟨t3, t4, u, rfl, h3, h4⟩
          rcases (runs_ret_iff ..).mp h4 with ⟨rfl, rfl⟩
          rw [List.append_nil, closed_append, ht1, List.nil_append]
          rcases destroy_closed _ t3 u h3 with ⟨hneg, ht3⟩ | ⟨hne, ht3⟩
          · exact Or.inl ⟨Or.inr hneg, rfl, ht3⟩
          · exact Or.inr (Or.inr ⟨rfl, hret.resolve_left hne, rfl, ht3⟩)
        · rcases (runs_ret_iff ..).mp h2 with ⟨rfl, rfl⟩
          rw [List.append_nil]
          exact Or.inr (Or.inl ⟨rfl, ht1, _, rfl, rfl, rfl⟩)

/-- An assignment closes what the target had. -/
theorem assign_runs (c rhs c' rhs' : Client) (token : Int32) (t : Trace D)
    (hr : Runs (c.assign rhs token) t (c', rhs')) :
    (c._socket = socketInvalid ∧ closed t = [] ∨
      c._socket ≠ socketInvalid ∧ closed t = [c._socket]) ∧
      c' = (rhs.move token).1 ∧ rhs' = (rhs.move token).2 := by
  simp only [assign, Prog.bind_def] at hr
  rcases (runs_bind_iff ..).mp hr with ⟨t1, t2, u, rfl, h1, h2⟩
  rcases (runs_ret_iff ..).mp h2 with ⟨rfl, heq⟩
  cases heq
  rw [List.append_nil]
  exact ⟨destroy_closed _ t1 u h1, rfl, rfl⟩

/-- An assignment to itself moves the client away and back, so nothing is closed. -/
theorem assignSelf_runs (c c' : Client) (token : Int32) (t : Trace D)
    (hr : Runs (c.assignSelf token) t c') :
    closed t = [] ∧ c'._socket = c._socket ∧ c'._health = c._health := by
  simp only [assignSelf, Prog.bind_def] at hr
  rcases (runs_bind_iff ..).mp hr with ⟨t1, t2, u, rfl, h1, h2⟩
  rcases (runs_ret_iff ..).mp h2 with ⟨rfl, rfl⟩
  rw [List.append_nil]
  exact ⟨destroy_moved _ rfl t1 u h1, rfl, rfl⟩

end Client

namespace Clients

variable {ι : Type} [DecidableEq ι]

omit [DecidableEq ι] in
theorem shut_nil (w : Clients ι D) : w.shut [] = w := rfl

/-- A client is closed, if it has a descriptor, and what has none takes its place. -/
theorem atoms_shut [DecimalImpl D] (clean : Prop) (w : Clients ι D) (i : ι) (c : Client)
    (x : Option Client) (fds : List Int) (hi : w.client i = some c)
    (hfds : c._socket = socketInvalid ∧ fds = [] ∨ c._socket ≠ socketInvalid ∧ fds = [c._socket])
    (hx : ∀ c', x = some c' → c'._socket = socketInvalid) :
    Relation.ReflTransGen (Atom clean) w ((w.shut fds).put i x) := by
  -- What takes the place of the client has no descriptor.
  have hput : ∀ v : Clients ι D, Atom clean v (v.put i x) := fun v =>
    atom_put clean v i x (fun c' hc' hs => absurd (hx c' hc') hs)
  rcases hfds with ⟨_, rfl⟩ | ⟨hs, rfl⟩
  · exact Relation.ReflTransGen.single (hput w)
  · have hshut : Atom clean w
        ((w.shut [c._socket]).put i (some { c with _socket := socketInvalid })) :=
      Atom.shut i c hi hs
    have hlast := hput ((w.shut [c._socket]).put i (some { c with _socket := socketInvalid }))
    have heq : ((w.shut [c._socket]).put i (some { c with _socket := socketInvalid })).put i x
        = (w.shut [c._socket]).put i x := by
      simp only [put, Function.update_idem]
    rw [heq] at hlast
    exact (Relation.ReflTransGen.single hshut).tail hlast

/-- Two objects exchange what they have, or give it up. -/
theorem atom_exchange [DecimalImpl D] (clean : Prop) (w : Clients ι D) (i j : ι) (x y : Client)
    (hx : x._socket ≠ socketInvalid → ∃ c, w.client j = some c ∧ c._socket = x._socket ∧
      c._health = x._health)
    (hy : y._socket ≠ socketInvalid → ∃ c, w.client i = some c ∧ c._socket = y._socket ∧
      c._health = y._health) : Atom clean w ((w.put i (some x)).put j (some y)) := by
  -- Who has what is given by the exchange of the two names.
  refine Atom.arrange _ (Equiv.swap i j) (fun k c' hk hs => ?_)
    (fun _ _ _ _ _ _ _ _ h => (Equiv.swap i j).injective h)
  have hk : ((w.put i (some x)).put j (some y)).client k = some c' := hk
  rcases put_cases _ j k _ c' hk with ⟨rfl, heq⟩ | ⟨hkj, hk⟩
  · cases heq
    rw [Equiv.swap_apply_right]
    exact hy hs
  · rcases put_cases _ i k _ c' hk with ⟨rfl, heq⟩ | ⟨hki, hk⟩
    · cases heq
      rw [Equiv.swap_apply_left]
      exact hx hs
    · rw [Equiv.swap_apply_of_ne_of_ne hki hkj]
      exact ⟨c', hk, rfl, rfl⟩

/-- An object gets a new socket, or none. -/
theorem atom_socket [DecimalImpl D] (clean : Prop) (w : Clients ι D) (i : ι) (c : Client)
    (hmay : w.MaySocket c._socket) (hclean : clean → c._health._state = .noRead) :
    Atom clean w ((w.socket c._socket).put i (some c)) := by
  rcases hmay with hneg | ⟨hpos, hfree⟩
  · have hsame : w.socket c._socket = w := if_pos hneg
    rw [hsame]
    refine atom_put clean w i _ (fun c' hc' hs => ?_)
    cases hc'
    exact absurd hneg hs
  · exact Atom.opens i c hpos hfree hclean

/-- An object is gone that had no socket. -/
theorem atom_gone [DecimalImpl D] (clean : Prop) (w : Clients ι D) (i : ι) :
    Atom clean w (w.put i none) :=
  atom_put clean w i none (fun _ h => (by cases h))

/-- A call is made of these steps. -/
theorem call_atoms [DecimalImpl D] (clean : Prop) (w : Clients ι D) (ho : Owned w) (i : ι)
    (c c' : Client) (T : Ty) (function : Str) (arguments : List (Json D)) (t : Trace D)
    (r : Res (Option (T.denote D))) (hi : w.client i = some c)
    (hrun : Runs (c.call T function arguments) t (c', r)) (hfault : ∀ f, r ≠ .fault f) :
    Relation.ReflTransGen (Atom clean) w
      (((w.called c._socket t).shut (closed t)).put i (some c')) := by
  rcases call_lets c c' T function arguments t r hrun with ⟨ht, hsame⟩ | ⟨hs, ht, hnone⟩
  · rw [ht, shut_nil]
    by_cases hs : c._socket = socketInvalid
    · have hnote : Atom clean w (w.called c._socket t) :=
        Atom.note _ t (fun j d _ hds => by rwa [hs])
      refine (Relation.ReflTransGen.single hnote).tail (atom_put clean _ i _ (fun d hd hds => ?_))
      cases hd
      exact absurd (hsame.trans hs) hds
    · exact Relation.ReflTransGen.single
        (Atom.use i c c' T function arguments t r hi hrun hfault hsame)
  · have hshut := atoms_shut clean w i c (some c') [c._socket] hi (Or.inr ⟨hs, rfl⟩)
      (fun d hd => by cases hd; exact hnone)
    rw [ht]
    refine hshut.tail (Atom.note c._socket t (fun j d hj hds heq => ?_))
    -- Nobody else had the descriptor.
    rcases put_cases _ i j _ d hj with ⟨_, hd⟩ | ⟨hji, hj'⟩
    · cases hd
      exact hds hnone
    · exact hji (ho.unique i j c d hi hj' hs heq).symm

/-- Every operation is made of these steps. -/
theorem step_atoms [DecimalImpl D] (w w' : Clients ι D) (op : Op ι) (ho : Owned w)
    (h : Step w op w') : Relation.ReflTransGen (Atom (Clean w op)) w w' := by
  cases h with
  | construct i token _ =>
      -- A default constructed client has no descriptor.
      refine Relation.ReflTransGen.single (atom_put _ w i _ (fun c hc hs => ?_))
      cases hc
      exact absurd rfl hs
  | make i token token' ret errno t x _ hmay hrun =>
      rcases make_runs token token' ret errno t x (hmay.imp id And.left) hrun with
        ⟨ht, ⟨rfl, rfl⟩ | rfl⟩
      · -- The object is destroyed again where `socket` failed: nothing was opened.
        rw [ht, shut_nil]
        exact Relation.ReflTransGen.single (atom_gone _ w i)
      · rw [ht, shut_nil]
        exact Relation.ReflTransGen.single
          (atom_socket _ w i ⟨ret, noTimedout, 0, token', Health.fresh⟩ hmay (fun _ => rfl))
  | makeConnected i test token token' ret errno ret' errno' t x _ hmay hrun =>
      rcases makeConnected_runs test token token' ret errno ret' errno' t x (hmay.imp id And.left)
        hrun with ⟨hno, rfl, ht⟩ | ⟨rfl, ht, c, rfl, rfl, hfresh⟩ | ⟨rfl, hpos, rfl, ht⟩
      · have hsame : (if test = true then w.socket ret else w) = w := by
          rcases hno with rfl | rfl
          · rfl
          · exact ite_self w
        rw [hsame, ht, shut_nil]
        exact Relation.ReflTransGen.single (atom_gone _ w i)
      · rw [if_pos rfl, ht, shut_nil]
        refine Relation.ReflTransGen.single (atom_socket _ w i c hmay (fun _ => ?_))
        rw [hfresh]
        rfl
      · -- The socket is opened, and closed again because the connection is refused.
        have hopen := atom_socket (Clean w (.makeConnected i)) w i
          ⟨ret, noTimedout, 0, token', Health.fresh⟩ hmay (fun _ => rfl)
        have hne : ret ≠ socketInvalid := by
          have hinv : socketInvalid = -1 := rfl
          omega
        have hshut := atoms_shut (Clean w (.makeConnected i))
          ((w.socket ret).put i (some ⟨ret, noTimedout, 0, token', Health.fresh⟩)) i
          ⟨ret, noTimedout, 0, token', Health.fresh⟩ none [ret] (put_self _ i _)
          (Or.inr ⟨hne, rfl⟩) (fun _ h => (by cases h))
        have heq : (((w.socket ret).put i (some ⟨ret, noTimedout, 0, token', Health.fresh⟩)).shut
            [ret]).put i none = ((w.socket ret).shut [ret]).put i none := by
          simp only [put, Clients.shut, Function.update_idem]
        rw [if_pos rfl, ht, ← heq]
        exact (Relation.ReflTransGen.single hopen).trans hshut
  | init i c ret errno hi hmay =>
      refine Relation.ReflTransGen.single
        (atom_socket _ w i (c.init ret errno) hmay (fun hclean => ?_))
      -- `init` leaves the health as it was. That fits a new socket only if nothing was owed.
      exact hclean i c rfl hi
  | connect i c ret errno hi =>
      refine Relation.ReflTransGen.single (atom_put _ w i _ (fun c' hc' _ => ⟨c, hi, ?_⟩))
      cases hc'
      unfold connect
      split <;> exact ⟨rfl, rfl⟩
  | setTimeout i c timeout hi =>
      refine Relation.ReflTransGen.single (atom_put _ w i _ (fun c' hc' _ => ⟨c, hi, ?_⟩))
      cases hc'
      exact ⟨rfl, rfl⟩
  | error i c hi =>
      refine Relation.ReflTransGen.single (atom_put _ w i _ (fun c' hc' _ => ⟨c, hi, ?_⟩))
      cases hc'
      exact ⟨rfl, rfl⟩
  | call i c c' T function arguments t r hi hrun hfault =>
      exact call_atoms _ w ho i c c' T function arguments t r hi hrun hfault
  | close i c c' t hi hrun =>
      -- `close` marks the object, whether or not it had a descriptor to give back.
      rcases close_lets c c' t hrun with ⟨rfl, hfds⟩
      refine atoms_shut _ w i c _ _ hi hfds (fun d hd => ?_)
      cases hd
      rfl
  | move i j rhs token hi hj =>
      -- The source is left with `socketInvalid`, so it keeps no claim to the descriptor.
      exact Relation.ReflTransGen.single (atom_exchange _ w i j _ _
        (fun _ => ⟨rhs, hj, rfl, rfl⟩) (fun hs => absurd rfl hs))
  | assign i j c rhs c' rhs' token t hij hi hj hrun =>
      rcases assign_runs c rhs c' rhs' token t hrun with ⟨hfds, rfl, rfl⟩
      -- The target is destroyed first. What it had is closed before it takes the other's.
      have hshut := atoms_shut (Clean w (.assign i j)) w i c
        (some { c with _socket := socketInvalid }) _ hi hfds (fun d hd => by cases hd; rfl)
      have hlast := atom_exchange (Clean w (.assign i j))
        ((w.shut (closed t)).put i (some { c with _socket := socketInvalid })) i j
        (rhs.move token).1 (rhs.move token).2
        (fun _ => ⟨rhs, by rw [put_other _ _ _ _ hij.symm]; exact hj, rfl, rfl⟩)
        (fun hs => absurd rfl hs)
      have heq : ((w.shut (closed t)).put i (some { c with _socket := socketInvalid })).put i
          (some (rhs.move token).1) = (w.shut (closed t)).put i (some (rhs.move token).1) := by
        simp only [put, Function.update_idem]
      rw [heq] at hlast
      exact hshut.tail hlast
  | assignSelf i c c' token t hi hrun =>
      rcases assignSelf_runs c c' token t hrun with ⟨ht, hs, hh⟩
      rw [ht, shut_nil]
      refine Relation.ReflTransGen.single (atom_put _ w i _ (fun d hd _ => ⟨c, hi, ?_⟩))
      cases hd
      exact ⟨hs.symm, hh.symm⟩
  | swap i j c that hi hj =>
      exact Relation.ReflTransGen.single (atom_exchange _ w i j _ _
        (fun _ => ⟨that, hj, rfl, rfl⟩) (fun _ => ⟨c, hi, rfl, rfl⟩))
  | destroy i c t u hi hrun =>
      exact atoms_shut _ w i c none _ hi (destroy_closed c t u hrun) (fun _ h => (by cases h))

omit [DecidableEq ι] in
theorem owned_initial : Owned (initial : Clients ι D) :=
  ⟨fun _ _ _ _ h => (by cases h), fun _ _ h => (by cases h), fun _ => ⟨le_rfl, Nat.zero_le _⟩⟩

/-- Operations are made of the steps, so they keep descriptors apart. -/
theorem step_owned [DecimalImpl D] (w : Clients ι D) (op : Op ι) (w' : Clients ι D) (ho : Owned w)
    (h : Step w op w') : Owned w' := by
  have hatoms := step_atoms w w' op ho h
  clear h
  induction hatoms with
  | refl => exact ho
  | tail _ hlast ih => exact atom_owned _ _ _ ih hlast

/-- And records true, on the same condition. -/
theorem step_described [DecimalImpl D] (w : Clients ι D) (op : Op ι) (w' : Clients ι D)
    (ho : Owned w) (hd : Described w) (h : Step w op w') (hclean : Clean w op) : Described w' := by
  have hatoms := step_atoms w w' op ho h
  rw [eq_true hclean] at hatoms
  have hboth : Owned w' ∧ Described w' := by
    clear h hclean
    induction hatoms with
    | refl => exact ⟨ho, hd⟩
    | tail _ hlast ih => exact ⟨atom_owned _ _ _ ih.1 hlast, atom_described _ _ ih.1 ih.2 hlast⟩
  exact hboth.2

/-- Whatever a program does with its clients, a descriptor belongs to one of them at
    most, and is closed at most once for each time it is opened. If no `init` finds a
    record in its client, the record of a client is what the calls on its descriptor
    have left since that was opened: none, where there were no calls, and the place in
    the stream, as far as a record can tell it. -/
theorem clients_own [DecimalImpl D] (w : Clients ι D) (ops : List (Op ι))
    (h : Steps Step initial ops w) :
    ((∀ i j c c', w.client i = some c → w.client j = some c' → c._socket ≠ socketInvalid →
        c'._socket = c._socket → i = j) ∧
      ∀ fd, w.closes fd ≤ w.opens fd ∧ w.opens fd ≤ w.closes fd + 1) ∧
    (Steps (Guarded Step Clean) initial ops w →
      ∀ i c, w.client i = some c → c._socket ≠ socketInvalid →
        Health.Left c._socket (w.calls c._socket) c._health ∧
        (w.calls c._socket = [] → ∀ t r, Runs (c._health.check (D := D) c._socket) t r →
          r = .ok (c._health, true)) ∧
        (Paced c._socket (w.calls c._socket).flatten →
          HeadersWhole (w.calls c._socket).flatten → HeadersRead (w.calls c._socket).flatten →
          Health.Aligned c._socket (w.calls c._socket).flatten c._health)) := by
  -- Ownership in every run, and the records in those that are clean.
  have ho := steps_invariant Owned step_owned _ w ops h owned_initial
  refine ⟨⟨ho.unique, ho.balance⟩, fun hguard i c hi hs => ?_⟩
  have hboth := guarded_invariant Clean Owned Described step_owned step_described _ w ops hguard
    owned_initial (fun _ _ h => (by cases h))
  have hleft := hboth.2 i c hi hs
  have hpos := (ho.live i c hi hs).1
  refine ⟨hleft, fun hnew t r hr => ?_, fun hpaced hwrite hread => ?_⟩
  · rw [hnew] at hleft
    exact Health.left_new c._socket hpos c._health hleft t r hr
  · exact Health.left_aligned c._socket hpos _ _ hleft hpaced hwrite hread

/-- One client with a new socket. -/
def opened : Clients Unit Unit :=
  ((initial.put () (some (Client.new 0))).socket 3).put () (some ((Client.new 0).init 3 0))

/-- It is made and opened. -/
theorem opened_steps : Steps (Guarded Step Clean) initial [.construct (), .init ()] opened := by
  refine Steps.cons _ _ _ _ _ ⟨Step.construct _ () 0 rfl, fun i c h => (by cases h)⟩
    (Steps.cons _ _ _ _ _ ⟨Step.init _ () _ 3 0 rfl (Or.inr ⟨by decide, rfl⟩), ?_⟩ (Steps.refl _))
  intro i c _ hi
  cases hi
  rfl

/-- Its health check asks for nothing. -/
theorem clients_own_opened :
    (drive Network.reply (Network.carrying []) (Health.fresh.check (D := Unit) 3)).2
      = .ok (Health.fresh, true) :=
  (((clients_own opened _ (steps_of_guarded Clean _ _ _ opened_steps)).2 opened_steps () _ rfl
    (by decide)).2.1 rfl _ _ (runs_drive Network.reply _ _))

/-- A call of a client in a network which takes its request and gives no response. -/
def hungOn (c : Client) : Trace Unit × (Client × Res (Option Int32)) :=
  drive Network.reply ⟨[], [1, 1], -1, 16384, fun _ _ => .error (.std "none")⟩
    (c.call .int (text "f") [])

theorem hungOn_runs (c : Client) : Runs (c.call .int (text "f") []) (hungOn c).1
    ((hungOn c).2.1, (hungOn c).2.2) := runs_drive Network.reply _ _

/-- The client is closed. -/
def hungUp (c : Client) : Trace Unit × Client :=
  drive Network.reply (Network.carrying []) c.close

theorem hungUp_runs (c : Client) : Runs c.close (hungUp c).1 (hungUp c).2 :=
  runs_drive Network.reply _ _

def waiting : Client := (hungOn ((Client.new 0).init 3 0)).2.1

/-- The client makes that call, is closed, and gets a new socket of the same number. -/
def reopened : Clients Unit Unit :=
  ((((((opened.called 3 (hungOn ((Client.new 0).init 3 0)).1).shut
      (closed (hungOn ((Client.new 0).init 3 0)).1)).put () (some waiting)).shut
    (closed (hungUp waiting).1)).put () (some (hungUp waiting).2)).socket 3).put ()
      (some ((hungUp waiting).2.init 3 0))

/-- The operations that lead there. -/
theorem reopened_steps :
    Steps Step initial [.construct (), .init (), .call (), .close (), .init ()] reopened := by
  have hnone : (hungOn ((Client.new 0).init 3 0)).2.2 = .ok none := by decide +kernel
  refine Steps.cons _ _ _ _ _ (Step.construct _ () 0 rfl)
    (Steps.cons _ _ _ _ _ (Step.init _ () _ 3 0 rfl (Or.inr ⟨by decide, rfl⟩))
      (Steps.cons _ _ _ _ _
        (Step.call _ () ((Client.new 0).init 3 0) waiting .int (text "f") [] _ _ rfl
        (hungOn_runs _) ?_)
        (Steps.cons _ _ _ _ _ (Step.close _ () waiting _ _ (put_self _ _ _) (hungUp_runs _))
          (Steps.cons _ _ _ _ _
            (Step.init _ () (hungUp waiting).2 3 0 (put_self _ _ _)
              (Or.inr ⟨by decide, by decide +kernel⟩))
            (Steps.refl _)))))
  intro f hf
  cases hnone.symm.trans hf

/-- No byte has passed on the new socket, and the health check refuses it. -/
theorem clients_stale :
    ¬ ∀ (ops : List (Op Unit)) (w : Clients Unit Unit), Steps Step initial ops w →
      ∀ c, w.client () = some c → c._socket ≠ socketInvalid → w.calls c._socket = [] →
        ∀ t r, Runs (c._health.check (D := Unit) c._socket) t r → r = .ok (c._health, true) := by
  intro h
  have hcheck := h _ reopened reopened_steps ((hungUp waiting).2.init 3 0) (put_self _ _ _)
    (by decide +kernel) (by decide +kernel) _ _ (runs_drive Network.reply (Network.carrying []) _)
  exact absurd hcheck (by decide +kernel)

end Clients

end Trpc
