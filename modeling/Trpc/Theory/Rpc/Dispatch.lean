import Trpc.Theory.Rpc.Requests

/-!
# How Calls Are Classified

What a request is answered: that there is no such function, that the parameters
do not suit it, or what the function has returned or thrown. The answer is put
together far from the place where things go wrong. `dispatch` compares the number
of arguments itself and throws the error for wrong parameters; that `params` is no
array, or that an element does not convert, is found by the accessors of `Json`,
which throw `std::runtime_error`, and the last `catch` clause takes that for an
error inside the function.

`respond` is the part of a turn in question, from the decoded request to the end
of the `try` block.

## Main definitions

* `respond`, `Server.deliver`: The response to a request, and what is done with it.
* `Converted`, `Suits`: Arguments that suit a function.
* `Classified`: The response is of the right kind.

## Theorems

* `answer_respond`: A turn answers with `respond`.
* `unpack_cases`: Taking the arguments apart.
* `respond_classified_iff`: When a response is of the right kind.
-/

namespace Trpc

open Vsjson Interaction

variable {D : Type}

/-- The part of a turn from the request up to the end of the `try` block. -/
def respond [DecimalImpl D] (table : Table) (request : Json D) : Proc D (Res (Json D)) :=
  match makeEmptyResponse request with
  | .throw e => return .throw e
  | .fault f => return .fault f
  | .ok (response, request) =>
    match prepareNetCall request with
    | .throw e => return .throw e
    | .fault f => return .fault f
    | .ok (method, args) => do
      let outcome ← netCall table method args
      return settle response outcome

/-- What a turn does with the response. -/
def Server.deliver [DecimalImpl D] (s : Server) (peer : Int) :
    Res (Json D) → Proc D (Option Exit)
  | .throw e => .ret (some (.threw e))
  | .fault f => .ret (some (.fault f))
  | .ok response => s.reply peer response

/-- A turn shows the request to the callback, makes a response, and sends it. -/
theorem answer_respond [DecimalImpl D] (s : Server) (peer : Int) (request : Json D) :
    s.answer peer request = (s.onRequest request).bind fun x =>
      if !x.1 then .ret none else (respond s._table x.2).bind (s.deliver peer) := by
  unfold Server.answer respond
  simp only [Prog.bind_def, Prog.pure_def]
  congr 1
  funext x
  split
  · rfl
  · cases makeEmptyResponse x.2 with
    | throw e => rfl
    | fault f => rfl
    | ok y =>
        simp only
        cases prepareNetCall y.2 with
        | throw e => rfl
        | fault f => rfl
        | ok z =>
            refine Eq.trans ?_ (Prog.bind_assoc _ _ _).symm
            rfl

/-! ## Arguments -/

/-- The elements of an array, converted one by one, in order. -/
inductive Converted [DecimalImpl D] : (Ts : List Ty) → List (Json D) → Args D Ts → Prop
  | nil : Converted [] [] ()
  | cons (T : Ty) (Ts : List Ty) (j : Json D) (js : List (Json D)) (v : T.denote D)
      (vs : Args D Ts) :
      Json.implicitly T j = some v → Converted Ts js vs → Converted (T :: Ts) (j :: js) (v, vs)

/-- `params` is an array of as many elements as the function has parameters, and each
    converts to the type of its parameter. -/
def Suits [DecimalImpl D] (sig : Signature) (args : Json D) : Prop :=
  ∃ js tuple, args = .array js ∧ Converted sig.params js tuple

/-- `params` is an array of another length. -/
def Mismatched (sig : Signature) (args : Json D) : Prop :=
  ∃ js, args = .array js ∧ sig.params.length ≠ js.length

theorem converted_length [DecimalImpl D] (Ts : List Ty) (js : List (Json D)) (vs : Args D Ts)
    (h : Converted Ts js vs) : Ts.length = js.length := by
  induction h with
  | nil => rfl
  | cons T Ts j js v vs _ _ ih => rw [List.length_cons, List.length_cons, ih]

/-- A list of the right length is converted, or the first element that does not
    convert is complained about. -/
theorem makeArgs_cases [DecimalImpl D] (Ts : List Ty) : ∀ js : List (Json D),
    Ts.length = js.length →
      (∃ vs, makeArgs Ts js = .ok vs ∧ Converted Ts js vs) ∨
        ((∃ what, makeArgs Ts js = .throw (.std what)) ∧ ∀ vs, ¬ Converted Ts js vs) := by
  induction Ts with
  | nil =>
      intro js hlen
      rw [List.eq_nil_of_length_eq_zero hlen.symm]
      exact Or.inl ⟨(), rfl, Converted.nil⟩
  | cons T Ts ih =>
      intro js hlen
      cases js with
      | nil => cases hlen
      | cons j js =>
          cases hv : Json.implicitly T j with
          | none =>
              -- The first that does not convert throws, whatever stands behind it.
              refine Or.inr ⟨⟨"[type]" ++ j.typeName ++ " does not support moved convert to [type]"
                ++ T.name, ?_⟩, fun vs h => ?_⟩
              · simp only [makeArgs, Json.movedConvert, hv, Res.bind_def, Res.throw_bind,
                  Json.cannotConvert]
                rfl
              · cases h with
                | cons _ _ _ _ v vs hconv _ =>
                    rw [hv] at hconv
                    cases hconv
          | some v =>
              -- This one converts, and it is up to the others.
              have hmake : makeArgs (T :: Ts) (j :: js)
                  = (makeArgs Ts js).bind fun vs => .ok ((v, vs) : Args D (T :: Ts)) := by
                simp only [makeArgs, Json.movedConvert, hv, Res.bind_def, Res.ok_bind, Res.pure_def]
                rfl
              rw [hmake]
              rcases ih js (Nat.succ.inj hlen) with ⟨vs, hok, hconv⟩ | ⟨⟨what, hthrow⟩, hnone⟩
              · exact Or.inl ⟨(v, vs), by rw [hok]; rfl, Converted.cons T Ts j js v vs hv hconv⟩
              · refine Or.inr ⟨⟨what, by rw [hthrow]; rfl⟩, fun vs h => ?_⟩
                cases h with
                | cons _ _ _ _ v vs _ hconv => exact hnone vs hconv

/-- Taking the arguments out of `params`: only a wrong number of them is reported as
    such. -/
theorem unpack_cases [DecimalImpl D] (sig : Signature) (args : Json D) :
    (∃ js tuple, args = .array js ∧ Converted sig.params js tuple ∧ unpack sig args = .ok tuple) ∨
      (Mismatched sig args ∧ unpack sig args
        = .throw (.protocol Attribute.invalidParamsCode Attribute.invalidParams)) ∨
      (¬ Suits sig args ∧ ¬ Mismatched sig args ∧
        ∃ what, unpack sig args = .throw (.std what)) := by
  by_cases harray : ∃ js, args = .array js
  · rcases harray with ⟨js, rfl⟩
    have hunpack : unpack sig (Json.array js) = if sig.params.length ≠ js.length then
        .throw (.protocol Attribute.invalidParamsCode Attribute.invalidParams)
        else makeArgs sig.params js := rfl
    by_cases hlen : sig.params.length = js.length
    · -- As many elements as parameters, and each has to convert.
      rw [hunpack, if_neg (not_not.mpr hlen)]
      rcases makeArgs_cases sig.params js hlen with ⟨tuple, hok, hconv⟩ | ⟨hthrow, hnone⟩
      · exact Or.inl ⟨js, tuple, rfl, hconv, hok⟩
      · refine Or.inr (Or.inr ⟨?_, ?_, hthrow⟩)
        · rintro ⟨js', tuple, heq, hconv⟩
          cases heq
          exact hnone tuple hconv
        · rintro ⟨js', heq, hne⟩
          cases heq
          exact hne hlen
    · -- The length is compared before anything is converted.
      rw [hunpack, if_pos hlen]
      exact Or.inr (Or.inl ⟨⟨js, rfl, hlen⟩, rfl⟩)
  · -- Parameters that are no array are not counted.
    have hthrow : unpack sig args = .throw Json.cannotCast := by
      cases args with
      | array js => exact absurd ⟨js, rfl⟩ harray
      | _ => rfl
    refine Or.inr (Or.inr ⟨?_, ?_, _, hthrow⟩)
    · rintro ⟨js, _, rfl, _⟩
      exact harray ⟨js, rfl⟩
    · rintro ⟨js, rfl, _⟩
      exact harray ⟨js, rfl⟩

theorem unpack_ok [DecimalImpl D] (sig : Signature) (args : Json D) (tuple : Args D sig.params)
    (h : unpack sig args = .ok tuple) : ∃ js, args = .array js ∧ Converted sig.params js tuple := by
  rcases unpack_cases sig args with ⟨js, tuple', hargs, hconv, hok⟩ | ⟨_, hthrow⟩ |
    ⟨_, _, _, hthrow⟩
  · rw [h] at hok
    cases hok
    exact ⟨js, hargs, hconv⟩
  · rw [h] at hthrow
    cases hthrow
  · rw [h] at hthrow
    cases hthrow

/-- Parameters of another number do not suit. -/
theorem not_suits_of_mismatched [DecimalImpl D] (sig : Signature) (args : Json D)
    (h : Mismatched sig args) : ¬ Suits sig args := by
  rintro ⟨js, tuple, rfl, hconv⟩
  rcases h with ⟨js', heq, hne⟩
  cases heq
  exact hne (converted_length sig.params js tuple hconv)

/-! ## The response -/

/-- The code of the error that a response reports. -/
def errorCode : Json D → Option Int32
  | .object members =>
    match SortedMap.lookup Field.error members with
    | some (.object e) =>
      match SortedMap.lookup Field.code e with
      | some (.integer code) => some code
      | _ => none
    | _ => none
  | _ => none

theorem errorCode_errorResponse (id code : Int32) (message : Str) :
    errorCode (errorResponse id code message : Json D) = some code := by
  cases message with
  | nil => rfl
  | cons c s => rfl

theorem errorCode_resultResponse (id : Int32) (result : Json D) :
    errorCode (resultResponse id result) = none := rfl

/-- The response to a call of `method` with `params` `args` is of the right kind: it
    reports that there is no such function exactly if there is none, wrong parameters
    exactly if they do not suit, and otherwise what one call of the function with the
    converted elements came to. Nothing is called in the first two cases. -/
structure Classified [DecimalImpl D] (table : Table) (id : Int32) (method : Str) (args : Json D)
    (t : Trace D) (response : Json D) : Prop where
  notFound : errorCode response = some Attribute.methodNotFoundCode ↔ table method = none
  invalidParams : errorCode response = some Attribute.invalidParamsCode ↔
    ∃ sig, table method = some sig ∧ ¬ Suits sig args
  invoked : ∀ sig, table method = some sig → Suits sig args →
    ∃ js tuple reply, args = .array js ∧ Converted sig.params js tuple ∧
      invocations t = [⟨method, sig, tuple, reply⟩] ∧
      (∀ v, reply = .ok v → response = resultResponse id (sig.wrap v)) ∧
      ∀ what, reply = .error (.std what) →
        errorCode response = some Attribute.internalErrorCode
  alone : (∀ sig, table method = some sig → ¬ Suits sig args) → invocations t = []

/-- What `respond` makes of a request, in terms of the call. -/
theorem respond_runs [DecimalImpl D] (table : Table) (j : Json D) (id : Int32) (method : Str)
    (args : Json D) (t : Trace D) (r : Res (Json D)) (hreq : IsRequest j id method args)
    (hr : Runs (respond table j) t r) :
    ∃ outcome, NetCalled table method args t outcome ∧ r = .ok (settled id outcome) := by
  rcases hreq with ⟨ms, rfl, hid, hmethod, rfl⟩
  -- The empty response takes the id out of the request, and the rest stays.
  have hempty : makeEmptyResponse (Json.object ms) = .ok (emptyResponse id, .object ms) := by
    rw [makeEmptyResponse_object ms _ hid]
    rfl
  simp only [respond, hempty, prepareNetCall_object ms method hmethod, Prog.bind_def] at hr
  rcases (runs_bind_iff ..).mp hr with ⟨t1, t2, outcome, rfl, h1, h2⟩
  have hnet := netCall_runs _ _ _ t1 outcome h1
  rw [settle_empty _ _ _ id t1 outcome hnet] at h2
  rcases (runs_ret_iff ..).mp h2 with ⟨rfl, rfl⟩
  rw [List.append_nil]
  exact ⟨outcome, hnet, rfl⟩

/-- What is left to show of a function that is not there. -/
theorem classified_unbound [DecimalImpl D] (table : Table) (id : Int32) (method : Str)
    (args : Json D) (t : Trace D) (hnone : table method = none) (hquiet : invocations t = []) :
    Classified table id method args t
      (errorResponse id Attribute.methodNotFoundCode Attribute.methodNotFound) := by
  have hcode := errorCode_errorResponse (D := D) id Attribute.methodNotFoundCode
    Attribute.methodNotFound
  have hsome : ∀ sig, table method ≠ some sig := fun sig hsig => by
    rw [hnone] at hsig
    cases hsig
  refine ⟨⟨fun _ => hnone, fun _ => hcode⟩, ⟨fun h => ?_,
    fun ⟨sig, hsig, _⟩ => absurd hsig (hsome sig)⟩,
    fun sig hsig => absurd hsig (hsome sig), fun _ => hquiet⟩
  -- The two codes are different.
  rw [hcode] at h
  exact absurd (Option.some.inj h) (by decide)

/-- And of one that is there, if its parameters do not suit. -/
theorem classified_unsuited_iff [DecimalImpl D] (table : Table) (id : Int32) (method : Str)
    (args : Json D) (t : Trace D) (sig : Signature) (code : Int32) (message : Str)
    (hsig : table method = some sig) (hnot : ¬ Suits sig args) (hquiet : invocations t = [])
    (hcode : code ≠ Attribute.methodNotFoundCode) :
    Classified table id method args t (errorResponse id code message) ↔
      code = Attribute.invalidParamsCode := by
  have hresp := errorCode_errorResponse (D := D) id code message
  constructor
  · intro h
    -- The code must be that of wrong parameters, since they are wrong.
    have hinvalid := h.invalidParams.mpr ⟨sig, hsig, hnot⟩
    rw [hresp] at hinvalid
    exact Option.some.inj hinvalid
  · rintro rfl
    refine ⟨⟨fun h => ?_, fun h => ?_⟩, ⟨fun _ => ⟨sig, hsig, hnot⟩, fun _ => hresp⟩,
      fun sig' hsig' hsuits => ?_, fun _ => hquiet⟩
    · rw [hresp] at h
      exact absurd (Option.some.inj h) hcode
    · rw [hsig] at h
      cases h
    · rw [hsig] at hsig'
      -- The table has one function under the name.
      cases hsig'
      exact absurd hsuits hnot

/-- And if they do, and it has been called. -/
theorem classified_invoked_iff [DecimalImpl D] (table : Table) (id : Int32) (method : Str)
    (t : Trace D) (sig : Signature) (js : List (Json D)) (tuple : Args D sig.params)
    (reply : Except Exn (sig.Result D)) (response : Json D) (hsig : table method = some sig)
    (hconv : Converted sig.params js tuple) (honce : invocations t = [⟨method, sig, tuple, reply⟩])
    (hresult : ∀ v, reply = .ok v → response = resultResponse id (sig.wrap v))
    (hstd : ∀ what, reply = .error (.std what) →
      errorCode response = some Attribute.internalErrorCode) :
    Classified table id method (.array js) t response ↔
      errorCode response ≠ some Attribute.methodNotFoundCode ∧
        errorCode response ≠ some Attribute.invalidParamsCode := by
  have hsuits : Suits sig (.array js) := ⟨js, tuple, rfl, hconv⟩
  constructor
  · intro h
    refine ⟨fun hcode => ?_, fun hcode => ?_⟩
    · -- A bound function that was called answers with neither of the two codes.
      have hnone := h.notFound.mp hcode
      rw [hsig] at hnone
      cases hnone
    · rcases h.invalidParams.mp hcode with ⟨sig', hsig', hnot⟩
      rw [hsig] at hsig'
      cases hsig'
      exact hnot hsuits
  · -- The response has neither code, and the call is the one that was made.
    rintro ⟨hfound, hvalid⟩
    refine ⟨⟨fun h => absurd h hfound, fun h => ?_⟩, ⟨fun h => absurd h hvalid, ?_⟩,
      fun sig' hsig' _ => ?_, fun h => absurd hsuits (h sig hsig)⟩
    · rw [hsig] at h
      cases h
    · rintro ⟨sig', hsig', hnot⟩
      rw [hsig] at hsig'
      cases hsig'
      exact absurd hsuits hnot
    · rw [hsig] at hsig'
      cases hsig'
      exact ⟨js, tuple, reply, rfl, hconv, honce, hresult, hstd⟩

/-- The function has not thrown one of the two errors of the dispatch itself. -/
def Discreet (t : Trace D) : Prop :=
  ∀ x ∈ invocations t, ∀ code message, x.reply = .error (.protocol code message) →
    code ≠ Attribute.methodNotFoundCode ∧ code ≠ Attribute.invalidParamsCode

/-- A request is answered with the right kind of response exactly if there is no such
    function, or `params` is an array and, where its length is right, its elements
    convert, and the function does not throw the errors of the dispatch. -/
theorem respond_classified_iff [DecimalImpl D] (table : Table) (j : Json D) (id : Int32)
    (method : Str) (args : Json D) (t : Trace D) (r : Res (Json D))
    (hreq : IsRequest j id method args) (hr : Runs (respond table j) t r) :
    ∃ response, r = .ok response ∧ (Classified table id method args t response ↔
      (∀ sig, table method = some sig → Suits sig args ∨ Mismatched sig args) ∧ Discreet t) := by
  rcases respond_runs table j id method args t r hreq hr with ⟨outcome, hnet, rfl⟩
  refine ⟨_, rfl, ?_⟩
  -- A run without a call is discreet.
  have hdiscreet : ∀ u : Trace D, invocations u = [] → Discreet u := by
    intro u hu x hx
    rw [hu] at hx
    exact absurd hx List.not_mem_nil
  cases hnet with
  | unbound hnone =>
      refine ⟨fun _ => ⟨fun sig hsig => ?_, hdiscreet _ rfl⟩, fun _ =>
        classified_unbound table id method args _ hnone rfl⟩
      rw [hnone] at hsig
      cases hsig
  | refused sig e hsig hunpack =>
      rcases unpack_cases sig args with ⟨_, _, _, _, hok⟩ | ⟨hlen, hthrow⟩ |
        ⟨hnot, hlen, what, hthrow⟩
      · rw [hunpack] at hok
        cases hok
      · -- A wrong number of parameters, which is reported as that.
        rw [hunpack] at hthrow
        cases hthrow
        refine ⟨fun _ => ⟨fun sig' hsig' => ?_, hdiscreet _ rfl⟩, fun _ => ?_⟩
        · rw [hsig] at hsig'
          cases hsig'
          exact Or.inr hlen
        · exact (classified_unsuited_iff table id method args _ sig _ _ hsig
            (not_suits_of_mismatched sig args hlen) rfl (by decide)).mpr rfl
      · rw [hunpack] at hthrow
        cases hthrow
        -- What does not convert is reported as an error inside the function.
        have hiff := classified_unsuited_iff table id method args
          [(⟨Call.netCall method args, ()⟩ : Ev D)] sig Attribute.internalErrorCode
          Attribute.internalError hsig hnot rfl (by decide)
        refine ⟨fun h => absurd (hiff.mp h) (by decide), fun ⟨h, _⟩ => ?_⟩
        rcases h sig hsig with hsuits | hmis
        · exact absurd hsuits hnot
        · exact absurd hmis hlen
  | returned sig tuple v hsig hunpack =>
      rcases unpack_ok sig args tuple hunpack with ⟨js, rfl, hconv⟩
      refine ⟨fun _ => ⟨fun sig' hsig' => ?_, fun x hx code message hx' => ?_⟩, fun _ => ?_⟩
      · rw [hsig] at hsig'
        cases hsig'
        exact Or.inl ⟨js, tuple, rfl, hconv⟩
      · rw [List.mem_singleton.mp hx] at hx'
        cases hx'
      · refine (classified_invoked_iff table id method _ sig js tuple (.ok v) _ hsig hconv rfl
          (fun v' hv => ?_) (fun what h => by cases h)).mpr ?_
        · cases hv
          rfl
        · rw [settled, errorCode_resultResponse]
          exact ⟨nofun, nofun⟩
  | threw sig tuple e hsig hunpack =>
      rcases unpack_ok sig args tuple hunpack with ⟨js, rfl, hconv⟩
      -- The function has thrown, and the code of the response is that of the exception.
      have hresp := errorCode_errorResponse (D := D) id (caught e).1 (caught e).2
      have hiff := classified_invoked_iff table id method
        [(⟨Call.netCall method (Json.array js), ()⟩ : Ev D),
          ⟨Call.invoke method sig tuple, (.error e : Except Exn _)⟩] sig js tuple (.error e)
        (settled id (.throw e)) hsig hconv rfl (fun v h => by cases h) (fun what h => by
          cases h
          exact hresp)
      rw [hiff, settled, hresp]
      constructor
      · rintro ⟨hfound, hvalid⟩
        refine ⟨fun sig' hsig' => ?_, fun x hx code message hx' => ?_⟩
        · rw [hsig] at hsig'
          cases hsig'
          exact Or.inl ⟨js, tuple, rfl, hconv⟩
        · rw [List.mem_singleton.mp hx] at hx'
          cases hx'
          exact ⟨fun h => hfound (by rw [h]; rfl), fun h => hvalid (by rw [h]; rfl)⟩
      · rintro ⟨_, hquiet⟩
        cases e with
        | protocol code message =>
            -- An exception of the protocol carries its code out, whichever it is.
            have hcode := hquiet _ (List.mem_singleton_self _) code message rfl
            exact ⟨fun h => hcode.1 (Option.some.inj h), fun h => hcode.2 (Option.some.inj h)⟩
        | json what =>
            exact (by decide : some Attribute.parseErrorCode ≠ some Attribute.methodNotFoundCode ∧
              some Attribute.parseErrorCode ≠ some Attribute.invalidParamsCode)
        | std what =>
            exact (by decide :
              some Attribute.internalErrorCode ≠ some Attribute.methodNotFoundCode ∧
              some Attribute.internalErrorCode ≠ some Attribute.invalidParamsCode)

/-- A table with one function `f`, from `int` to `int`. -/
def oneTable : Table := fun method => if method = text "f" then some ⟨[.int], some .int⟩ else none

/-- A request to call it. -/
def callOf (args : Json Unit) : Json Unit :=
  .object [(Field.id, .integer 1), (Field.method, .string (text "f")), (Field.params, args)]

theorem callOf_isRequest (args : Json Unit) : IsRequest (callOf args) 1 (text "f") args :=
  ⟨_, rfl, rfl, rfl, rfl⟩

/-- A run that answers it; the function throws. -/
def responding (args : Json Unit) : Trace Unit × Res (Json Unit) :=
  drive Network.reply (Network.carrying []) (respond oneTable (callOf args))

theorem responding_runs (args : Json Unit) :
    Runs (respond oneTable (callOf args)) (responding args).1 (responding args).2 :=
  runs_drive Network.reply _ _

theorem respond_classified_five :
    ∃ response, (responding (.array [.integer 5])).2 = .ok response ∧
      (Classified oneTable 1 (text "f") (.array [.integer 5]) (responding (.array [.integer 5])).1
          response ↔
        (∀ sig, oneTable (text "f") = some sig →
          Suits sig (.array [.integer 5] : Json Unit) ∨
          Mismatched sig (.array [.integer 5] : Json Unit)) ∧
        Discreet (responding (.array [.integer 5])).1) :=
  respond_classified_iff oneTable _ 1 (text "f") _ _ _ (callOf_isRequest _) (responding_runs _)

/-- A string where the function takes an `int` is reported as an error inside the
    function, which has not been called. -/
theorem respond_unclassified :
    ¬ ∀ (j : Json Unit) (id : Int32) (method : Str) (args : Json Unit) (t : Trace Unit)
        (response : Json Unit), IsRequest j id method args →
      Runs (respond oneTable j) t (.ok response) →
      Classified oneTable id method args t response := by
  intro h
  have hresp : (responding (.array [.string (text "x")])).2
      = .ok (errorResponse 1 Attribute.internalErrorCode Attribute.internalError) := by
    decide +kernel
  have hrun := responding_runs (.array [.string (text "x")])
  rw [hresp] at hrun
  have hclass := h _ _ _ _ _ _ (callOf_isRequest _) hrun
  have hnot : ¬ Suits ⟨[.int], some .int⟩ (.array [.string (text "x")] : Json Unit) := by
    rintro ⟨js, tuple, heq, hconv⟩
    cases heq
    cases hconv with
    | cons _ _ _ _ v _ hv _ => cases hv
  have hcode := hclass.invalidParams.mpr ⟨_, by decide, hnot⟩
  exact absurd hcode (by decide +kernel)

end Trpc
