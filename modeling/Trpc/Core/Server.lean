import Trpc.Core.BestEffort

/-!
# The Server

`Server::onAccept`, the coroutine that serves one connection, and everything it
calls: the proxies around the bound functions, the `catch` chain, the callbacks.
One turn of its loop waits for a first byte, reads a header and the content it
announces, and answers. The receive buffer lives as long as the connection and
is not cleared between frames.

Every function of the table was put there by `bind`, inside a `CallProxy`, so an
entry is given by the type of the function; calling it is a call to the
environment. A turn ends in one of four ways: the loop goes on, the loop is
left, an exception leaves `onAccept`, or defined behaviour is left.

## Main definitions

* `unpack`: The arguments of a call, as `CallProxy` takes them out of `params`.
* `netCall`: The lookup in the table and the call.
* `settle`: The `try` block with its `catch` clauses.
* `Server.receive`, `Server.answer`, `Server.turn`: One turn of the loop.
* `Server.onAccept`: The loop.
* `Server.worker`: The coroutine that `start` makes for a connection.
-/

namespace Trpc

open Vsjson Interaction

variable {D : Type}

/-! ## Proxies -/

/-- `make<ArgsTuple>(json)`: element by element, each moved and converted. -/
def makeArgs [DecimalImpl D] : (Ts : List Ty) → List (Json D) → Res (Args D Ts)
  | [], _ => .ok ()
  | _ :: _, [] => .fault .overrun
  | T :: Ts, j :: js => do
    let v ← j.movedConvert T
    let vs ← makeArgs Ts js
    return (v, vs)

/-- The part of `dispatch` in front of the call. -/
def unpack [DecimalImpl D] (sig : Signature) (args : Json D) : Res (Args D sig.params) := do
  let n ← args.arraySize
  -- The number of arguments is checked first, then each is converted.
  if sig.params.length ≠ n then
    .throw (.protocol Attribute.invalidParamsCode Attribute.invalidParams)
  else
    let elems ← args.getArray
    makeArgs sig.params elems

/-- The result as a `Json`; a `void` function's is null. -/
def Signature.wrap (sig : Signature) (r : sig.Result D) : Json D :=
  match sig, r with
  | ⟨_, none⟩, _ => .null
  | ⟨_, some T⟩, v => T.toJson v

/-- `dispatch(args)`, of the function bound under `method`. -/
def dispatch [DecimalImpl D] (method : Str) (sig : Signature) (args : Json D) :
    Proc D (Res (Json D)) :=
  match unpack sig args with
  | .throw e => return .throw e
  | .fault f => return .fault f
  | .ok tuple => do
    let r ← invoke method sig tuple
    match r with
    | .error e => return .throw e
    | .ok result => return .ok (sig.wrap result)

/-- `_table`. -/
abbrev Table : Type := Str → Option Signature

/-- `netCall(method, args)`. -/
def netCall [DecimalImpl D] (table : Table) (method : Str) (args : Json D) :
    Proc D (Res (Json D)) := do
  enterNetCall method args
  match table method with
  | some sig => dispatch method sig args
  | none =>
    return .throw (.protocol Attribute.methodNotFoundCode Attribute.methodNotFound)

/-- The code and message that the `catch` clause for an exception reports. -/
def caught : Exn → Int32 × Str
  | .protocol code message => (code, message)
  | .json _ => (Attribute.parseErrorCode, Attribute.parseError)
  | .std _ => (Attribute.internalErrorCode, Attribute.internalError)

/-- What the `try` block and its `catch` clauses make of the outcome of
    `netCall`. -/
def settle (response : Json D) (outcome : Res (Json D)) : Res (Json D) :=
  match outcome.bind (fillResultToResponse response) with
  -- The clauses are tried in order: the protocol's own, the parser's, any other.
  | .throw e => reportError response (caught e).1 (caught e).2
  | r => r

/-! ## The loop -/

structure Server where
  _table : Table
  _timeout : Int
  _pending : Int
  /-- Whether there is a `_requestCallback`. -/
  _requestCallback : Bool
  /-- Whether there is a `_responseCallback`. -/
  _responseCallback : Bool

/-- How `onAccept` ends. -/
inductive Exit where
  /-- The loop was left by `break`. -/
  | broke
  /-- An exception left the function. -/
  | threw (e : Exn)
  | fault (f : Fault)
  deriving DecidableEq

namespace Server

/-- `setTimeout(timeout)`. -/
def setTimeout (s : Server) (timeout : Int) : Server := { s with _timeout := timeout }

/-- `setPending(pending)`. -/
def setPending (s : Server) (pending : Int) : Server := { s with _pending := pending }

/-- `BUF_SIZE_ON_STACK`. -/
def bufSizeOnStack : Nat := 16384

/-- What `bestEffortRead`, `bestEffortWrite` and `bestEffortPending` make of a
    transfer of `size` bytes. -/
def conclude (size : Nat) (x : Transfer) : Proc D Bool :=
  if x.ret = size then return true
  else do
    setErrno x.lastErrno
    return false

/-- `bestEffortRead(peer, buf + base, size)`, reported as `phase`. -/
def bestEffortRead (s : Server) (peer : Int) (phase : Phase) (base size : Nat) :
    Proc D (Bool × Str) := do
  let x ← Trpc.bestEffortRead peer base size s._timeout 6
  report ⟨phase, size, x.moved.length, x.ret⟩
  let success ← conclude size x
  return (success, x.moved)

/-- `bestEffortWrite(peer, data, size)`, reported as `phase`. -/
def bestEffortWrite (s : Server) (peer : Int) (phase : Phase) (data : Str) (size : Nat) :
    Proc D Bool := do
  let x ← Trpc.bestEffortWrite peer data size s._timeout 6
  report ⟨phase, size, x.moved.length, x.ret⟩
  conclude size x

/-- The hook of `bestEffortPending`: one byte, and nothing moved. -/
def firstByte : CoPosixFunc D := fun _ _ => return (some (1, []), 0)

/-- `bestEffortPending(peer)`. -/
def bestEffortPending (s : Server) (peer : Int) : Proc D Bool := do
  -- One attempt, and `_pending` for a timeout.
  let x ← bestEffortTemplate firstByte .pollin peer 1 s._pending 1
  conclude 1 x

/-- The part of a turn from the header in the buffer up to `decode`. -/
def receiveContent (s : Server) (peer : Int) (buf : Str) : Proc D (Except Exit (Str × Nat)) := do
  let (headerVerified, contentLength) := contentLength buf headerSize
  if !headerVerified then
    setErrno Errno.EPROTO
    return .error .broke
  else
    -- The length is not compared with the size of the buffer.
    let (success, got) ← s.bestEffortRead peer .readContent headerSize contentLength
    match store buf headerSize got with
    | none => return .error (.fault .overflow)
    | some buf =>
      if !success then return .error .broke
      else
        let totalLength := headerSize + contentLength
        if !verify buf totalLength then
          setErrno Errno.EPROTO
          return .error .broke
        else return .ok (buf, totalLength)

/-- The part of a turn up to `decode`: the buffer with the frame in it, and the
    frame's length. -/
def receive (s : Server) (peer : Int) (buf : Str) : Proc D (Except Exit (Str × Nat)) := do
  let pending ← s.bestEffortPending peer
  if !pending then return .error .broke
  else
    let (success, got) ← s.bestEffortRead peer .readHeader 0 headerSize
    match store buf 0 got with
    | none => return .error (.fault .overflow)
    | some buf =>
      if !success then return .error .broke
      else s.receiveContent peer buf

/-- `!_requestCallback || _requestCallback(request)`, and the request as the
    callback leaves it. -/
def onRequest (s : Server) (request : Json D) : Proc D (Bool × Json D) :=
  if s._requestCallback then requestCallback request
  else return (true, request)

/-- The same for the response. -/
def onResponse (s : Server) (response : Json D) : Proc D (Bool × Json D) :=
  if s._responseCallback then responseCallback response
  else return (true, response)

/-- The part of a turn that writes the response: whether to go on. -/
def reply [DecimalImpl D] (s : Server) (peer : Int) (response : Json D) : Proc D (Option Exit) := do
  let (accepted, response) ← s.onResponse response
  -- The request stays without an answer.
  if !accepted then return none
  else
    let dumped := Codec.dump response
    let success ← s.bestEffortWrite peer .writeHeader dumped.beLength headerSize
    if !success then return some .broke
    else
      let success ← s.bestEffortWrite peer .writeContent dumped.dump dumped.length
      if !success then return some .broke else return none

/-- The part of a turn behind `decode`. -/
def answer [DecimalImpl D] (s : Server) (peer : Int) (request : Json D) :
    Proc D (Option Exit) := do
  let (accepted, request) ← s.onRequest request
  -- The request stays without an answer.
  if !accepted then return none
  else
    -- Outside the `try`: what is thrown here leaves `onAccept`.
    match makeEmptyResponse request with
    | .throw e => return some (.threw e)
    | .fault f => return some (.fault f)
    | .ok (response, request) =>
      match prepareNetCall request with
      | .throw e => return some (.threw e)
      | .fault f => return some (.fault f)
      | .ok (method, args) =>
        -- From here on exceptions become responses.
        let outcome ← netCall s._table method args
        match settle response outcome with
        | .throw e => return some (.threw e)
        | .fault f => return some (.fault f)
        | .ok response => s.reply peer response

/-- The part of a turn behind `receive`. -/
def handle [DecimalImpl D] (s : Server) (peer : Int) (buf : Str) (totalLength : Nat) :
    Proc D (Option Exit) :=
  -- Outside the `try` as well.
  match decode buf totalLength with
  | .throw e => return some (.threw e)
  | .fault f => return some (.fault f)
  | .ok request => s.answer peer request

/-- One turn of the loop of `onAccept`: the buffer to go on with, or the end. -/
def turn [DecimalImpl D] (s : Server) (peer : Int) (buf : Str) : Proc D (Str ⊕ Exit) := do
  let frame ← s.receive peer buf
  match frame with
  | .error exit => return .inr exit
  | .ok (buf, totalLength) =>
    let exit ← s.handle peer buf totalLength
    match exit with
    | none => return .inl buf
    | some exit => return .inr exit

/-- `onAccept(peer)`, for at most `n` turns. -/
def onAccept [DecimalImpl D] (s : Server) (peer : Int) (n : Nat) : Proc D (Str ⊕ Exit) := do
  let buf ← stack bufSizeOnStack
  loop (s.turn peer) n buf.1

/-- The coroutine that `start` makes for a connection. The descriptor is closed
    behind `onAccept`, unless that is left by an exception. -/
def worker [DecimalImpl D] (s : Server) (peer : Int) (n : Nat) : Proc D (Str ⊕ Exit) := do
  let r ← s.onAccept peer n
  match r with
  | .inr .broke =>
    sysClose peer
    return r
  | _ => return r

end Server

end Trpc
