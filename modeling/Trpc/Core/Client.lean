import Trpc.Core.BestEffort

/-!
# The Client

`Client::call` and the health check in front of it. A call writes its request,
reads the header of the response, reads its content, and decodes it. When
writing fails with bytes on the wire the client closes the connection; when
reading fails it keeps the connection and records how far it got, and the next
call reads the rest of the response away before it does anything else.

The health check uses `::read` and never waits. Its buffer is a local array of
4096 bytes that starts out with whatever the stack holds, and a partial read of
a header goes to the start of it each time.

A client is a record of its attributes, and each function returns the record as
it leaves it. A store past the end of a buffer ends the call in a fault.

## Main definitions

* `Health`: How much of a response is still to be read away.
* `Health.check`: Read it away.
* `Client`: The attributes of a client.
* `Client.make`, `Client.move`, `Client.assign`, `Client.destroy`: Its life.
* `Client.call`: A remote call.
* `Client.session`: Calls on one client, one after the other.
-/

namespace Trpc

open Vsjson Interaction

variable {D : Type}

inductive Health.State where
  | undefined
  | noRead
  | headerReadSome
  | contentReadSome
  deriving DecidableEq

structure Health where
  _some : Int
  _content : Int
  _state : Health.State
  deriving DecidableEq

namespace Health

/-- A new `Health`. -/
def fresh : Health := ⟨0, 0, .noRead⟩

/-- `set(some, state, content)`. -/
def set (sofar : Int) (state : State) (content : Int) : Health := ⟨sofar, content, state⟩

/-- `BUF_SIZE`. -/
def bufSize : Nat := 4096

/-- An `ssize_t` passed as a `size_t`. -/
def toSize (i : Int) : Nat := (i % 18446744073709551616).toNat

/-- `stateMachine(fd, buf, boundary, nextState)`. -/
def stateMachine (h : Health) (fd : Int) (buf : Str) (boundary : Nat) (nextState : State) :
    Proc D (Except Fault (Health × Str)) := do
  let phase := if nextState = .contentReadSome then Phase.drainHeader else .drainContent
  let ret ← sysRead fd boundary
  match ret with
  | none =>
    report ⟨phase, boundary, 0, -1⟩
    return .ok ({ h with _state := .undefined }, buf)
  | some bs =>
    report ⟨phase, boundary, bs.1.length, bs.1.length⟩
    -- Each piece goes to the start of the buffer, wherever the ones before ended.
    match store buf 0 bs.1 with
    | none => return .error .overflow
    | some buf =>
      if bs.1.length = 0 then return .ok ({ h with _state := .undefined }, buf)
      else if bs.1.length < boundary then
        return .ok ({ h with _some := h._some + bs.1.length }, buf)
      else return .ok ({ h with _some := 0, _state := nextState }, buf)

/-- What `check` does once the header is complete. -/
def learn (h : Health) (buf : Str) : Health :=
  if h._state = .contentReadSome then
    let length := (contentLength buf headerSize).2
    if bufSize < length then { h with _content := length, _state := .undefined }
    else { h with _content := length }
  else h

/-- The loop of `check`, with the rounds left. -/
def drain (fd : Int) : Nat → Health → Str → Proc D (Except Fault (Health × Bool))
  -- `deathCountdown` has come to its end.
  | 0, h, _ => return .ok (h, false)
  | deathCountdown + 1, h, buf =>
    match h._state with
    | .noRead => return .ok (h, true)
    | .headerReadSome => do
      let r ← h.stateMachine fd buf (toSize (headerSize - h._some)) .contentReadSome
      match r with
      | .error f => return .error f
      | .ok (h, buf) => drain fd deathCountdown (h.learn buf) buf
    | .contentReadSome => do
      let r ← h.stateMachine fd buf (toSize (h._content - h._some)) .noRead
      match r with
      | .error f => return .error f
      | .ok (h, buf) => drain fd deathCountdown h buf
    -- No `case` for this state: the loop goes round until the countdown ends it.
    | .undefined => drain fd deathCountdown h buf

/-- `check(fd)`. -/
def check (h : Health) (fd : Int) : Proc D (Except Fault (Health × Bool)) :=
  if fd < 0 then return .ok (h, false)
  else if h._state = .noRead then return .ok (h, true)
  else do
    let buf ← stack bufSize
    drain fd 5 h buf.1

end Health

structure Client where
  _socket : Int
  _timeout : Int
  _errno : Errno
  /-- `_tokens`. -/
  _token : Int32
  _health : Health
  deriving DecidableEq

namespace Client

/-- `SOCKET_INVALID`. -/
def socketInvalid : Int := -1

/-- `BUF_SIZE_ON_STACK`. -/
def bufSizeOnStack : Nat := 16384

/-- `setTimeout(timeout)`. -/
def setTimeout (c : Client) (timeout : Int) : Client := { c with _timeout := timeout }

/-- `error()`: the error code, and the client with the code cleared. -/
def error (c : Client) : Errno × Client := (c._errno, { c with _errno := 0 })

/-- `close()`. -/
def close (c : Client) : Proc D Client :=
  if c._socket ≠ socketInvalid then do
    sysClose c._socket
    return { c with _socket := socketInvalid }
  else return c

/-! ## Construction and ownership -/

/-- `NO_TIMEDOUT`, in milliseconds. -/
def noTimedout : Int := 512 * 3600000

/-- `Client()`. The token starts with whatever the memory holds. -/
def new (token : Int32) : Client := ⟨socketInvalid, noTimedout, 0, token, Health.fresh⟩

/-- `init()`, with what `::socket` returns. -/
def init (c : Client) (socket : Int) (errno : Errno) : Client :=
  -- Whatever `_socket` was before is overwritten, open or not.
  { c with _socket := socket, _errno := if socket < 0 then errno else c._errno }

/-- `connect(endpoint)`, with what `co::connect` returns. -/
def connect (c : Client) (ret : Int) (errno : Errno) : Client × Bool :=
  if ret ≠ 0 then ({ c with _errno := errno }, false) else (c, true)

/-- `Client(Client &&rhs)`: the new client, and `rhs` as it is left. The token of the
    new one is not taken over. -/
def move (rhs : Client) (token : Int32) : Client × Client :=
  (⟨rhs._socket, rhs._timeout, rhs._errno, token, rhs._health⟩,
    { rhs with _socket := socketInvalid })

/-- `swap(that)`, attribute by attribute: both clients. -/
def swap (c that : Client) : Client × Client :=
  (⟨that._socket, that._timeout, that._errno, that._token, that._health⟩,
    ⟨c._socket, c._timeout, c._errno, c._token, c._health⟩)

/-- `~Client()`. -/
def destroy (c : Client) : Proc D Unit := do
  let _ ← c.close
  return ()

/-- `c = std::move(rhs)`, of another client: `operator=(Client that)`, with `that`
    constructed from `rhs` and destroyed at the end. Both clients. -/
def assign (c rhs : Client) (token : Int32) : Proc D (Client × Client) := do
  let (that, rhs) := rhs.move token
  let (that, c) := that.swap c
  that.destroy
  return (c, rhs)

/-- `c = std::move(c)`. -/
def assignSelf (c : Client) (token : Int32) : Proc D Client := do
  let (that, c) := c.move token
  let (that, c) := that.swap c
  that.destroy
  return c

/-- `make()`. The client made is moved out of a local one. -/
def make (token token' : Int32) (socket : Int) (errno : Errno) : Proc D (Option Client) := do
  let client := (new token).init socket errno
  -- Reading the error code clears it.
  let (error, client) := client.error
  if error ≠ 0 then
    client.destroy
    return none
  else
    let (made, client) := client.move token'
    client.destroy
    return some made

/-- `make(endpoint)`, with what `co::test` and `co::connect` return. -/
def makeConnected (test : Bool) (token token' : Int32) (socket : Int) (errno : Errno) (ret : Int)
    (errno' : Errno) : Proc D (Option Client) := do
  if !test then return none
  else
    let opt ← make token token' socket errno
    match opt with
    | none => return none
    | some client =>
      let (client, connected) := client.connect ret errno'
      if !connected then
        client.destroy
        return none
      else return some client

/-! ## Calls -/

/-- What `bestEffortRead` and `bestEffortWrite` make of a transfer of `size`
    bytes: the client, and whether all bytes were moved. -/
def conclude (c : Client) (size : Nat) (x : Transfer) : Client × Bool :=
  if x.ret = size then (c, true) else ({ c with _errno := x.lastErrno }, false)

/-- `bestEffortRead(buf + base, size)`, reported as `phase`. -/
def bestEffortRead (c : Client) (phase : Phase) (base size : Nat) :
    Proc D ((Client × Bool) × Transfer) := do
  let x ← Trpc.bestEffortRead c._socket base size c._timeout 10
  report ⟨phase, size, x.moved.length, x.ret⟩
  return (c.conclude size x, x)

/-- `bestEffortWrite(data, size)`, reported as `phase`. -/
def bestEffortWrite (c : Client) (phase : Phase) (data : Str) (size : Nat) :
    Proc D ((Client × Bool) × Transfer) := do
  let x ← Trpc.bestEffortWrite c._socket data size c._timeout 10
  report ⟨phase, size, x.moved.length, x.ret⟩
  return (c.conclude size x, x)

/-- The part of `call` that writes the request: whether to go on. -/
def writeRequest (c : Client) (request : Dumped) : Proc D (Client × Bool) := do
  let ((c, success), written) ← c.bestEffortWrite .writeHeader request.beLength headerSize
  if !success then
    -- Part of the header is out. With `-1` the connection is kept.
    if 0 < written.ret then
      let c ← c.close
      return (c, false)
    else return (c, false)
  else
    let ((c, success), _) ← c.bestEffortWrite .writeContent request.dump request.length
    if !success then
      let c ← c.close
      return (c, false)
    else return (c, true)

/-- The part of `call` behind the header of the response. -/
def readContent [DecimalImpl D] (c : Client) (T : Ty) (buf : Str) :
    Proc D (Client × Res (Option (T.denote D))) := do
  let contentLength := (contentLength buf headerSize).2
  -- Too long for the buffer. Nothing of the content is read.
  if headerSize + contentLength > bufSizeOnStack then
    let c ← ({ c with _errno := Errno.ENOMEM }).close
    return (c, .ok none)
  else
    let ((c, success), got) ← c.bestEffortRead .readContent headerSize contentLength
    match store buf headerSize got.moved with
    | none => return (c, .fault .overflow)
    | some buf =>
      -- The bytes read so far are dropped, only their number is kept.
      if !success then
        return ({ c with
          _health := Health.set (max 0 got.ret) .contentReadSome contentLength }, .ok none)
      else if !verify buf (headerSize + contentLength) then
        return ({ c with _errno := Errno.EINVAL }, .ok none)
      else
        return (c, (decode buf (headerSize + contentLength)).bind (makeResult T))

/-- The part of `call` that reads the response. -/
def readResponse [DecimalImpl D] (c : Client) (T : Ty) :
    Proc D (Client × Res (Option (T.denote D))) := do
  let buf ← stack bufSizeOnStack
  let ((c, success), got) ← c.bestEffortRead .readHeader 0 headerSize
  match store buf.1 0 got.moved with
  | none => return (c, .fault .overflow)
  | some buf =>
    if !success then
      return ({ c with _health := Health.set (max 0 got.ret) .headerReadSome 0 }, .ok none)
    else c.readContent T buf

/-- `call<T>(function, arguments...)`, each argument already converted by its
    `Json` constructor. -/
def call [DecimalImpl D] (c : Client) (T : Ty) (function : Str) (arguments : List (Json D)) :
    Proc D (Client × Res (Option (T.denote D))) := do
  let checked ← c._health.check c._socket
  match checked with
  | .error f => return (c, .fault f)
  | .ok (health, healthy) =>
    let c := { c with _health := health }
    if !healthy then return (c, .ok none)
    else
      -- A call that the health check refuses does not use up a token.
      let token := c._token + 1
      let c := { c with _token := token }
      match makeRequest token function arguments with
      | .throw e => return (c, .throw e)
      | .fault f => return (c, .fault f)
      | .ok request =>
        let (c, written) ← c.writeRequest (Codec.dump request)
        if !written then return (c, .ok none) else c.readResponse T

/-- A call to make, with the timeout in force. -/
structure Task (D : Type) where
  timeout : Int
  T : Ty
  function : Str
  arguments : List (Json D)

/-- What became of a call. -/
def Task.Result (task : Task D) : Type := Res (Option (task.T.denote D))

/-- One call of a session. -/
def perform [DecimalImpl D] (c : Client) (task : Task D) : Proc D (Client × task.Result) :=
  (c.setTimeout task.timeout).call task.T task.function task.arguments

/-- Calls on one client, one after the other. An exception is left to the
    caller, who goes on; a fault is the end. -/
def session [DecimalImpl D] : List (Task D) → Client → Proc D (Except Fault Client)
  | [], c => return .ok c
  | task :: tasks, c => do
    let (c, result) ← c.perform task
    match (result : Res (Option (task.T.denote D))) with
    | .fault f => return .error f
    | _ => session tasks c

end Client

end Trpc
