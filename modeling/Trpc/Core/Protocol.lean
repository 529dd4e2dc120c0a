import Trpc.Core.Parser
import Trpc.Core.Dump
import Trpc.Lib.Framing

/-!
# Messages and Frames

What the two endpoints agree on: the fields and error codes of JSON-RPC, the
four-byte header in network order in front of every message, and the functions
of `Codec` and `resolve` that make messages and take them apart.

None of these functions keeps state, so each is a function from the `Json` it
is handed to what it returns, in `Res` where `Json`'s accessors may throw. A
function that changes its argument through a reference returns it as well.

`decode` is handed the length of the frame and does not use it: it parses
whatever the buffer holds behind the header.

## Main definitions

* `Field`, `Attribute`: The names and texts of the protocol.
* `beHeader`: The four-byte header.
* `contentLength`, `verify`, `decode`, `Codec.dump`: Frames.
* `reportError`, `fillResultToResponse`, `prepareNetCall`: The server's side.
* `makeRequest`, `makeEmptyResponse`, `makeResult`: Requests and responses.
-/

namespace Trpc

open Vsjson

variable {D : Type}

namespace Field

def jsonrpc : Str := text "jsonrpc"
def method : Str := text "method"
def params : Str := text "params"
def result : Str := text "result"
def error : Str := text "error"
def id : Str := text "id"
def code : Str := text "code"
def message : Str := text "message"

end Field

namespace Attribute

def version : Str := text "2.0"

def parseErrorCode : Int32 := -32700
def methodNotFoundCode : Int32 := -32601
def invalidParamsCode : Int32 := -32602
def internalErrorCode : Int32 := -32603

def parseError : Str := text "Parse error"
def methodNotFound : Str := text "Method not found"
def invalidParams : Str := text "Invalid params"
def internalError : Str := text "Internal error"

end Attribute

/-! ## Frames -/

/-- `sizeof(Header)`. -/
def headerSize : Nat := 4

/-- A `uint32_t` after `htonl`, as the bytes in memory. -/
def htonl (n : Nat) : Str :=
  [(n / 16777216).toUInt8, (n / 65536).toUInt8, (n / 256).toUInt8, n.toUInt8]

/-- The `uint32_t` in the first four bytes, after `ntohl`. -/
def ntohl : Str → Nat
  | a :: b :: c :: d :: _ => ((a.toNat * 256 + b.toNat) * 256 + c.toNat) * 256 + d.toNat
  | _ => 0

theorem ntohl_htonl (n : Nat) (h : n < 4294967296) : ntohl (htonl n) = n := by
  simp only [ntohl, htonl, Nat.toUInt8, UInt8.toNat_ofNat']
  omega

theorem htonl_ntohl (h : Str) (hh : h.length = headerSize) : htonl (ntohl h) = h := by
  match h, hh with
  | [a, b, c, d], _ =>
      have ha := a.toNat_lt
      have hb := b.toNat_lt
      have hc := c.toNat_lt
      have hd := d.toNat_lt
      simp only [ntohl, htonl, List.cons.injEq, ← UInt8.toNat_inj, Nat.toUInt8,
        UInt8.toNat_ofNat', and_true]
      omega

theorem ntohl_lt (h : Str) (hh : h.length = headerSize) : ntohl h < 4294967296 := by
  match h, hh with
  | [a, b, c, d], _ =>
      have ha := a.toNat_lt
      have hb := b.toNat_lt
      have hc := c.toNat_lt
      have hd := d.toNat_lt
      simp only [ntohl]
      omega

/-- The header in front of every message: its length, big end first. -/
def beHeader : Framing.Header UInt8 where
  width := headerSize
  bound := 4294967296
  encode := htonl
  decode := ntohl
  width_pos := by decide
  length_encode _ := rfl
  decode_encode := ntohl_htonl
  encode_decode := htonl_ntohl
  decode_lt := ntohl_lt

/-- `contentLength(buf, N)`. -/
def contentLength (buf : Str) (N : Nat) : Bool × Nat :=
  if N < headerSize then (false, 4294967295) else (true, ntohl buf)

/-- `verify(buf, N)`. -/
def verify (buf : Str) (N : Nat) : Bool :=
  let (succ, length) := contentLength buf N
  succ && decide (headerSize + length ≤ N)

/-- `decode(buf, N)`. -/
def decode [DecimalImpl D] (buf : Str) (_N : Nat) : Res (Json D) := parse (buf.drop headerSize)

/-- What `Codec::dump` returns: the text, its length as a `Header`, and that
    length in network order. -/
structure Dumped where
  dump : Str
  length : Nat
  beLength : Str

/-- `Codec::dump(response)`. -/
def Codec.dump [DecimalImpl D] (response : Json D) : Dumped :=
  let dump := Vsjson.dump response
  let length := dump.length % 4294967296
  ⟨dump, length, htonl length⟩

/-! ## The server's messages -/

/-- `reportError(response, e)`, for a protocol exception with the given code
    and message. -/
def reportError (response : Json D) (code : Int32) (message : Str) : Res (Json D) := do
  let hasResult ← response.contains Field.result
  -- A response has a result or an error, not both.
  let response ← if hasResult then response.erase Field.result else .ok response
  let response ← response.assign Field.error (.object [(Field.code, .integer code)])
  -- The message is optional.
  if message.isEmpty then return response
  else
    let (err, response) ← response.subscript Field.error
    let err ← err.put Field.message (.string message)
    response.put Field.error err

/-- `fillResultToResponse(response, result)`. -/
def fillResultToResponse (response result : Json D) : Res (Json D) :=
  response.assign Field.result result

/-- `prepareNetCall(request)`. -/
def prepareNetCall [DecimalImpl D] (request : Json D) : Res (Str × Json D) := do
  let (m, request) ← request.subscript Field.method
  let method ← m.movedConvert .string
  let (args, _) ← request.subscript Field.params
  return (method, args)

/-- `makeEmptyResponse(request)`, and the request as the call leaves it. -/
def makeEmptyResponse [DecimalImpl D] (request : Json D) : Res (Json D × Json D) := do
  let (v, request) ← request.subscript Field.id
  let id ← v.convert .int
  return (.object [(Field.id, .integer id), (Field.jsonrpc, .string Attribute.version)], request)

/-! ## The client's messages -/

/-- `makeRequestImpl(json, args...)`. -/
def makeRequestImpl (json : Json D) : List (Json D) → Res (Json D)
  | [] => .ok json
  | arg :: args => do
    let json ← json.append arg
    makeRequestImpl json args

/-- `makeRequest(token, method, params...)`, each parameter already converted
    by its `Json` constructor. -/
def makeRequest (token : Int32) (method : Str) (params : List (Json D)) : Res (Json D) := do
  let json : Json D := .object [
    (Field.id, .integer token),
    (Field.jsonrpc, .string Attribute.version),
    (Field.method, .string method),
    (Field.params, .array [])]
  let (argsJson, json) ← json.subscript Field.params
  let argsJson ← makeRequestImpl argsJson params
  json.put Field.params argsJson

/-- `makeResult<T>(response)`. -/
def makeResult [DecimalImpl D] (T : Ty) (response : Json D) : Res (Option (T.denote D)) := do
  let hasError ← response.contains Field.error
  if hasError then
    let (errorObject, _) ← response.subscript Field.error
    -- The message is looked for and dropped.
    let _ ← errorObject.contains Field.message
    return none
  else
    let (result, _) ← response.subscript Field.result
    let v ← result.convert T
    return some v

/-! ## What they come to -/

theorem append_all (params js : List (Json D)) :
    makeRequestImpl (.array js) params = .ok (.array (js ++ params)) := by
  induction params generalizing js with
  | nil => simp only [makeRequestImpl, List.append_nil]
  | cons j params ih =>
      simp only [makeRequestImpl, Json.append, Json.getArray, Res.bind_def, Res.ok_bind,
        Res.pure_def, ih, List.append_assoc, List.singleton_append]

/-- A request, written out. -/
def requestOf (token : Int32) (method : Str) (params : List (Json D)) : Json D :=
  .object [
    (Field.id, .integer token),
    (Field.jsonrpc, .string Attribute.version),
    (Field.method, .string method),
    (Field.params, .array params)]

/-- Building a request never throws. -/
theorem makeRequest_eq (token : Int32) (method : Str) (params : List (Json D)) :
    makeRequest token method params = .ok (requestOf token method params) := by
  have hlookup : (requestOf token method ([] : List (Json D))).subscript Field.params
      = .ok (.array [], requestOf token method []) := rfl
  have hput : (requestOf token method ([] : List (Json D))).put Field.params (.array params)
      = .ok (requestOf token method params) := rfl
  simp only [makeRequest, Res.bind_def]
  change ((requestOf token method ([] : List (Json D))).subscript Field.params).bind _ = _
  rw [hlookup]
  simp only [Res.ok_bind, append_all, List.nil_append, hput]

/-- The response before it holds a result or an error. -/
def emptyResponse (id : Int32) : Json D :=
  .object [(Field.id, .integer id), (Field.jsonrpc, .string Attribute.version)]

/-- The response to a call that returned. -/
def resultResponse (id : Int32) (result : Json D) : Json D :=
  .object [(Field.id, .integer id), (Field.jsonrpc, .string Attribute.version),
    (Field.result, result)]

/-- What stands under `error`. -/
def errorObject (code : Int32) (message : Str) : Json D :=
  if message.isEmpty then .object [(Field.code, .integer code)]
  else .object [(Field.code, .integer code), (Field.message, .string message)]

/-- The response to a call that threw. -/
def errorResponse (id code : Int32) (message : Str) : Json D :=
  .object [(Field.error, errorObject code message), (Field.id, .integer id),
    (Field.jsonrpc, .string Attribute.version)]

theorem reportError_empty (id code : Int32) (message : Str) :
    reportError (emptyResponse id : Json D) code message
      = .ok (errorResponse id code message) := by
  cases message with
  | nil => rfl
  | cons c s => rfl

end Trpc
