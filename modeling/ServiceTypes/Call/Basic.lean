import ServiceTypes.Http.Message
import ServiceTypes.Json.Value

/-!
# `ServiceTypes.Call.Basic`: calls of a remote method

A call posts its arguments as one JSON array to an address and reads a
JSON array back. Each argument is marshaled as soon as it is added.

* `Call.ofMethod` addresses a call, `Call.add` adds an argument, `Call.body`
  is the body of the request;
* a `Transport` answers a request with a response or fails;
* `Call.send` posts the call and decodes the items of the reply.
-/

set_option autoImplicit false

namespace ServiceTypes

open Http (MessageError Response)

/-- Why a call fails. -/
inductive CallError where
  /-- An argument could not be marshaled. -/
  | marshal (index : Nat) (cause : String)
  /-- The transport broke down. -/
  | io
  /-- The transport reports a failure. -/
  | transport (cause : String)
  /-- The answer is no HTTP response. -/
  | malformedResponse (cause : MessageError)
  /-- The status of the response is not 200. -/
  | status (text : String)
  /-- The body is JSON, but no array. -/
  | replyNotArray
  /-- The body is no JSON, or its items are not the expected ones. -/
  | reply (cause : Json.Error)
  deriving DecidableEq, Repr

/-- What is wrong, in words. -/
def CallError.message : CallError → String
  | .marshal index cause => "marshal argument " ++ toString index ++ ": " ++ cause
  | .io => "io"
  | .transport cause => "transport: " ++ cause
  | .malformedResponse cause => "malformed http response: " ++ cause.message
  | .status text => "Error: " ++ text
  | .replyNotArray => "unmarshal reply: reply body is not a JSON array"
  | .reply cause => "unmarshal reply: " ++ cause.message

/-- A request to post. -/
structure Request where
  url : String
  contentType : String
  body : List UInt8
  deriving DecidableEq, Repr

/-- Posts requests. -/
abbrev Transport := Request → Except CallError Response

/-- A call: its address and its marshaled arguments. -/
structure Call where
  url : String
  arguments : List String
  deriving DecidableEq, Repr

namespace Call

/-- The content type of every request. -/
def contentType : String := "application/json"

/-- A call of a method of the service at an endpoint, without arguments. -/
def ofMethod (url endpoint method : String) : Call :=
  ⟨url ++ endpoint ++ method, []⟩

/-- Adds an argument: a value, or the reason why it refuses to be marshaled. -/
def add (call : Call) : Except String Json.Value → Except CallError Call
  | .ok value => .ok { call with arguments := call.arguments ++ [value.compact] }
  | .error cause => .error (.marshal call.arguments.length cause)

/-- The body of the request: the array of the arguments. -/
def body (call : Call) : String :=
  "[" ++ ",".intercalate call.arguments ++ "]"

/-- The request of a call. -/
def request (call : Call) : Request :=
  ⟨call.url, contentType, Text.utf8 call.body⟩

/-- The items of the reply in a response. A status other than 200 fails without a look at
the body. -/
def replyItems (response : Response) : Except CallError (List Json.Value) :=
  if response.status ≠ 200 then .error (.status response.statusText)
  else
    match Json.Value.ofText response.body with
    | .error cause => .error (.reply cause)
    | .ok (.array items) => .ok items
    | .ok _ => .error .replyNotArray

/-- Posts a call and decodes the items of its reply. -/
def send {α : Type} (call : Call) (transport : Transport)
    (decode : List Json.Value → Except Json.Error α) : Except CallError α := do
  let response ← transport call.request
  let items ← replyItems response
  match decode items with
  | .ok reply => return reply
  | .error cause => .error (.reply cause)

end Call

end ServiceTypes
