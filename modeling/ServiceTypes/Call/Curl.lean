import ServiceTypes.Call.Basic

/-!
# `ServiceTypes.Call.Curl`: the transport through `curl`

A request is posted by a run of the program `curl`, which gets the body
on its standard input and answers with the response as it came over the
wire.

* `Curl.arguments` are the arguments of the run;
* `Run` is what became of the run, and `Curl.response` what that means
  for the call.
-/

set_option autoImplicit false

namespace ServiceTypes

open Http (Response)

/-- How to run `curl`. -/
structure Curl where
  /-- The program. -/
  program : String := "curl"
  /-- The seconds after which the request is given up. -/
  maxTime : Option Nat := none
  deriving DecidableEq, Repr

/-- What became of a run. -/
inductive Run where
  /-- There is no such program. -/
  | notFound
  /-- The program could not be started, or went away before it had read the body. -/
  | broken
  /-- The program ended with a code, and wrote to its standard output and error. -/
  | exited (code : Nat) (stdout stderr : List UInt8)

namespace Curl

/-- The arguments for a request. The empty `Expect` header keeps `curl` from waiting for
an interim response. -/
def arguments (curl : Curl) (request : Request) : List String :=
  ["--silent", "--show-error", "--include", "--request", "POST",
    "--header", "Content-Type: " ++ request.contentType, "--header", "Expect:",
    "--data-binary", "@-"]
  ++ (match curl.maxTime with
    | some seconds => ["--max-time", toString seconds]
    | none => [])
  ++ [request.url]

/-- The words of a run that failed: what it wrote to its standard error, or its code. -/
def failure (code : Nat) (stderr : List UInt8) : String :=
  let words := Text.trimmed (Text.ofUtf8Lossy stderr)
  if words.isEmpty then "curl exited with status exit status: " ++ toString code else words

/-- The response that a run brought. -/
def response (curl : Curl) : Run → Except CallError Response
  | .notFound =>
    .error (.transport
      ("\x60" ++ curl.program ++ "\x60 is not available; install curl to make calls"))
  | .broken => .error .io
  | .exited code stdout stderr =>
    if code ≠ 0 then .error (.transport (failure code stderr))
    else
      match Response.ofOctets stdout with
      | .ok response => .ok response
      | .error cause => .error (.malformedResponse cause)

end Curl

end ServiceTypes
