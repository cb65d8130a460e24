import ServiceTypes.Text.Lines

/-!
# `ServiceTypes.Http.Response`: HTTP responses

A response is a head, which holds status, reason and headers, and a
body of octets.

* `Head.header?` looks a header up without regard to case;
* `Head.statusText` is the status with its reason;
* `canonicalReason` is the reason that a status has by the standard;
* `Head.isInterim` and `Head.isConnectReply` tell the heads that another
  response follows.
-/

set_option autoImplicit false

namespace ServiceTypes.Http

/-- The head of a response. The headers stand in the order of their arrival. -/
structure Head where
  status : Nat
  reason : String
  headers : List (String × String)
  deriving DecidableEq, Repr

/-- A response. -/
structure Response extends Head where
  body : List UInt8
  deriving DecidableEq, Repr

/-- The reason of a status by the standard; empty for a status without one. -/
def canonicalReason (status : Nat) : String :=
  match status with
  | 100 => "Continue"
  | 101 => "Switching Protocols"
  | 102 => "Processing"
  | 103 => "Early Hints"
  | 200 => "OK"
  | 201 => "Created"
  | 202 => "Accepted"
  | 203 => "Non-Authoritative Information"
  | 204 => "No Content"
  | 205 => "Reset Content"
  | 206 => "Partial Content"
  | 207 => "Multi-Status"
  | 208 => "Already Reported"
  | 226 => "IM Used"
  | 300 => "Multiple Choices"
  | 301 => "Moved Permanently"
  | 302 => "Found"
  | 303 => "See Other"
  | 304 => "Not Modified"
  | 305 => "Use Proxy"
  | 307 => "Temporary Redirect"
  | 308 => "Permanent Redirect"
  | 400 => "Bad Request"
  | 401 => "Unauthorized"
  | 402 => "Payment Required"
  | 403 => "Forbidden"
  | 404 => "Not Found"
  | 405 => "Method Not Allowed"
  | 406 => "Not Acceptable"
  | 407 => "Proxy Authentication Required"
  | 408 => "Request Timeout"
  | 409 => "Conflict"
  | 410 => "Gone"
  | 411 => "Length Required"
  | 412 => "Precondition Failed"
  | 413 => "Request Entity Too Large"
  | 414 => "Request URI Too Long"
  | 415 => "Unsupported Media Type"
  | 416 => "Requested Range Not Satisfiable"
  | 417 => "Expectation Failed"
  | 418 => "I'm a teapot"
  | 421 => "Misdirected Request"
  | 422 => "Unprocessable Entity"
  | 423 => "Locked"
  | 424 => "Failed Dependency"
  | 425 => "Too Early"
  | 426 => "Upgrade Required"
  | 428 => "Precondition Required"
  | 429 => "Too Many Requests"
  | 431 => "Request Header Fields Too Large"
  | 451 => "Unavailable For Legal Reasons"
  | 500 => "Internal Server Error"
  | 501 => "Not Implemented"
  | 502 => "Bad Gateway"
  | 503 => "Service Unavailable"
  | 504 => "Gateway Timeout"
  | 505 => "HTTP Version Not Supported"
  | 506 => "Variant Also Negotiates"
  | 507 => "Insufficient Storage"
  | 508 => "Loop Detected"
  | 510 => "Not Extended"
  | 511 => "Network Authentication Required"
  | _ => ""

namespace Head

/-- The status with its reason, or alone if there is none. -/
def statusText (head : Head) : String :=
  if head.reason.isEmpty then toString head.status
  else toString head.status ++ " " ++ head.reason

/-- The value of the first header of a name; the case of ASCII letters does not count. -/
def header? (head : Head) (name : String) : Option String :=
  (head.headers.find? fun header => Text.equalsIgnoringCase header.1 name).map Prod.snd

/-- Whether the final response is still to come. -/
def isInterim (head : Head) : Bool :=
  100 ≤ head.status && head.status < 200

/-- The headers that describe a body. -/
def entityHeaders : List String := ["content-length", "content-type", "transfer-encoding"]

/-- Whether the head may be a proxy's answer to a request for a tunnel: a success that
says so, or one that describes no body. -/
def isConnectReply (head : Head) : Bool :=
  200 ≤ head.status && head.status < 300
    && (Text.equalsIgnoringCase head.reason "connection established"
      || entityHeaders.all fun name => (head.header? name).isNone)

end Head

end ServiceTypes.Http
