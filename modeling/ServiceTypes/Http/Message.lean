import ServiceTypes.Http.Response
import ServiceTypes.Text.Blank
import ServiceTypes.Text.Utf8

/-!
# `ServiceTypes.Http.Message`: reading responses off the wire

A message is a block of octets: a head of lines, an empty line, and the
body. Interim responses, and the answer of a proxy to the request for a
tunnel, stand in front of the message that counts, as blocks of the same
form.

* `splitHead?` finds the end of the head: the first empty line between
  CRLF line ends or, if there is none anywhere, the first between bare
  line feeds;
* `Head.ofOctets` reads a head;
* `Response.ofOctets` skips the blocks in front and reads the response.
-/

set_option autoImplicit false

namespace ServiceTypes.Http

/-- Why octets are no response. -/
inductive MessageError where
  | missingTerminator
  | headerNotUtf8
  | missingStatusLine
  | notHttp
  | invalidStatusCode
  deriving DecidableEq, Repr

/-- What is wrong, in words. -/
def MessageError.message : MessageError → String
  | .missingTerminator => "missing header terminator"
  | .headerNotUtf8 => "header is not utf-8"
  | .missingStatusLine => "missing status line"
  | .notHttp => "status line does not start with HTTP/"
  | .invalidStatusCode => "invalid status code"

/-! ### Splitting off a head -/

/-- Splits octets around the first place where a pattern stands; `seen` are the octets
before them, latest first. -/
def splitAround (pattern seen : List UInt8) : List UInt8 → Option (List UInt8 × List UInt8)
  | [] => if pattern.isEmpty then some (seen.reverse, []) else none
  | b :: rest =>
    if pattern.isPrefixOf (b :: rest) then
      some (seen.reverse, (b :: rest).drop pattern.length)
    else splitAround pattern (b :: seen) rest

/-- An empty line between CRLF line ends. -/
def emptyLine : List UInt8 := [13, 10, 13, 10]

/-- An empty line between bare line feeds. -/
def bareEmptyLine : List UInt8 := [10, 10]

/-- Splits octets into a head and what follows its empty line. -/
def splitHead? (octets : List UInt8) : Option (List UInt8 × List UInt8) :=
  match splitAround emptyLine [] octets with
  | some parts => some parts
  | none => splitAround bareEmptyLine [] octets

/-- What follows a pattern that is not empty is shorter than the whole. -/
theorem length_of_splitAround {pattern seen octets before behind : List UInt8}
    (ne : pattern ≠ []) (h : splitAround pattern seen octets = some (before, behind)) :
    behind.length < octets.length := by
  have pos : 0 < pattern.length := List.length_pos_iff.2 ne
  induction octets generalizing seen with
  | nil => simp [splitAround, ne] at h
  | cons b rest ih =>
    simp only [splitAround] at h
    split at h
    · simp only [Option.some.injEq, Prod.mk.injEq] at h
      rw [← h.2, List.length_drop, List.length_cons]
      omega
    · have := ih h
      simp only [List.length_cons]
      omega

/-- What follows a head is shorter than the whole. -/
theorem length_of_splitHead? {octets head body : List UInt8}
    (h : splitHead? octets = some (head, body)) : body.length < octets.length := by
  simp only [splitHead?] at h
  split at h
  · rename_i parts heq
    simp only [Option.some.injEq] at h
    subst h
    exact length_of_splitAround (by simp [emptyLine]) heq
  · exact length_of_splitAround (by simp [bareEmptyLine]) h

/-! ### Reading a head -/

/-- Splits a text at its first space, which falls away. -/
def splitSpace (text : List Char) : List Char × Option (List Char) :=
  match text.dropWhile (· ≠ ' ') with
  | [] => (text, none)
  | _ :: rest => (text.takeWhile (· ≠ ' '), some rest)

/-- The greatest status. -/
def greatestStatus : Nat := 0xFFFF

/-- Reads a status: digits, perhaps behind a plus sign, of a number of 16 bits. -/
def readStatus? (text : List Char) : Option Nat :=
  let digits := if text.head? = some '+' then text.tail else text
  if digits.isEmpty || !digits.all Char.isDigit then none
  else
    let n := Nat.ofDigitChars 10 digits 0
    if n ≤ greatestStatus then some n else none

/-- How every status line starts. -/
def protocolName : List Char := ['H', 'T', 'T', 'P', '/']

/-- Reads a status line: the version, the status, and the reason, which may be missing. -/
def readStatusLine (line : List Char) : Except MessageError (Nat × List Char) :=
  let (version, rest) := splitSpace (Text.trimEnd line)
  if !protocolName.isPrefixOf version then .error .notHttp
  else
    match rest with
    | none => .error .invalidStatusCode
    | some rest =>
      let (code, reason) := splitSpace rest
      match readStatus? code with
      | none => .error .invalidStatusCode
      | some status => .ok (status, Text.trim (reason.getD []))

/-- Reads a header line: the name in front of the first colon and the value behind it. A
line without colon is no header. -/
def readHeader? (line : List Char) : Option (String × String) :=
  match line.dropWhile (· ≠ ':') with
  | [] => none
  | _ :: value =>
    some (String.ofList (Text.trim (line.takeWhile (· ≠ ':'))), String.ofList (Text.trim value))

/-- The head of a status and a reason; a missing reason is the one of the standard. -/
def Head.ofParts (status : Nat) (reason : List Char) (headerLines : List (List Char)) : Head :=
  { status
    reason := if reason.isEmpty then canonicalReason status else String.ofList reason
    headers := headerLines.filterMap readHeader? }

/-- Reads a head. -/
def Head.ofOctets (octets : List UInt8) : Except MessageError Head :=
  match Text.ofUtf8? octets with
  | none => .error .headerNotUtf8
  | some text =>
    match Text.lines text.toList with
    | [] => .error .missingStatusLine
    | statusLine :: headerLines => do
      let (status, reason) ← readStatusLine statusLine
      return Head.ofParts status reason headerLines

/-! ### Reading a response -/

/-- The octets of `HTTP/`. -/
def protocolOctets : List UInt8 := [0x48, 0x54, 0x54, 0x50, 0x2F]

/-- Whether the response of a head is still to come: an interim head, or a proxy's answer
in front of a further message. -/
def Head.isSkipped (head : Head) (behind : List UInt8) : Bool :=
  head.isInterim || (head.isConnectReply && protocolOctets.isPrefixOf behind)

/-- Reads the final response. -/
def Response.ofOctets (octets : List UInt8) : Except MessageError Response :=
  match _h : splitHead? octets with
  | none => .error .missingTerminator
  | some (headOctets, behind) =>
    match Head.ofOctets headOctets with
    | .error cause => .error cause
    | .ok head =>
      if head.isSkipped behind then Response.ofOctets behind
      else .ok { head with body := behind }
termination_by octets.length
decreasing_by exact length_of_splitHead? _h

/-- Behind a head that reads well, another message is read or everything is the body. -/
theorem Response.ofOctets_of_splitHead? {octets headOctets behind : List UInt8}
    (h : splitHead? octets = some (headOctets, behind)) :
    Response.ofOctets octets =
      match Head.ofOctets headOctets with
      | .error cause => .error cause
      | .ok head =>
        if head.isSkipped behind then Response.ofOctets behind
        else .ok { head with body := behind } := by
  rw [Response.ofOctets]
  split
  case h_1 hnone =>
    rw [h] at hnone
    cases hnone
  case h_2 hsome =>
    rw [h] at hsome
    obtain ⟨rfl, rfl⟩ := Prod.mk.inj (Option.some.inj hsome)
    rfl

end ServiceTypes.Http
