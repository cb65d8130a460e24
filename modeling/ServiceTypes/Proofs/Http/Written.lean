import ServiceTypes.Proofs.Http.Blocks

/-!
# `ServiceTypes.Proofs.Http.Written`: responses read back

A response is written as a status line, one line for each header, an empty
line and the body. What is read from these octets is the response, as long as
it is not taken for the answer of a proxy. The theorems:

* `filterMap_readHeader?_headerLine`: written headers are read back, in order.
* `written_eq`: a written response is a block with the body behind it.
* `isConnectReply_of_canonicalReason`: the reason of the standard makes no
  head that of a proxy.
* `ofOctets_written`: a written response is read back, and without a reason
  the one of the standard stands in for it.
-/

set_option autoImplicit false

namespace ServiceTypes.Http

open Text (OneLine Trimmed octetsOf)

/-! ### Writing -/

/-- A header as it is written. -/
def headerLine (header : String × String) : List Char :=
  header.1.toList ++ ':' :: ' ' :: header.2.toList

namespace Response

/-- The lines of the head of a response. The reason may be missing, together with the space in
front of it. -/
def writtenLines (version : List Char) (reason : Option (List Char)) (r : Response) :
    List (List Char) :=
  (protocolName ++ version ++ ' ' :: (Nat.toDigits 10 r.status ++ Block.reasonPart reason))
    :: r.headers.map headerLine

/-- A response as it is written: the lines of the head and an empty line, each with CRLF, and
the body. -/
def written (version : List Char) (reason : Option (List Char)) (r : Response) : List UInt8 :=
  octetsOf ((writtenLines version reason r).flatMap (· ++ ['\r', '\n']) ++ ['\r', '\n']) ++ r.body

end Response

/-- A header that can be written on a line: no colon in the name, no line ends, and no blanks
at the ends. -/
structure WritableHeader (header : String × String) : Prop where
  name_colonless : ':' ∉ header.1.toList
  name_oneLine : OneLine header.1.toList
  name_trimmed : Trimmed header.1.toList
  value_oneLine : OneLine header.2.toList
  value_trimmed : Trimmed header.2.toList

/-- A final response that can be written. -/
structure Response.Writable (r : Response) : Prop where
  status_le : r.status ≤ greatestStatus
  final : r.status < 100 ∨ 200 ≤ r.status
  reason_ne : r.reason ≠ ""
  reason_oneLine : OneLine r.reason.toList
  reason_trimmed : Trimmed r.reason.toList
  headers : ∀ header ∈ r.headers, WritableHeader header

/-! ### Header lines -/

section Header

variable {header : String × String} (h : WritableHeader header)
include h

/-- A header is read back from its line. -/
theorem readHeader?_headerLine : readHeader? (headerLine header) = some header := by
  have hvalue : Text.trim (' ' :: header.2.toList) = header.2.toList :=
    Text.trim_of_trimmed h.value_trimmed
  refine readHeader?_eq_some_iff.mpr ⟨_, _, rfl, h.name_colonless, ?_, ?_⟩
  · rw [Text.trim_of_trimmed h.name_trimmed, String.ofList_toList]
  · rw [hvalue, String.ofList_toList]

/-- The line of a header is one line and not empty. -/
theorem headerLine_oneLine : OneLine (headerLine header) ∧ headerLine header ≠ [] := by
  have hvalue : OneLine (':' :: ' ' :: header.2.toList) :=
    (h.value_oneLine.cons (by decide) (by decide)).cons (by decide) (by decide)
  exact ⟨h.name_oneLine.append hvalue, List.append_ne_nil_of_right_ne_nil _ (List.cons_ne_nil _ _)⟩

end Header

/-- Written headers are read back, in order. -/
theorem filterMap_readHeader?_headerLine {headers : List (String × String)}
    (h : ∀ header ∈ headers, WritableHeader header) :
    (headers.map headerLine).filterMap readHeader? = headers := by
  induction headers with
  | nil => rfl
  | cons header headers ih =>
    obtain ⟨hheader, hheaders⟩ := List.forall_mem_cons.mp h
    rw [List.map_cons, List.filterMap_cons, readHeader?_headerLine hheader, ih hheaders]

/-! ### Written responses are blocks -/

/-- A version without blanks can stand in a status line. -/
theorem spaceless_of_blankless {version : List Char}
    (h : ∀ c ∈ version, Text.isBlank c = false) : ' ' ∉ version ∧ OneLine version := by
  have hnot : ∀ c, Text.isBlank c = true → c ∉ version := by
    intro c hc hmem
    rw [h c hmem] at hc
    cases hc
  exact ⟨hnot ' ' rfl, hnot '\r' rfl, hnot '\n' rfl⟩

namespace Response

variable {version : List Char} (hversion : ∀ c ∈ version, Text.isBlank c = false)
  {r : Response} (hr : r.Writable) {reason : Option (List Char)}
  (hreason : ∀ text ∈ reason, OneLine text)

/-- The block at the front of a written response. -/
def block : Block where
  version := version
  status := r.status
  reason := reason
  headerLines := r.headers.map headerLine
  version_spaceless := (spaceless_of_blankless hversion).1
  version_oneLine := (spaceless_of_blankless hversion).2
  status_le := hr.status_le
  reason_oneLine := hreason
  headerLines_oneLine := by
    intro line hline
    obtain ⟨header, hheader, rfl⟩ := List.mem_map.mp hline
    exact headerLine_oneLine (hr.headers header hheader)

/-- A written response is a block with the body behind it. -/
theorem written_eq :
    r.written version reason = (block hversion hr hreason).octets ++ r.body := by
  have hempty : octetsOf ['\r', '\n', '\r', '\n'] = emptyLine := by decide
  -- The line end of the last line belongs to the empty line of the block.
  unfold written writtenLines Block.octets
  rw [Text.flatMap_append_ending, List.append_assoc, Text.octetsOf_append, ← hempty]
  rfl

/-- The head of the block has the reason that was written, or else that of the standard. -/
theorem head_block :
    (block hversion hr hreason).head
      = { r.toHead with
          reason := if (Text.trim (reason.getD [])).isEmpty then canonicalReason r.status
            else String.ofList (Text.trim (reason.getD [])) } := by
  show Head.ofParts r.status (Text.trim (reason.getD [])) (r.headers.map headerLine) = _
  unfold Head.ofParts
  rw [filterMap_readHeader?_headerLine hr.headers]

/-- What is read is the response with the reason of the head, if that is final. -/
theorem ofOctets_written_of_head {head : Head} (hhead : (block hversion hr hreason).head = head)
    (hfinal : head.isSkipped r.body = false) :
    Response.ofOctets (r.written version reason) = .ok { head with body := r.body } := by
  rw [written_eq hversion hr hreason, Block.ofOctets_block, hhead, hfinal]
  rfl

/-! ### Reading back -/

/-- With the reason of the standard, only the headers make a head that of a proxy. -/
theorem isConnectReply_of_canonicalReason {head : Head}
    (h : Head.isConnectReply { head with reason := canonicalReason head.status } = true) :
    head.isConnectReply = true := by
  simp only [Head.isConnectReply, canonicalReason_ne_established, Bool.false_or,
    Bool.and_eq_true] at h
  simp only [Head.isConnectReply, Bool.and_eq_true, Bool.or_eq_true]
  exact ⟨h.1, .inr h.2⟩

/-- A response that is written with its reason is read back, unless it would be taken for the
answer of a proxy in front of a message. Written without a reason, with or without the space in
front of it, it is read with the reason of the standard. -/
theorem ofOctets_written {version : List Char} (hversion : ∀ c ∈ version, Text.isBlank c = false)
    {r : Response} (hr : r.Writable)
    (htunnel : ¬ (r.isConnectReply = true ∧ protocolOctets <+: r.body)) :
    Response.ofOctets (r.written version (some r.reason.toList)) = .ok r ∧
      ∀ reason ∈ [none, some []],
        Response.ofOctets (r.written version reason)
          = .ok { r with reason := canonicalReason r.status } := by
  constructor
  · have hgiven : ∀ text ∈ some r.reason.toList, OneLine text := by
      rintro text ⟨⟩
      exact hr.reason_oneLine
    have hne : r.reason.toList ≠ [] := mt String.toList_eq_nil_iff.mp hr.reason_ne
    have hhead : (block hversion hr hgiven).head = r.toHead := by
      rw [head_block, Option.getD_some, Text.trim_of_trimmed hr.reason_trimmed,
        if_neg (mt List.isEmpty_iff.mp hne), String.ofList_toList]
    exact ofOctets_written_of_head hversion hr hgiven hhead
      ((r.isSkipped_eq_false_iff r.body).mpr ⟨hr.final, htunnel⟩)
  · intro reason hmem
    have hnone : reason.getD [] = [] := by
      rcases List.mem_pair.mp hmem with rfl | rfl <;> rfl
    have hgiven : ∀ text ∈ reason, OneLine text := by
      rintro text htext
      rw [Option.mem_def.mp htext, Option.getD_some] at hnone
      rw [hnone]
      decide
    have hhead : (block hversion hr hgiven).head
        = { r.toHead with reason := canonicalReason r.status } := by
      rw [head_block, hnone]
      rfl
    -- The reason of the standard does not turn the response into the answer of a proxy.
    have hstandard : ¬ (Head.isConnectReply { r.toHead with reason := canonicalReason r.status }
        = true ∧ protocolOctets <+: r.body) :=
      fun ⟨hconnect, hbody⟩ => htunnel ⟨isConnectReply_of_canonicalReason hconnect, hbody⟩
    exact ofOctets_written_of_head hversion hr hgiven hhead
      ((Head.isSkipped_eq_false_iff _ r.body).mpr ⟨hr.final, hstandard⟩)

/-! ### An example -/

/-- A success with colons and spaces in its texts and an empty header. Its body is no text, and
it starts like a message and holds empty lines of both kinds. -/
def awkwardResponse : Response where
  status := 200
  reason := "OK: so far"
  headers := [("Content-Type", "a: b; c"), ("", "")]
  body := protocolOctets ++ emptyLine ++ bareEmptyLine ++ [0, 0xFF]

/-- The response can be written. -/
theorem writable_awkwardResponse : awkwardResponse.Writable where
  status_le := by decide
  final := by decide
  reason_ne := by decide
  reason_oneLine := by decide
  reason_trimmed := by decide
  headers := by
    simp only [awkwardResponse, List.forall_mem_cons]
    refine ⟨?_, ?_, List.forall_mem_nil _⟩
    · exact ⟨by decide, by decide, by decide, by decide, by decide⟩
    · exact ⟨by decide, by decide, by decide, by decide, by decide⟩

/-- Its header of a body keeps it from being taken for the answer of a proxy. -/
theorem ofOctets_written_awkward :
    Response.ofOctets (awkwardResponse.written ['2'] (some "OK: so far".toList))
        = .ok awkwardResponse ∧
      Response.ofOctets (awkwardResponse.written ['2'] none)
        = .ok { awkwardResponse with reason := "OK" } := by
  have hversion : ∀ c ∈ ['2'], Text.isBlank c = false := List.forall_mem_singleton.mpr rfl
  have htunnel : ¬ (awkwardResponse.isConnectReply = true
      ∧ protocolOctets <+: awkwardResponse.body) := fun h => absurd h.1 (by decide)
  have hread := ofOctets_written hversion writable_awkwardResponse htunnel
  exact ⟨hread.1, hread.2 none List.mem_cons_self⟩

end Response

end ServiceTypes.Http
