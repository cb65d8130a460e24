import ServiceTypes.Call.Reply
import ServiceTypes.Call.Basic
import ServiceTypes.Proofs.Http.Blocks
import ServiceTypes.Proofs.Json.Word

/-!
# `ServiceTypes.Proofs.Call.Wire`: the reply of a call off the wire

The octets that answer a call hold the final response behind any number of
blocks that are skipped. The theorems:

* `ofOctets_final`: the final response, if it is not taken for a block in
  front of another message.
* `isSkipped_of_items`: a head with status 200 is not, as long as its body
  is JSON.
* `send_of_wire`: a call returns the items of the body, or fails with the
  status of the final response.
-/

set_option autoImplicit false

namespace ServiceTypes

open Http (Block Head Response)

namespace Http

namespace Block

/-- The status with its reason: the one that is given, or else the one of the standard, or
none. -/
def statusText (b : Block) : String :=
  if b.reason.getD [] ≠ [] then
    toString b.status ++ " " ++ String.ofList (b.reason.getD [])
  else if canonicalReason b.status ≠ "" then
    toString b.status ++ " " ++ canonicalReason b.status
  else toString b.status

/-- The status of a block with a trimmed reason is shown as the block has it. -/
theorem statusText_head {b : Block} (h : Text.Trimmed (b.reason.getD [])) :
    b.head.statusText = b.statusText := by
  have hgiven : b.givenReason = b.reason.getD [] := Text.trim_of_trimmed h
  have hhead : b.head.reason
      = if (b.reason.getD []).isEmpty then canonicalReason b.status
        else String.ofList (b.reason.getD []) := by
    rw [← hgiven]
    rfl
  unfold Head.statusText statusText
  rw [hhead]
  -- A reason that is missing or empty is replaced by the canonical one, which may be missing too.
  by_cases hnone : b.reason.getD [] = []
  · rw [hnone, if_neg (not_not_intro rfl)]
    show (if (canonicalReason b.status).isEmpty then toString b.status
      else toString b.status ++ " " ++ canonicalReason b.status) = _
    by_cases hempty : canonicalReason b.status = ""
    · rw [if_pos (String.isEmpty_iff.mpr hempty), if_neg (not_not_intro hempty)]
    · rw [if_neg (mt String.isEmpty_iff.mp hempty), if_pos hempty]
  · have hreason : String.ofList (b.reason.getD []) ≠ "" := fun heq =>
      hnone (String.ofList_inj.mp heq)
    rw [if_pos hnone, if_neg (mt List.isEmpty_iff.mp hnone),
      if_neg (mt String.isEmpty_iff.mp hreason)]
    rfl

end Block

/-! ### The final response -/

/-- Behind skipped blocks, a head that is not skipped starts the response. -/
theorem ofOctets_final {front : List Block} (hfront : ∀ b ∈ front, b.Skipped) {final : Block}
    {body : List UInt8} (hfinal : final.head.isSkipped body = false) :
    Response.ofOctets (front.flatMap Block.octets ++ (final.octets ++ body))
      = .ok { final.head with body := body } := by
  rw [Block.ofOctets_allSkipped hfront (final.protocolOctets_prefix_octets body),
    Block.ofOctets_block, hfinal]
  rfl

/-- A success with a JSON body is no answer of a proxy, whatever its head says. -/
theorem isSkipped_of_items {final : Block} (hstatus : final.status = 200) {body : List UInt8}
    {items : List Json.Value} (hbody : Json.Value.ofText body = .ok (.array items)) :
    final.head.isSkipped body = false := by
  refine (final.head.isSkipped_eq_false_iff body).mpr ⟨.inr (Nat.le_of_eq hstatus.symm), ?_⟩
  -- The head may well be the one of a proxy, so the body has to tell.
  rintro ⟨-, hprotocol⟩
  rw [Json.ofText_of_protocol (List.isPrefixOf_iff_prefix.mpr hprotocol)] at hbody
  cases hbody

end Http

/-! ### Calls -/

/-- Untyped items are taken as they are. -/
theorem Reply.every_ok (items : List Json.Value) :
    Reply.every (fun item => .ok item) items = .ok items := by
  unfold Reply.every
  induction items with
  | nil => rfl
  | cons item items ih =>
    rw [List.mapM_cons, ih]
    rfl

namespace Call

section Send

variable {α : Type} {call : Call} {transport : Transport} {response : Response}
  (h : transport call.request = .ok response) (decode : List Json.Value → Except Json.Error α)
include h

/-- A call whose answer holds items gives what they decode to. -/
theorem send_of_items {items : List Json.Value} (hitems : replyItems response = .ok items) :
    call.send transport decode = (decode items).mapError .reply := by
  unfold send
  rw [h]
  show (replyItems response >>= _) = _
  rw [hitems]
  dsimp only [bind, Except.bind]
  cases decode items <;> rfl

/-- A call whose answer holds no items fails with the same cause. -/
theorem send_of_error {cause : CallError} (hitems : replyItems response = .error cause) :
    call.send transport decode = .error cause := by
  unfold send
  rw [h]
  show (replyItems response >>= _) = _
  rw [hitems]
  rfl

end Send

/-- A response of status 200 whose body is an array holds its items. -/
theorem replyItems_of_array {response : Response} (hstatus : response.status = 200)
    {items : List Json.Value} (hbody : Json.Value.ofText response.body = .ok (.array items)) :
    replyItems response = .ok items := by
  unfold replyItems
  rw [if_neg (not_not_intro hstatus), hbody]

/-- A response of another status holds no items, whatever its body is. -/
theorem replyItems_of_status {response : Response} (hstatus : response.status ≠ 200) :
    replyItems response = .error (.status response.statusText) := by
  unfold replyItems
  rw [if_pos hstatus]

/-- The octets of an answer are skipped blocks, a final head and a body. With status 200 and an
array in the body, a call for untyped items returns the items of the array. With a status
outside the interim ones and the successes, every call fails with the status and its reason. -/
theorem send_of_wire (call : Call) {transport : Transport} {front : List Block}
    (hfront : ∀ b ∈ front, b.Skipped) {final : Block}
    (hreason : Text.Trimmed (final.reason.getD [])) {body : List UInt8}
    (htransport : transport call.request
      = (Response.ofOctets (front.flatMap Block.octets ++ (final.octets ++ body))).mapError
          .malformedResponse) :
    (∀ items, final.status = 200 → Json.Value.ofText body = .ok (.array items) →
        call.send transport (Reply.every fun item => .ok item) = .ok items) ∧
      (final.status < 100 ∨ 300 ≤ final.status →
        ∀ (α : Type) (decode : List Json.Value → Except Json.Error α),
          call.send transport decode = .error (.status final.statusText)) := by
  constructor
  · intro items hstatus hbody
    -- A reply with items is no block to be skipped, whatever its reason is.
    rw [Http.ofOctets_final hfront (Http.isSkipped_of_items hstatus hbody)] at htransport
    rw [send_of_items htransport _ (replyItems_of_array hstatus hbody), Reply.every_ok]
    rfl
  · intro hstatus α decode
    -- A reply with another status is none either, and its body is not looked at.
    rw [Http.ofOctets_final hfront (Block.isSkipped_head_of_status hstatus body)] at htransport
    have hne : final.status ≠ 200 := by omega
    rw [send_of_error htransport decode (replyItems_of_status hne)]
    show Except.error (CallError.status final.head.statusText) = _
    rw [Block.statusText_head hreason]

/-! ### An example -/

/-- An interim response without headers. -/
def continueBlock : Block where
  version := ['1', '.', '1']
  status := 100
  reason := some "Continue".toList
  headerLines := []
  version_spaceless := by decide
  version_oneLine := ⟨by decide, by decide⟩
  status_le := by decide
  reason_oneLine := by
    rintro text ⟨⟩
    exact ⟨by decide, by decide⟩
  headerLines_oneLine := by
    intro line h
    cases h

/-- A success that says what proxies say, without headers. -/
def tunnelBlock : Block where
  version := ['1', '.', '0']
  status := 200
  reason := some "Connection established".toList
  headerLines := []
  version_spaceless := by decide
  version_oneLine := ⟨by decide, by decide⟩
  status_le := by decide
  reason_oneLine := by
    rintro text ⟨⟩
    exact ⟨by decide, by decide⟩
  headerLines_oneLine := by
    intro line h
    cases h

/-- A status that has no reason by the standard, and none given. -/
def unnamedBlock : Block where
  version := ['2']
  status := 599
  reason := none
  headerLines := ["Content-Length: 5".toList]
  version_spaceless := by decide
  version_oneLine := ⟨by decide, by decide⟩
  status_le := by decide
  reason_oneLine := by
    rintro text ⟨⟩
  headerLines_oneLine := by
    intro line h
    rw [List.mem_singleton.mp h]
    exact ⟨⟨by decide, by decide⟩, by decide⟩

/-- The octets of `[null]`. -/
def nullReply : List UInt8 := [0x5B, 0x6E, 0x75, 0x6C, 0x6C, 0x5D]

/-- An interim block and the answer of a proxy are skipped. -/
theorem skipped_front : ∀ b ∈ [continueBlock, tunnelBlock], b.Skipped := by
  intro b hb
  cases List.mem_cons.mp hb with
  | inl heq =>
    rw [heq]
    exact .inl ⟨by decide, by decide⟩
  | inr hmem =>
    rw [List.mem_singleton.mp hmem]
    exact .inr ⟨by decide, by decide, .inl (by decide)⟩

/-- Behind an interim response and the answer of a proxy, a reply that says what the proxy said
is read all the same, and a status without reason fails alone. -/
theorem send_behind_proxy :
    Call.send ⟨"/call", []⟩
        (fun _ => (Response.ofOctets
          ([continueBlock, tunnelBlock].flatMap Block.octets
            ++ (tunnelBlock.octets ++ nullReply))).mapError .malformedResponse)
        (Reply.every fun item => .ok item) = .ok [.null]
      ∧ Call.send ⟨"/call", []⟩
        (fun _ => (Response.ofOctets
          ([continueBlock, tunnelBlock].flatMap Block.octets
            ++ (unnamedBlock.octets ++ nullReply))).mapError .malformedResponse)
        (Reply.every fun item => .ok item) = .error (.status "599") := by
  -- The first and the last letter of the reason are no blanks.
  have htrimmed : Text.Trimmed (tunnelBlock.reason.getD []) := by
    constructor
    · intro c hc
      have hfirst : some 'C' = some c := hc
      rw [← Option.some.inj hfirst]
      rfl
    · intro c hc
      have hlast : some 'd' = some c := hc
      rw [← Option.some.inj hlast]
      rfl
  have hempty : Text.Trimmed (unnamedBlock.reason.getD []) := by
    constructor <;> (intro c hc; cases hc)
  constructor
  · exact (send_of_wire ⟨"/call", []⟩ skipped_front htrimmed rfl).1 [.null] rfl rfl
  · exact (send_of_wire ⟨"/call", []⟩ skipped_front hempty rfl).2 (.inr (by decide)) _ _

end Call

end ServiceTypes
