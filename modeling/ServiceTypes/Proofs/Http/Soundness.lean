import ServiceTypes.Proofs.Http.Blocks
import ServiceTypes.Proofs.Http.Scan

/-!
# `ServiceTypes.Proofs.Http.Soundness`: responses from any octets

Octets come from a server and may be anything. If a response is read from them
at all, it has been checked: it is final, its texts are trimmed and stand on
one line, and its body is the end of the octets. The theorems:

* `of_readStatusLine` / `of_readHeader?`: what is read from one line.
* `Head.sound_of_ofOctets`: what is read from the octets of a head.
* `Response.sound_of_final` / `Response.Sound.of_behind`: one round of the
  reading, which ends or goes on behind a skipped head.
* `ofOctets_sound`: every reading ends, no index is out of range, and what is
  read is sound.
-/

set_option autoImplicit false

namespace ServiceTypes.Http

open Text (Trimmed octetsOf)

/-- A text on one line, without blanks at its ends. -/
structure TrimmedLine (cs : List Char) : Prop where
  noFeed : '\n' ∉ cs
  trimmed : Trimmed cs

/-- A part of a line is trimmed to a text on one line. -/
theorem trimmedLine_trim {part line : List Char} (hline : '\n' ∉ line) (hpart : part ⊆ line) :
    TrimmedLine (Text.trim part) where
  noFeed hmem := hline (hpart (Text.mem_of_mem_trim hmem))
  trimmed := Text.trimmed_trim part

/-! ### Lines -/

/-- The first part of a split stands at the front, and the second one is a part, too. -/
theorem splitSpace_parts (text : List Char) :
    (splitSpace text).1 <+: text ∧ ∀ rest ∈ (splitSpace text).2, rest ⊆ text := by
  have hdrop := List.dropWhile_suffix (l := text) (· ≠ ' ')
  unfold splitSpace
  split
  case h_1 => exact ⟨List.prefix_rfl, fun _ h => by cases h⟩
  case h_2 c rest heq =>
    rw [heq] at hdrop
    refine ⟨List.takeWhile_prefix _, ?_⟩
    rintro _ ⟨⟩
    exact fun d hd => hdrop.subset (List.mem_cons_of_mem c hd)

/-- A status that is read is in range. -/
theorem readStatus?_le {text : List Char} {status : Nat} (h : readStatus? text = some status) :
    status ≤ greatestStatus := by
  simp only [readStatus?, Option.ite_none_left_eq_some, Option.ite_none_right_eq_some] at h
  obtain ⟨-, hle, heq⟩ := h
  rwa [← Option.some.inj heq]

/-- A status line starts like a message, its status is in range, and the reason is trimmed. -/
theorem of_readStatusLine {line reason : List Char} {status : Nat}
    (h : readStatusLine line = .ok (status, reason)) :
    protocolName <+: line ∧ status ≤ greatestStatus ∧
      ∃ given, given ⊆ line ∧ reason = Text.trim given := by
  have htrim : Text.trimEnd line <+: line := List.rdropWhile_prefix _ line
  obtain ⟨hversion, hrest⟩ := splitSpace_parts (Text.trimEnd line)
  unfold readStatusLine at h
  dsimp only at h
  split at h
  case isTrue => cases h
  case isFalse hstarts =>
    rw [Bool.not_eq_true', Bool.not_eq_false, List.isPrefixOf_iff_prefix] at hstarts
    refine ⟨(hstarts.trans hversion).trans htrim, ?_⟩
    split at h
    case h_1 => cases h
    case h_2 rest hsome =>
      obtain ⟨-, hreason⟩ := splitSpace_parts rest
      split at h
      case h_1 => cases h
      case h_2 code hcode =>
        obtain ⟨rfl, rfl⟩ := Prod.mk.inj (Except.ok.inj h)
        refine ⟨readStatus?_le hcode, _, ?_, rfl⟩
        -- A missing reason is the empty part of the line.
        intro c hc
        refine htrim.subset (hrest rest hsome ?_)
        cases hgiven : (splitSpace rest).2 with
        | none =>
          rw [hgiven] at hc
          cases hc
        | some given =>
          rw [hgiven] at hc
          exact hreason given hgiven hc

/-- What is known of a header. -/
structure SoundHeader (header : String × String) : Prop where
  name_colonless : ':' ∉ header.1.toList
  name : TrimmedLine header.1.toList
  value : TrimmedLine header.2.toList

/-- A header that is read from one line is trimmed and stands on it. -/
theorem of_readHeader? {line : List Char} (hline : '\n' ∉ line) {header : String × String}
    (h : readHeader? line = some header) : SoundHeader header := by
  obtain ⟨own, rest, rfl, hcolon, hname, hvalue⟩ := readHeader?_eq_some_iff.mp h
  have hown : own ⊆ own ++ ':' :: rest := List.subset_append_left _ _
  have hrest : rest ⊆ own ++ ':' :: rest := fun c hc =>
    List.mem_append_right own (List.mem_cons_of_mem ':' hc)
  have hfirst : header.1.toList = Text.trim own := by rw [← hname, String.toList_ofList]
  have hsecond : header.2.toList = Text.trim rest := by rw [← hvalue, String.toList_ofList]
  constructor
  · rw [hfirst]
    exact fun hmem => hcolon (Text.mem_of_mem_trim hmem)
  · rw [hfirst]
    exact trimmedLine_trim hline hown
  · rw [hsecond]
    exact trimmedLine_trim hline hrest

/-! ### Heads -/

/-- The reasons of the standard have no line feeds, and no blanks at their ends. -/
theorem trimmedLine_canonicalReason (status : Nat) :
    TrimmedLine (canonicalReason status).toList := by
  obtain ⟨cs, heq, hline, htrimmed, -⟩ := exists_canonicalReason status
  rw [heq, String.toList_ofList]
  exact ⟨hline.noFeed, htrimmed⟩

/-- What is known of a head that has been read. -/
structure Head.Sound (head : Head) : Prop where
  status_le : head.status ≤ greatestStatus
  reason : TrimmedLine head.reason.toList
  reason_empty : head.reason = "" → canonicalReason head.status = ""
  headers : ∀ header ∈ head.headers, SoundHeader header

/-- A head of a trimmed reason and of header lines is sound. -/
theorem Head.sound_ofParts {status : Nat} (hstatus : status ≤ greatestStatus) {reason : List Char}
    (hreason : TrimmedLine reason) {headerLines : List (List Char)}
    (hlines : ∀ line ∈ headerLines, '\n' ∉ line) :
    (Head.ofParts status reason headerLines).Sound where
  status_le := hstatus
  reason := by
    -- The canonical reason stands in for an empty one.
    show TrimmedLine (if reason.isEmpty then canonicalReason status
      else String.ofList reason).toList
    split
    case isTrue => exact trimmedLine_canonicalReason status
    case isFalse => rwa [String.toList_ofList]
  reason_empty := by
    -- A reason stays empty only where the canonical one is empty.
    show (if reason.isEmpty then canonicalReason status else String.ofList reason) = "" → _
    split
    case isTrue => exact id
    case isFalse hne =>
      intro hempty
      exact absurd (List.isEmpty_iff.mpr (String.ofList_inj.mp hempty)) hne
  headers := by
    intro header hmem
    obtain ⟨line, hline, hread⟩ := List.mem_filterMap.mp hmem
    exact of_readHeader? (hlines line hline) hread

/-- The octets of a head start like a message, and the head is sound. -/
theorem Head.sound_of_ofOctets {octets : List UInt8} {head : Head}
    (h : Head.ofOctets octets = .ok head) : protocolOctets <+: octets ∧ head.Sound := by
  unfold Head.ofOctets at h
  split at h
  case h_1 => cases h
  case h_2 text htext =>
    split at h
    case h_1 => cases h
    case h_2 statusLine headerLines hlines =>
      have hfeed : ∀ line ∈ statusLine :: headerLines, '\n' ∉ line := by
        rw [← hlines]
        exact fun line hmem => Text.noFeed_of_mem_lines hmem
      obtain ⟨hfirst, hothers⟩ := List.forall_mem_cons.mp hfeed
      cases hread : readStatusLine statusLine with
      | error cause =>
        rw [hread] at h
        cases h
      | ok parts =>
        obtain ⟨status, reason⟩ := parts
        rw [hread] at h
        obtain ⟨hprotocol, hstatus, given, hgiven, rfl⟩ := of_readStatusLine hread
        rw [← Except.ok.inj h]
        refine ⟨?_, Head.sound_ofParts hstatus (trimmedLine_trim hfirst hgiven) hothers⟩
        -- The status line is the front of the text, and so are its octets.
        obtain ⟨more, hmore⟩ := hprotocol.trans (Text.prefix_of_lines_eq_cons hlines)
        have hname : octetsOf protocolName = protocolOctets := by decide
        rw [Text.ofUtf8?_eq_some_iff.mp htext, Text.utf8_eq_octetsOf, ← hmore,
          Text.octetsOf_append, hname]
        exact List.prefix_append _ _

/-! ### Responses -/

/-- What is known of a response that has been read from octets. -/
structure Response.Sound (r : Response) (octets : List UInt8) : Prop extends r.toHead.Sound where
  protocol : protocolOctets <+: octets
  body : emptyLine ++ r.body <:+ octets ∨ bareEmptyLine ++ r.body <:+ octets
  final : r.status < 100 ∨ 200 ≤ r.status
  noTunnel : 200 ≤ r.status → r.status < 300 →
    (Text.equalsIgnoringCase r.reason "connection established" = true ∨
      ∀ name ∈ Head.entityHeaders, ∀ header ∈ r.headers,
        Text.equalsIgnoringCase header.1 name = false) →
    ¬ protocolOctets <+: r.body

/-- A head without a name in any case has no header of the name. -/
theorem header?_eq_none_iff {head : Head} {name : String} :
    head.header? name = none ↔
      ∀ header ∈ head.headers, Text.equalsIgnoringCase header.1 name = false := by
  unfold Head.header?
  rw [Option.map_eq_none_iff, List.find?_eq_none]
  simp only [Bool.not_eq_true]

section Round

variable {octets headOctets behind : List UInt8} {head : Head}
  (hsplit : splitHead? octets = some (headOctets, behind))
  (hhead : Head.ofOctets headOctets = .ok head)
include hsplit hhead

/-- What starts like a message still does with all octets behind it. -/
theorem protocol_of_splitHead? : protocolOctets <+: octets := by
  have hprotocol := (Head.sound_of_ofOctets hhead).1
  rcases append_of_splitHead? hsplit with rfl | rfl <;>
    exact hprotocol.trans (List.prefix_append _ _)

/-- The reading ends with a head that is not skipped. -/
theorem Response.sound_of_final (hfinal : head.isSkipped behind = false) :
    Response.Sound { head with body := behind } octets where
  toSound := (Head.sound_of_ofOctets hhead).2
  protocol := protocol_of_splitHead? hsplit hhead
  body := (append_of_splitHead? hsplit).imp (fun h => ⟨_, h.symm⟩) fun h => ⟨_, h.symm⟩
  final := ((head.isSkipped_eq_false_iff behind).mp hfinal).1
  noTunnel := by
    intro hlow hhigh hsays hprotocol
    refine ((head.isSkipped_eq_false_iff behind).mp hfinal).2 ⟨?_, hprotocol⟩
    -- The same condition on the headers, once said of all of them and once by look-ups.
    have hnone : (∀ name ∈ Head.entityHeaders, ∀ header ∈ head.headers,
        Text.equalsIgnoringCase header.1 name = false) →
        Head.entityHeaders.all (fun name => (head.header? name).isNone) = true := by
      intro hheaders
      refine List.all_eq_true.mpr fun name hname => ?_
      rw [header?_eq_none_iff.mpr (hheaders name hname)]
      rfl
    rw [Head.isConnectReply, Bool.and_eq_true, Bool.and_eq_true, Bool.or_eq_true]
    exact ⟨⟨decide_eq_true hlow, decide_eq_true hhigh⟩, hsays.imp_right hnone⟩

/-- What is read behind a head has been read from all octets. -/
theorem Response.Sound.of_behind {r : Response} (h : r.Sound behind) : r.Sound octets where
  toSound := h.toSound
  protocol := protocol_of_splitHead? hsplit hhead
  body := by
    have hbehind : behind <:+ octets := by
      rcases append_of_splitHead? hsplit with rfl | rfl <;>
        exact (List.suffix_append _ _).trans (List.suffix_append _ _)
    exact h.body.imp (fun hbody => hbody.trans hbehind) fun hbody => hbody.trans hbehind
  final := h.final
  noTunnel := h.noTunnel

end Round

/-- Whatever has been skipped, the response that is read is sound. -/
theorem Response.sound_of_ofOctets {octets : List UInt8} {r : Response}
    (h : Response.ofOctets octets = .ok r) : r.Sound octets := by
  -- The last round makes the response sound, and each round before it keeps it so.
  fun_induction Response.ofOctets octets with
  | case1 => cases h
  | case2 => cases h
  | case3 octets headOctets behind hsplit head hhead hskipped ih =>
    exact (ih h).of_behind hsplit hhead
  | case4 octets headOctets behind hsplit head hhead hfinal =>
    rw [← Except.ok.inj h]
    exact Response.sound_of_final hsplit hhead (Bool.not_eq_true _ ▸ hfinal)

/-- Reading by index ends for all octets with a response or an error, and no index is out of
range. What is read as a response starts like a message, ends in the body behind an empty line
of either kind, and is sound. -/
theorem ofOctets_sound (octets : List UInt8) :
    scan? octets = some (Response.ofOctets octets) ∧
      ∀ r, Response.ofOctets octets = .ok r → r.Sound octets :=
  ⟨scan?_eq octets, fun _ => Response.sound_of_ofOctets⟩

/-- A final head without a reason, with a blank value and a line that is no header. -/
def bareValueBlock : Block :=
  .ofTexts 410 "" ["Server : b c", "X:", "rest"] (by decide) (by decide) (by decide)

/-- Behind an interim block, the head is read with the reason of the standard and with two of
its lines as headers, and the body may start with empty lines and look like a message. -/
theorem ofOctets_sound_behind_hints :
    Response.Sound ⟨⟨410, "Gone", [("Server", "b c"), ("X", "")]⟩, 10 :: 10 :: protocolOctets⟩
      (Block.hintsBlock.octets ++ (bareValueBlock.octets ++ 10 :: 10 :: protocolOctets)) := by
  refine (ofOctets_sound _).2 _ ?_
  rw [Block.ofOctets_interim (by decide) (by decide), Block.ofOctets_block,
    Block.isSkipped_head_of_status (.inr (by decide))]
  rfl

end ServiceTypes.Http
