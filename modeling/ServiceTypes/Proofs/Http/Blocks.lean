import ServiceTypes.Proofs.Http.Head
import ServiceTypes.Proofs.Http.Search

/-!
# `ServiceTypes.Proofs.Http.Blocks`: blocks in front of a message

A message may come behind any number of blocks that another message
follows: interim responses and the answers of proxies. The theorems:

* `splitHead?_octets`: the head of a block ends at its own empty line,
  whatever follows it.
* `ofOctets_block`: a block is skipped, or it is the head of the response
  and all octets behind it are the body.
* `ofOctets_interim` / `ofOctets_connectReply`: one skipped block does not
  change what the octets behind it are read as.
* `ofOctets_behind_blocks`: nor does any number of them, whatever the octets
  are.
-/

set_option autoImplicit false

namespace ServiceTypes.Http

open Text (LineEnd OneLine octetsOf)

/-! ### The end of a head -/

/-- The empty line behind a line, both with the given line end. -/
def emptyLineOf (ending : List Char) : List UInt8 :=
  octetsOf (ending ++ ending)

/-- With CRLF the empty line is the one that a head is searched for first. -/
theorem emptyLineOf_crlf : emptyLineOf ['\r', '\n'] = emptyLine := by decide

/-- With bare line feeds it is the one that a head is searched for next. -/
theorem emptyLineOf_bare : emptyLineOf ['\n'] = bareEmptyLine := by decide

/-- Joined lines do not start with a line end. -/
theorem exists_cons_octetsOf_lines {line : List Char} (hline : OneLine line) (hne : line ≠ [])
    (ending : List Char) (ls : List (List Char)) :
    ∃ b rest, octetsOf (ending.intercalate (line :: ls)) = b :: rest ∧ b ≠ 13 ∧ b ≠ 10 := by
  obtain ⟨b, octets, hb⟩ := List.exists_cons_of_ne_nil (Text.octetsOf_ne_nil hne)
  have hreturn : (13 : UInt8) ∉ octetsOf line := Text.notMem_octetsOf (by decide) hline.noReturn
  have hfeed : (10 : UInt8) ∉ octetsOf line := Text.notMem_octetsOf (by decide) hline.noFeed
  rw [hb, List.mem_cons, not_or] at hreturn hfeed
  obtain ⟨more, hmore⟩ := Text.exists_intercalate_cons ending line ls
  rw [hmore, Text.octetsOf_append, hb, List.cons_append]
  exact ⟨b, _, rfl, Ne.symm hreturn.1, Ne.symm hfeed.1⟩

section EmptyLine

variable {ending : List Char} (hend : LineEnd ending)
include hend

/-- The first octet of an empty line stands in no line. -/
theorem exists_emptyLineOf :
    ∃ first rest, emptyLineOf ending = first :: rest
      ∧ ∀ line, OneLine line → first ∉ octetsOf line := by
  cases hend with
  | bare => exact ⟨10, [10], by decide, fun line h => Text.notMem_octetsOf (by decide) h.noFeed⟩
  | crlf =>
    exact ⟨13, [10, 13, 10], by decide, fun line h => Text.notMem_octetsOf (by decide) h.noReturn⟩

/-- A line holds no part of an empty line. -/
theorem splitAround_line {line : List Char} (hline : OneLine line) (seen rest : List UInt8) :
    splitAround (emptyLineOf ending) seen (octetsOf line ++ rest)
      = splitAround (emptyLineOf ending) ((octetsOf line).reverse ++ seen) rest := by
  obtain ⟨first, pattern, hpattern, hnot⟩ := exists_emptyLineOf hend
  rw [hpattern]
  exact splitAround_append (hnot line hline) pattern seen rest

/-- An empty line is found where the search stands before it. -/
theorem splitAround_emptyLineOf (seen rest : List UInt8) :
    splitAround (emptyLineOf ending) seen (emptyLineOf ending ++ rest)
      = some (seen.reverse, rest) := by
  obtain ⟨first, pattern, hpattern, -⟩ := exists_emptyLineOf hend
  rw [hpattern]
  exact splitAround_self first pattern seen rest

/-- A line end is not the empty line, if a line follows that starts with no line end. -/
theorem splitAround_ending {b : UInt8} (hreturn : b ≠ 13) (hfeed : b ≠ 10)
    (seen rest : List UInt8) :
    splitAround (emptyLineOf ending) seen (octetsOf ending ++ b :: rest)
      = splitAround (emptyLineOf ending) ((octetsOf ending).reverse ++ seen) (b :: rest) := by
  cases hend with
  | bare =>
    -- Behind the line feed stands no second one.
    have hfirst : ¬ bareEmptyLine.isPrefixOf (10 :: b :: rest) = true := by
      show ¬ ((10 : UInt8) == b && _) = true
      rw [beq_eq_false_iff_ne.mpr hfeed.symm, Bool.false_and]
      exact Bool.false_ne_true
    rw [emptyLineOf_bare]
    show splitAround bareEmptyLine seen (10 :: b :: rest) = _
    rw [splitAround, if_neg hfirst]
    rfl
  | crlf =>
    -- Behind the line ending stands no second one, and its line feed starts none either.
    have hfirst : ¬ emptyLine.isPrefixOf (13 :: 10 :: b :: rest) = true := by
      show ¬ ((13 : UInt8) == b && _) = true
      rw [beq_eq_false_iff_ne.mpr hreturn.symm, Bool.false_and]
      exact Bool.false_ne_true
    have hsecond : ¬ emptyLine.isPrefixOf (10 :: b :: rest) = true := Bool.false_ne_true
    rw [emptyLineOf_crlf]
    show splitAround emptyLine seen (13 :: 10 :: b :: rest) = _
    rw [splitAround, if_neg hfirst, splitAround, if_neg hsecond]
    rfl

/-- Joined lines end at the empty line behind them. -/
theorem splitAround_lines {ls : List (List Char)} (h : ∀ line ∈ ls, OneLine line ∧ line ≠ [])
    (seen behind : List UInt8) :
    splitAround (emptyLineOf ending) seen
        (octetsOf (ending.intercalate ls) ++ (emptyLineOf ending ++ behind))
      = some (seen.reverse ++ octetsOf (ending.intercalate ls), behind) := by
  induction ls generalizing seen with
  | nil =>
    rw [List.intercalate_nil]
    show splitAround _ seen (emptyLineOf ending ++ behind) = some (seen.reverse ++ [], behind)
    rw [List.append_nil]
    exact splitAround_emptyLineOf hend seen behind
  | cons line ls ih =>
    obtain ⟨hline, hne⟩ := h line List.mem_cons_self
    cases ls with
    | nil =>
      rw [List.intercalate_singleton, splitAround_line hend hline, splitAround_emptyLineOf hend,
        List.reverse_append, List.reverse_reverse]
    | cons next ls =>
      have hls : ∀ line ∈ next :: ls, OneLine line ∧ line ≠ [] := fun l hl =>
        h l (List.mem_cons_of_mem line hl)
      obtain ⟨hnext, hnextNe⟩ := hls next List.mem_cons_self
      obtain ⟨b, rest, hb, hreturn, hfeed⟩ := exists_cons_octetsOf_lines hnext hnextNe ending ls
      have hrest := ih hls ((octetsOf ending).reverse ++ ((octetsOf line).reverse ++ seen))
      rw [List.intercalate_cons_cons, Text.octetsOf_append, Text.octetsOf_append]
      rw [hb] at hrest ⊢
      -- Over the line, over its line end, and on with the next line.
      calc splitAround (emptyLineOf ending) seen
            (octetsOf line ++ octetsOf ending ++ b :: rest ++ (emptyLineOf ending ++ behind))
          = splitAround (emptyLineOf ending) seen
              (octetsOf line ++ (octetsOf ending
                ++ b :: (rest ++ (emptyLineOf ending ++ behind)))) := by
            simp only [List.append_assoc, List.cons_append]
        _ = splitAround (emptyLineOf ending) ((octetsOf ending).reverse
              ++ ((octetsOf line).reverse ++ seen))
              (b :: rest ++ (emptyLineOf ending ++ behind)) := by
            rw [splitAround_line hend hline, splitAround_ending hend hreturn hfeed]
            rfl
        _ = some (seen.reverse ++ (octetsOf line ++ octetsOf ending ++ b :: rest), behind) := by
            rw [hrest]
            simp only [List.reverse_append, List.reverse_reverse, List.append_assoc]

end EmptyLine

/-! ### Blocks on the wire -/

namespace Block

/-- The octets of a block: its lines between CRLF line ends, and an empty line. -/
def octets (b : Block) : List UInt8 :=
  octetsOf (['\r', '\n'].intercalate b.lines) ++ emptyLine

/-- A block that another message follows. -/
def Skipped (b : Block) : Prop :=
  (100 ≤ b.status ∧ b.status < 200) ∨ b.IsConnectReply

/-- The octets of a block are split into its lines and whatever stands behind it. -/
theorem splitHead?_octets (b : Block) (behind : List UInt8) :
    splitHead? (b.octets ++ behind)
      = some (octetsOf (['\r', '\n'].intercalate b.lines), behind) := by
  unfold splitHead? octets
  rw [List.append_assoc, ← emptyLineOf_crlf, splitAround_lines .crlf b.lines_oneLine]
  rfl

/-- A block is skipped, or everything behind it is the body of the response. -/
theorem ofOctets_block (b : Block) (behind : List UInt8) :
    Response.ofOctets (b.octets ++ behind)
      = if b.head.isSkipped behind then Response.ofOctets behind
        else .ok { b.head with body := behind } := by
  rw [Response.ofOctets_of_splitHead? (b.splitHead?_octets behind), b.ofOctets_lines .crlf]

/-- Every block starts like a message. -/
theorem protocolOctets_prefix_octets (b : Block) (behind : List UInt8) :
    protocolOctets <+: b.octets ++ behind := by
  obtain ⟨more, hmore⟩ := Text.exists_intercalate_cons ['\r', '\n'] b.statusLine b.headerLines
  have hprotocol : octetsOf protocolName = protocolOctets := by decide
  rw [octets, lines, hmore, statusLine]
  simp only [Text.octetsOf_append, hprotocol, List.append_assoc]
  exact List.prefix_append _ _

/-- A status that is neither interim nor a success is final, whatever the body is. -/
theorem isSkipped_head_of_status {b : Block} (hstatus : b.status < 100 ∨ 300 ≤ b.status)
    (body : List UInt8) : b.head.isSkipped body = false := by
  refine (b.head.isSkipped_eq_false_iff body).mpr ⟨?_, fun ⟨hconnect, _⟩ => ?_⟩
  · exact hstatus.imp_right fun h => Nat.le_trans (by decide) h
  · have hrange : 200 ≤ b.status ∧ b.status < 300 := Head.status_of_isConnectReply hconnect
    omega

/-! ### Skipped blocks -/

/-- An interim block does not change the response, whatever follows it. -/
theorem ofOctets_interim {b : Block} (hlow : 100 ≤ b.status) (hhigh : b.status < 200)
    (message : List UInt8) :
    Response.ofOctets (b.octets ++ message) = Response.ofOctets message := by
  have hskipped : b.head.isSkipped message = true := by
    rw [← Bool.not_eq_false, Head.isSkipped_eq_false_iff]
    rintro ⟨hfinal, -⟩
    have hstatus : b.status < 100 ∨ 200 ≤ b.status := hfinal
    omega
  rw [ofOctets_block, if_pos hskipped]

/-- The answer of a proxy does not change the response of a message behind it. -/
theorem ofOctets_connectReply {b : Block} (h : b.IsConnectReply) {message : List UInt8}
    (hmessage : protocolOctets <+: message) :
    Response.ofOctets (b.octets ++ message) = Response.ofOctets message := by
  have hskipped : b.head.isSkipped message = true := by
    rw [← Bool.not_eq_false, Head.isSkipped_eq_false_iff]
    exact fun ⟨_, hnot⟩ => hnot ⟨h.head, hmessage⟩
  rw [ofOctets_block, if_pos hskipped]

/-- A skipped block in front of a message does not change the response. -/
theorem ofOctets_skipped {b : Block} (h : b.Skipped) {message : List UInt8}
    (hmessage : b.IsConnectReply → protocolOctets <+: message) :
    Response.ofOctets (b.octets ++ message) = Response.ofOctets message := by
  cases h with
  | inl hinterim => exact ofOctets_interim hinterim.1 hinterim.2 message
  | inr hconnect => exact ofOctets_connectReply hconnect (hmessage hconnect)

/-- Nor do any number of them. -/
theorem ofOctets_allSkipped {front : List Block} (h : ∀ b ∈ front, b.Skipped)
    {message : List UInt8} (hmessage : protocolOctets <+: message) :
    Response.ofOctets (front.flatMap octets ++ message) = Response.ofOctets message := by
  induction front with
  | nil => rfl
  | cons b front ih =>
    -- What follows a block is another block or the message, and both start alike.
    have hrest : protocolOctets <+: front.flatMap octets ++ message := by
      cases front with
      | nil => exact hmessage
      | cons next front =>
        rw [List.flatMap_cons, List.append_assoc]
        exact next.protocolOctets_prefix_octets _
    rw [List.flatMap_cons, List.append_assoc,
      ofOctets_skipped (h b List.mem_cons_self) fun _ => hrest,
      ih fun other hmem => h other (List.mem_cons_of_mem b hmem)]

/-- Blocks in front of octets do not change what the octets are read as, be it a response or
an error. The last block decides what the octets may be: behind the answer of a proxy they
start like a message, and behind an interim block they are any octets. -/
theorem ofOctets_behind_blocks {front : List Block} (hfront : ∀ b ∈ front, b.Skipped)
    {message : List UInt8}
    (hlast : ∀ b ∈ front.getLast?, b.IsConnectReply → protocolOctets <+: message) :
    Response.ofOctets (front.flatMap octets ++ message) = Response.ofOctets message := by
  rcases List.eq_nil_or_concat front with rfl | ⟨init, last, rfl⟩
  · rfl
  · rw [List.concat_eq_append] at hfront hlast ⊢
    have hinit : ∀ b ∈ init, b.Skipped := fun b hb => hfront b (List.mem_append_left _ hb)
    have hskipped : last.Skipped := hfront last (List.mem_append_right _ List.mem_cons_self)
    -- The last block is itself a message for those in front of it.
    have hstart : protocolOctets <+: last.octets ++ message :=
      last.protocolOctets_prefix_octets message
    rw [List.flatMap_append, List.flatMap_singleton, List.append_assoc,
      ofOctets_allSkipped hinit hstart, ofOctets_skipped hskipped]
    exact hlast last List.getLast?_concat

/-! ### An example -/

/-- The answer of a proxy that says so, although it has a header of a body. -/
def establishedBlock : Block :=
  ofTexts 204 "Connection ESTABLISHED" ["Content-Length: 0"] (by decide) (by decide) (by decide)

/-- An interim response with a header. -/
def hintsBlock : Block :=
  ofTexts 103 "Early Hints" ["Link: </style>"] (by decide) (by decide) (by decide)

/-- Behind an interim block the octets need not be a message, and their error is the answer. -/
theorem ofOctets_behind_hints :
    Response.ofOctets ([establishedBlock, hintsBlock].flatMap octets ++ [0xFF, 13, 10, 13, 10])
      = .error .headerNotUtf8 := by
  have hfront : ∀ b ∈ [establishedBlock, hintsBlock], b.Skipped := by
    simp only [List.forall_mem_cons]
    exact ⟨.inr ⟨by decide, by decide, .inl (by decide)⟩, .inl ⟨by decide, by decide⟩,
      List.forall_mem_nil _⟩
  have hlast : ∀ b ∈ [establishedBlock, hintsBlock].getLast?, b.IsConnectReply →
      protocolOctets <+: [0xFF, 13, 10, 13, 10] := by
    -- A status below 200 is no success.
    rintro b ⟨⟩ ⟨hlow, -⟩
    exact absurd hlow (by decide)
  have hsplit : splitHead? [0xFF, 13, 10, 13, 10] = some ([0xFF], []) := rfl
  rw [ofOctets_behind_blocks hfront hlast, Response.ofOctets_of_splitHead? hsplit]
  rfl

end Block

end ServiceTypes.Http
