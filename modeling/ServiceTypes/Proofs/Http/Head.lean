import Mathlib.Data.List.TakeWhile
import ServiceTypes.Http.Message
import ServiceTypes.Proofs.Text.Blank
import ServiceTypes.Proofs.Text.Lines
import ServiceTypes.Proofs.Text.Octets

/-!
# `ServiceTypes.Proofs.Http.Head`: heads read back

A `Block` is a head by its parts, as it is written on the wire: a status
line and header lines. The parts are free of line ends, so that the head
that is written is the head that is read. The theorems:

* `readStatusLine_statusLine`: the status line gives back the status and the
  reason without blanks around it.
* `ofOctets_lines`: the lines of a block, with either kind of line end, are
  read as its head.
* `readHeader?_eq_some_iff`: what a header line is read as.
* `IsConnectReply.head`: a block whose lines make it the answer of a proxy
  has a head that is taken for one.
-/

set_option autoImplicit false

namespace ServiceTypes.Http

open Text (LineEnd OneLine octetsOf)

/-! ### Blocks -/

/-- A head as it is written. The reason may be missing, together with the space in front of
it. -/
structure Block where
  version : List Char
  status : Nat
  reason : Option (List Char)
  headerLines : List (List Char)
  version_spaceless : ' ' ∉ version
  version_oneLine : OneLine version
  status_le : status ≤ greatestStatus
  reason_oneLine : ∀ text ∈ reason, OneLine text
  headerLines_oneLine : ∀ line ∈ headerLines, OneLine line ∧ line ≠ []

namespace Block

/-- The block of version 3 with these texts. -/
def ofTexts (status : Nat) (reason : String) (headerLines : List String)
    (hstatus : status ≤ greatestStatus) (hreason : OneLine reason.toList)
    (hlines : ∀ line ∈ headerLines.map String.toList, OneLine line ∧ line ≠ []) : Block where
  version := ['3']
  status := status
  reason := some reason.toList
  headerLines := headerLines.map String.toList
  version_spaceless := by decide
  version_oneLine := by decide
  status_le := hstatus
  reason_oneLine := by
    rintro text ⟨⟩
    exact hreason
  headerLines_oneLine := hlines

/-- The reason with the space in front of it. -/
def reasonPart : Option (List Char) → List Char
  | none => []
  | some text => ' ' :: text

/-- The status line: version, status in decimal digits, and reason. -/
def statusLine (b : Block) : List Char :=
  protocolName ++ b.version ++ ' ' :: (Nat.toDigits 10 b.status ++ reasonPart b.reason)

/-- The lines of the head. -/
def lines (b : Block) : List (List Char) :=
  b.statusLine :: b.headerLines

/-- The reason that is given, without blanks around it; empty if there is none. -/
def givenReason (b : Block) : List Char :=
  Text.trim (b.reason.getD [])

/-- The head that the lines stand for. -/
def head (b : Block) : Head :=
  Head.ofParts b.status b.givenReason b.headerLines

end Block

/-! ### Reasons of the standard -/

/-- Every reason of the standard is a trimmed line, and none starts like that of a proxy. -/
theorem exists_canonicalReason (status : Nat) :
    ∃ cs, canonicalReason status = String.ofList cs ∧ OneLine cs ∧ Text.Trimmed cs ∧
      (cs.map Char.toLower).take 4 ≠ ['c', 'o', 'n', 'n'] := by
  unfold canonicalReason
  split <;> exact ⟨_, rfl, by decide +kernel⟩

/-- No reason of the standard is the one that a proxy gives. -/
theorem canonicalReason_ne_established (status : Nat) :
    Text.equalsIgnoringCase (canonicalReason status) "connection established" = false := by
  obtain ⟨cs, heq, -, -, hstart⟩ := exists_canonicalReason status
  rw [heq, Text.equalsIgnoringCase, String.toList_ofList, beq_eq_false_iff_ne]
  intro hsame
  rw [hsame] at hstart
  exact hstart (by decide)

/-! ### Final heads -/

/-- A head is final if it is not interim and no message follows the answer of a proxy. -/
theorem Head.isSkipped_eq_false_iff (head : Head) (behind : List UInt8) :
    head.isSkipped behind = false ↔
      (head.status < 100 ∨ 200 ≤ head.status) ∧
        ¬ (head.isConnectReply = true ∧ protocolOctets <+: behind) := by
  have hinterim : head.isInterim = false ↔ head.status < 100 ∨ 200 ≤ head.status := by
    simp only [Head.isInterim, Bool.and_eq_false_iff, decide_eq_false_iff_not]
    omega
  rw [Head.isSkipped, Bool.or_eq_false_iff, hinterim, ← List.isPrefixOf_iff_prefix,
    ← Bool.and_eq_true, Bool.not_eq_true]

/-- Only a success is taken for the answer of a proxy. -/
theorem Head.status_of_isConnectReply {head : Head} (h : head.isConnectReply = true) :
    200 ≤ head.status ∧ head.status < 300 := by
  unfold Head.isConnectReply at h
  rw [Bool.and_eq_true, Bool.and_eq_true] at h
  exact ⟨of_decide_eq_true h.1.1, of_decide_eq_true h.1.2⟩

/-! ### Splitting at the first of a character -/

section Split

variable {c : Char} {text : List Char} (h : c ∉ text) (rest : List Char)
include h

/-- What stands before the first such character is taken up to it. -/
theorem takeWhile_ne_append : (text ++ c :: rest).takeWhile (· ≠ c) = text := by
  have hall : ∀ d ∈ text, decide (d ≠ c) = true := fun d hd =>
    decide_eq_true fun heq => h (heq ▸ hd)
  have hself : (c :: rest).takeWhile (· ≠ c) = [] := by simp
  rw [List.takeWhile_append_of_pos hall, hself, List.append_nil]

/-- What stands before the first such character is dropped up to it. -/
theorem dropWhile_ne_append : (text ++ c :: rest).dropWhile (· ≠ c) = c :: rest := by
  have hall : ∀ d ∈ text, decide (d ≠ c) = true := fun d hd =>
    decide_eq_true fun heq => h (heq ▸ hd)
  have hself : (c :: rest).dropWhile (· ≠ c) = c :: rest := by simp
  rw [List.dropWhile_append_of_pos hall, hself]

end Split

/-! ### The status line -/

/-- A text without a space is its own first part, and there is no second one. -/
theorem splitSpace_of_notMem {text : List Char} (h : ' ' ∉ text) :
    splitSpace text = (text, none) := by
  have hdrop : text.dropWhile (· ≠ ' ') = [] := by
    rw [List.dropWhile_eq_nil_iff]
    intro c hc
    exact decide_eq_true fun heq => h (heq ▸ hc)
  unfold splitSpace
  rw [hdrop]

/-- A text is split at its first space. -/
theorem splitSpace_append {text : List Char} (h : ' ' ∉ text) (rest : List Char) :
    splitSpace (text ++ ' ' :: rest) = (text, some rest) := by
  unfold splitSpace
  rw [dropWhile_ne_append h, takeWhile_ne_append h]

/-- A reason is split off the text before it, and so is its absence. -/
theorem splitSpace_reasonPart {text : List Char} (h : ' ' ∉ text) (reason : Option (List Char)) :
    splitSpace (text ++ Block.reasonPart reason) = (text, reason) := by
  cases reason with
  | none =>
    rw [Block.reasonPart, List.append_nil]
    exact splitSpace_of_notMem h
  | some rest => exact splitSpace_append h rest

/-- The numeral of a number has digits only. -/
theorem isDigit_of_mem_digits {n : Nat} {c : Char} (h : c ∈ Nat.toDigits 10 n) : c.isDigit :=
  Nat.isDigit_of_mem_toDigits (by decide) (by decide) h

/-- A digit is not any character that is no digit. -/
theorem notMem_digits {c : Char} (hc : c.isDigit = false) (n : Nat) : c ∉ Nat.toDigits 10 n := by
  intro h
  rw [isDigit_of_mem_digits h] at hc
  cases hc

/-- A status in decimal digits is read back. -/
theorem readStatus?_digits {status : Nat} (h : status ≤ greatestStatus) :
    readStatus? (Nat.toDigits 10 status) = some status := by
  -- No digit is taken for the sign that may stand in front.
  have hplus : (Nat.toDigits 10 status).head? ≠ some '+' := fun hhead =>
    notMem_digits rfl status (List.mem_of_head? hhead)
  have hempty : (Nat.toDigits 10 status).isEmpty = false :=
    List.isEmpty_eq_false_iff.mpr Nat.toDigits_ne_nil
  have hall : (Nat.toDigits 10 status).all Char.isDigit = true :=
    List.all_eq_true.mpr fun c hc => isDigit_of_mem_digits hc
  unfold readStatus?
  simp only [if_neg hplus, hempty, hall, Nat.ofDigitChars_ten_toDigits, if_pos h]
  rfl

/-- Blanks at the end of a line are blanks at the end of its reason, if they do not eat it up
together with the space in front. -/
theorem trimEnd_reasonPart {stem : List Char} (hstem : ∀ c ∈ stem.getLast?, Text.isBlank c = false)
    (reason : Option (List Char)) :
    ∃ rest, Text.trimEnd (stem ++ Block.reasonPart reason) = stem ++ Block.reasonPart rest
      ∧ Text.trim (rest.getD []) = Text.trim (reason.getD []) := by
  cases reason with
  | none =>
    refine ⟨none, ?_, rfl⟩
    rw [Block.reasonPart, List.append_nil]
    exact Text.trimEnd_eq_self hstem
  | some text =>
    have hpart : Text.trimEnd (' ' :: text)
        = if (Text.trimEnd text).isEmpty then [] else ' ' :: Text.trimEnd text :=
      Text.trimEnd_append [' '] text
    rw [Block.reasonPart, Text.trimEnd_append, hpart]
    by_cases hempty : (Text.trimEnd text).isEmpty
    · -- an empty reason goes away with its space, and is read as a missing one
      refine ⟨none, ?_, ?_⟩
      · rw [if_pos hempty, Block.reasonPart, List.append_nil]
        exact Text.trimEnd_eq_self hstem
      · show Text.trim [] = Text.trim text
        rw [← Text.trim_trimEnd text, List.isEmpty_iff.mp hempty]
    · refine ⟨some (Text.trimEnd text), ?_, Text.trim_trimEnd text⟩
      rw [if_neg hempty]
      rfl

/-! ### Header lines -/

/-- A header line is a name and a value around the first colon. -/
theorem readHeader?_eq_some_iff {line : List Char} {name value : String} :
    readHeader? line = some (name, value) ↔
      ∃ own rest, line = own ++ ':' :: rest ∧ ':' ∉ own ∧
        String.ofList (Text.trim own) = name ∧ String.ofList (Text.trim rest) = value := by
  constructor
  · intro h
    have hsplit := List.takeWhile_append_dropWhile (p := (· ≠ ':')) (l := line)
    have hcolon := List.head?_dropWhile_not (· ≠ ':') line
    unfold readHeader? at h
    cases hdrop : line.dropWhile (· ≠ ':') with
    | nil =>
      rw [hdrop] at h
      cases h
    | cons c rest =>
      rw [hdrop] at h hsplit hcolon
      -- What stops the search is a colon, and there is none before it.
      have hc : c = ':' := of_decide_eq_false hcolon |> Decidable.not_not.mp
      cases h
      refine ⟨_, rest, hc ▸ hsplit.symm, fun hmem => ?_, rfl, rfl⟩
      have hne := List.mem_takeWhile_imp hmem
      exact absurd hne (by decide)
  · rintro ⟨own, rest, rfl, hown, rfl, rfl⟩
    unfold readHeader?
    rw [dropWhile_ne_append hown, takeWhile_ne_append hown]

namespace Block

/-- The status line gives back the status and the reason. -/
theorem readStatusLine_statusLine (b : Block) :
    readStatusLine b.statusLine = .ok (b.status, b.givenReason) := by
  have hversion : ' ' ∉ protocolName ++ b.version := by
    rw [List.mem_append]
    rintro (h | h)
    · exact absurd h (by decide)
    · exact b.version_spaceless h
  have hdigits : ' ' ∉ Nat.toDigits 10 b.status := notMem_digits rfl b.status
  -- The line is trimmed before it is split, which must not reach behind the reason.
  have hstem : ∀ c ∈ (protocolName ++ b.version ++ ' ' :: Nat.toDigits 10 b.status).getLast?,
      Text.isBlank c = false := by
    intro c hc
    rw [List.getLast?_append, List.getLast?_cons,
      List.getLast?_eq_some_getLast Nat.toDigits_ne_nil] at hc
    rw [← Option.some.inj hc]
    exact Text.isBlank_of_isDigit (isDigit_of_mem_digits (List.getLast_mem _))
  obtain ⟨rest, hline, hreason⟩ := trimEnd_reasonPart hstem b.reason
  have hprotocol : protocolName.isPrefixOf (protocolName ++ b.version) = true :=
    List.isPrefixOf_iff_prefix.mpr (List.prefix_append _ _)
  rw [List.append_assoc, List.cons_append] at hline
  unfold readStatusLine statusLine
  rw [hline, List.append_assoc, List.cons_append]
  simp only [splitSpace_append hversion, hprotocol, splitSpace_reasonPart hdigits,
    readStatus?_digits b.status_le, hreason]
  rfl

/-! ### Whole heads -/

/-- The status line of a block is one line. -/
theorem statusLine_oneLine (b : Block) : OneLine b.statusLine := by
  have hdigits : OneLine (Nat.toDigits 10 b.status) :=
    ⟨notMem_digits rfl b.status, notMem_digits rfl b.status⟩
  have hreason : OneLine (reasonPart b.reason) := by
    have h := b.reason_oneLine
    cases hb : b.reason with
    | none => exact ⟨List.not_mem_nil, List.not_mem_nil⟩
    | some text => exact (h text hb).cons (by decide) (by decide)
  have hprotocol : OneLine protocolName := ⟨by decide, by decide⟩
  exact (hprotocol.append b.version_oneLine).append
    ((hdigits.append hreason).cons (by decide) (by decide))

/-- Each line of a block is one line and not empty. -/
theorem lines_oneLine (b : Block) : ∀ line ∈ b.lines, OneLine line ∧ line ≠ [] := by
  intro line h
  cases List.mem_cons.mp h with
  | inl heq =>
    rw [heq]
    exact ⟨b.statusLine_oneLine, List.cons_ne_nil _ _⟩
  | inr hmem => exact b.headerLines_oneLine line hmem

/-- The lines of a block are read as its head. -/
theorem ofOctets_lines (b : Block) {ending : List Char} (hend : LineEnd ending) :
    Head.ofOctets (octetsOf (ending.intercalate b.lines)) = .ok b.head := by
  unfold Head.ofOctets
  rw [Text.ofUtf8?_octetsOf]
  simp only [String.toList_ofList]
  rw [Text.lines_intercalate hend b.lines_oneLine]
  show (readStatusLine b.statusLine >>= _) = _
  rw [b.readStatusLine_statusLine]
  rfl

/-! ### Interim heads and proxy answers -/

/-- Whether a header line has the given name, in any case. -/
def Carries (b : Block) (name : String) : Prop :=
  ∃ line ∈ b.headerLines, ∃ own value, line = own ++ ':' :: value ∧ ':' ∉ own ∧
    Text.equalsIgnoringCase (String.ofList (Text.trim own)) name = true

/-- The answer of a proxy to a request for a tunnel: a success that says so in any case, or
one that carries none of the headers of a body. -/
def IsConnectReply (b : Block) : Prop :=
  200 ≤ b.status ∧ b.status < 300 ∧
    (Text.equalsIgnoringCase (String.ofList b.givenReason) "connection established" = true ∨
      ∀ name ∈ Head.entityHeaders, ¬ b.Carries name)

/-- A header that is found in the head of a block stands in one of its lines. -/
theorem carries_of_header? {b : Block} {name : String}
    (h : (b.head.header? name).isSome) : b.Carries name := by
  unfold Head.header? at h
  rw [Option.isSome_map] at h
  obtain ⟨⟨own, value⟩, hfind⟩ := Option.isSome_iff_exists.mp h
  obtain ⟨line, hline, hread⟩ := List.mem_filterMap.mp (List.mem_of_find?_eq_some hfind)
  have hname := List.find?_some hfind
  obtain ⟨cs, rest, rfl, hcolon, rfl, -⟩ := readHeader?_eq_some_iff.mp hread
  exact ⟨_, hline, cs, rest, rfl, hcolon, hname⟩

/-- The answer of a proxy is taken for one. -/
theorem IsConnectReply.head {b : Block} (h : b.IsConnectReply) : b.head.isConnectReply = true := by
  obtain ⟨hlow, hhigh, hsays⟩ := h
  have hstatus : (decide (200 ≤ b.status) && decide (b.status < 300)) = true := by
    rw [decide_eq_true hlow, decide_eq_true hhigh]
    rfl
  unfold Head.isConnectReply
  show (decide (200 ≤ b.status) && decide (b.status < 300) && _) = true
  rw [hstatus, Bool.true_and, Bool.or_eq_true]
  cases hsays with
  | inl hreason =>
    -- A reason that says something is not empty, so it is not replaced.
    left
    have hgiven : b.givenReason.isEmpty = false := by
      cases hempty : b.givenReason with
      | nil =>
        rw [hempty] at hreason
        cases hreason
      | cons c cs => rfl
    show Text.equalsIgnoringCase (if b.givenReason.isEmpty then canonicalReason b.status
      else String.ofList b.givenReason) "connection established" = true
    rw [hgiven]
    exact hreason
  | inr hheaders =>
    right
    rw [List.all_eq_true]
    intro name hname
    cases hheader : b.head.header? name with
    | none => rfl
    | some value =>
      exact absurd (carries_of_header? (by rw [hheader]; rfl)) (hheaders name hname)

end Block

end ServiceTypes.Http
