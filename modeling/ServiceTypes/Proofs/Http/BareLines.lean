import ServiceTypes.Proofs.Http.Blocks
import ServiceTypes.Proofs.Http.Soundness

/-!
# `ServiceTypes.Proofs.Http.BareLines`: heads with bare line feeds

The lines of a head may end in bare line feeds. Such a head ends at an empty
line with a bare line feed, but an empty line between CRLF line ends is looked
for first, and in all octets. So the body has a say in where the head ends.
The theorems:

* `splitHead?_bareOctets`: the head ends at its own empty line if the body has
  no empty line between CRLF line ends.
* `exists_splitHead?_bareOctets`: otherwise the head takes in a part of the
  body.
* `ofOctets_bare_iff`: a response with bare line feeds is read as it is written
  exactly if its body has no empty line between CRLF line ends.
-/

set_option autoImplicit false

namespace ServiceTypes.Http

open Text (octetsOf)

/-- The body of a response stands behind the first head. -/
theorem body_isSuffix_of_splitHead? {octets headOctets behind : List UInt8} {r : Response}
    (hsplit : splitHead? octets = some (headOctets, behind))
    (h : Response.ofOctets octets = .ok r) : r.body <:+ behind := by
  rw [Response.ofOctets_of_splitHead? hsplit] at h
  split at h
  case h_1 => cases h
  case h_2 head hhead =>
    split at h
    case isTrue =>
      -- The body stands at the end of what is read on.
      rcases (Response.sound_of_ofOctets h).body with hbody | hbody <;>
        exact (List.suffix_append _ _).trans hbody
    case isFalse =>
      rw [← Except.ok.inj h]

namespace Block

/-- The octets of a block with bare line feeds: each line ends in one, and so does the empty
line behind them. -/
def bareOctets (b : Block) : List UInt8 :=
  octetsOf (b.lines.flatMap (· ++ ['\n']) ++ ['\n'])

/-- A block with bare line ends is its lines, with a line feed between them and an empty line behind
them. -/
theorem bareOctets_eq (b : Block) :
    b.bareOctets = octetsOf (['\n'].intercalate b.lines) ++ emptyLineOf ['\n'] := by
  unfold bareOctets lines emptyLineOf
  rw [Text.flatMap_append_ending, List.append_assoc, Text.octetsOf_append]

/-- A block with bare line feeds has no carriage return. -/
theorem noReturn_bareOctets (b : Block) : (13 : UInt8) ∉ b.bareOctets := by
  refine Text.notMem_octetsOf (by decide) ?_
  rw [List.mem_append, List.mem_flatMap]
  rintro (⟨line, hline, hmem⟩ | hmem)
  · rcases List.mem_append.mp hmem with hmem | hmem
    · exact (b.lines_oneLine line hline).1.noReturn hmem
    · exact absurd hmem (by decide)
  · exact absurd hmem (by decide)

/-- An empty line between CRLF line ends is first met in the body. -/
theorem splitAround_bareOctets (b : Block) (body : List UInt8) :
    splitAround emptyLine [] (b.bareOctets ++ body)
      = splitAround emptyLine (b.bareOctets.reverse ++ []) body :=
  splitAround_append b.noReturn_bareOctets [10, 13, 10] [] body

variable (b : Block) {body : List UInt8}

/-- Without such a line in the body, the head ends at its own empty line. -/
theorem splitHead?_bareOctets (h : ¬ emptyLine <:+: body) :
    splitHead? (b.bareOctets ++ body)
      = some (octetsOf (['\n'].intercalate b.lines), body) := by
  have hnone : splitAround emptyLine [] (b.bareOctets ++ body) = none := by
    rw [splitAround_bareOctets]
    exact (splitAround_eq_none_iff _ _ _).mpr h
  -- The search for the other kind of empty line finds nothing, so the bare one decides.
  unfold splitHead?
  rw [hnone, bareOctets_eq, List.append_assoc, ← emptyLineOf_bare]
  exact splitAround_lines .bare b.lines_oneLine [] body

/-- With such a line in the body, less than the body is left behind the head. -/
theorem exists_splitHead?_bareOctets (h : emptyLine <:+: body) :
    ∃ headOctets behind, splitHead? (b.bareOctets ++ body) = some (headOctets, behind)
      ∧ behind.length < body.length := by
  have hsome : splitAround emptyLine (b.bareOctets.reverse ++ []) body ≠ none := fun hnone =>
    (splitAround_eq_none_iff _ _ _).mp hnone h
  obtain ⟨⟨headOctets, behind⟩, hfound⟩ := Option.ne_none_iff_exists'.mp hsome
  refine ⟨headOctets, behind, ?_, length_of_splitAround (by decide) hfound⟩
  unfold splitHead?
  rw [splitAround_bareOctets, hfound]

/-- A final response with bare line feeds is read as it is written, exactly if its body has no
empty line between CRLF line ends. Any other octets may stand in the body, empty lines of bare
line feeds among them. -/
theorem ofOctets_bare_iff (b : Block) (hfinal : b.status < 100 ∨ 300 ≤ b.status)
    (body : List UInt8) :
    Response.ofOctets (b.bareOctets ++ body) = .ok { b.head with body := body }
      ↔ ¬ emptyLine <:+: body := by
  constructor
  · -- What is left behind such a head is too short for the whole body.
    intro hread hinfix
    obtain ⟨headOctets, behind, hsplit, hlength⟩ := b.exists_splitHead?_bareOctets hinfix
    have hbody : body <:+ behind := body_isSuffix_of_splitHead? hsplit hread
    exact absurd hbody.length_le (Nat.not_le_of_lt hlength)
  · intro hinfix
    rw [Response.ofOctets_of_splitHead? (b.splitHead?_bareOctets hinfix), b.ofOctets_lines .bare]
    dsimp only
    rw [isSkipped_head_of_status hfinal]
    rfl

/-! ### An example -/

/-- A final head with one header. -/
def missingBlock : Block :=
  ofTexts 404 "Not Found" ["X-A: 1"] (by decide) (by decide) (by decide)

/-- A body may have empty lines of bare line feeds, and other carriage returns. -/
theorem ofOctets_bare_of_feeds :
    Response.ofOctets (missingBlock.bareOctets ++ [13, 10, 10, 10, 13, 10])
      = .ok { missingBlock.head with body := [13, 10, 10, 10, 13, 10] } :=
  (ofOctets_bare_iff missingBlock (.inr (by decide)) _).mpr (by decide)

/-- Two lines of a body with an empty line between CRLF line ends, of which the first one looks
like a header. -/
def lineBody : List UInt8 :=
  octetsOf "foo: z\r\n\r\nbar".toList

/-- The first line of such a body is read as a header, and is missing in the body. -/
theorem ofOctets_bare_swallows_header :
    Response.ofOctets (missingBlock.bareOctets ++ lineBody)
        = .ok { status := 404, reason := "Not Found", headers := [("X-A", "1"), ("foo", "z")],
                body := octetsOf "bar".toList } ∧
      missingBlock.head.headers = [("X-A", "1")] := by
  have hsplit : splitHead? (missingBlock.bareOctets ++ lineBody)
      = some (octetsOf "HTTP/3 404 Not Found\nX-A: 1\n\nfoo: z".toList, octetsOf "bar".toList) := by
    decide +kernel
  have hhead : Head.ofOctets (octetsOf "HTTP/3 404 Not Found\nX-A: 1\n\nfoo: z".toList)
      = .ok ⟨404, "Not Found", [("X-A", "1"), ("foo", "z")]⟩ := by
    unfold Head.ofOctets
    rw [Text.ofUtf8?_octetsOf]
    decide +kernel
  rw [Response.ofOctets_of_splitHead? hsplit, hhead]
  exact ⟨rfl, by decide +kernel⟩

end Block

end ServiceTypes.Http
