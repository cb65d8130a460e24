import ServiceTypes.Proofs.Tag.Lookup
import ServiceTypes.Proofs.Tag.Unquoting

/-!
# `ServiceTypes.Proofs.Tag.Rounds`: the rounds of a scan

A scan goes over a tag in rounds. A round splits an entry off what the round
before it left, and the span of the entry is what a literal is read from. The
scan knows octets only and passes over one of them behind a backslash, while a
literal is read by characters and by groups of digits. The theorems:

* `SpanBody.exists_prepend`: an escape that is read ends inside its span.
* `SpanBody.cause_of_literalOctets`: no free double quote, and no backslash at
  the end, is met inside a span.
* `exists_octetsOf_of_remains`: every round starts with whole characters.
* `scan?_inStep`: what every round of a scan does.
-/

set_option autoImplicit false

namespace ServiceTypes.Tag

open Text (octetsOf)

/-! ### Spans as literals -/

/-- What stands behind characters that are no backslashes is the inside of a span as well. -/
theorem SpanBody.drop {text : List Char} (h : SpanBody text) {count : Nat}
    (hfront : ∀ c ∈ text.take count, c ≠ '\\') : SpanBody (text.drop count) := by
  induction count generalizing text with
  | zero => exact h
  | succ count ih =>
    cases h with
    | nil => exact .nil
    | plain _ _ hrest => exact ih hrest fun c hc => hfront c (List.mem_cons_of_mem _ hc)
    | escaped _ => exact absurd rfl (hfront '\\' List.mem_cons_self)

/-- A backslash is no digit. -/
theorem Numeral.ne_backslash {radix : Nat} {digits : List Char} {n : Nat}
    (h : Numeral radix digits n) : ∀ c ∈ digits, c ≠ '\\' := by
  have htable : ∀ p ∈ hexDigits, p.1 ≠ '\\' := by decide
  induction h with
  | nil => exact List.forall_mem_nil _
  | concat _ hdigit ih =>
    intro c hc
    rcases List.mem_append.mp hc with hc | hc
    · exact ih c hc
    · rw [List.mem_singleton.mp hc]
      exact htable _ hdigit.mem

/-- Where an escape is read by its number, no backslash is passed over. -/
theorem ne_backslash_of_numberAt? {radix count : Nat} (hradix : radix ≤ 16) {text : List Char}
    {octets? : Nat → Option (List UInt8)}
    (h : ((numberAt? radix count text).bind octets?).isSome) : ∀ c ∈ text.take count, c ≠ '\\' := by
  obtain ⟨octets, hoctets⟩ := Option.isSome_iff_exists.mp h
  obtain ⟨n, hn, -⟩ := Option.bind_eq_some_iff.mp hoctets
  obtain ⟨-, hdigits⟩ := Option.ite_none_left_eq_some.mp hn
  exact ((number?_eq_some_iff hradix).mp hdigits).ne_backslash

/-- An escape that is read ends inside the span. One that is not read ends the reading. -/
theorem SpanBody.exists_prepend {rest : List Char} (h : SpanBody rest) (e : Char) :
    ∃ front count, literalOctets ('\\' :: e :: rest)
        = prepend front (literalOctets (rest.drop count)) ∧
      (front.isSome → SpanBody (rest.drop count)) := by
  have hnumber : ∀ {count : Nat} {octets? : Nat → Option (List UInt8)},
      ((numberAt? 16 count rest).bind octets?).isSome → SpanBody (rest.drop count) :=
    fun hsome => h.drop (ne_backslash_of_numberAt? (Nat.le_refl 16) hsome)
  rw [literalOctets_backslash]
  by_cases hx : e = 'x'
  · rw [if_pos hx]
    exact ⟨_, 2, rfl, hnumber⟩
  rw [if_neg hx]
  by_cases hu : e = 'u'
  · rw [if_pos hu]
    exact ⟨_, 4, rfl, hnumber⟩
  rw [if_neg hu]
  by_cases hU : e = 'U'
  · rw [if_pos hU]
    exact ⟨_, 8, rfl, hnumber⟩
  rw [if_neg hU]
  by_cases hdigit : (digit? 8 e).isSome
  · rw [if_pos hdigit]
    refine ⟨_, 2, rfl, fun hsome => ?_⟩
    -- The character behind the backslash is the first of the three digits.
    have hdigits := ne_backslash_of_numberAt? (by decide) hsome
    exact h.drop fun c hc => hdigits c (List.mem_cons_of_mem e hc)
  · rw [if_neg hdigit]
    exact ⟨_, 0, rfl, fun _ => h⟩

/-- The front part fails as a bad escape only, and before anything behind it is read. -/
theorem prepend_eq_error_iff {front : Option (List UInt8)}
    {rest : Except LiteralError (List UInt8)} {cause : LiteralError} :
    prepend front rest = .error cause ↔
      (front = none ∧ cause = .badEscape) ∨ (front.isSome ∧ rest = .error cause) := by
  cases front with
  | none => simp [prepend, eq_comm]
  | some os => cases rest <;> simp [prepend]

/-- Reading a span meets its escapes as the scan did: it comes upon no free double quote, and
upon no backslash at the end. -/
theorem SpanBody.cause_of_literalOctets {body : List Char} (h : SpanBody body)
    {cause : LiteralError} (herror : literalOctets body = .error cause) :
    cause = .lineFeed ∨ cause = .badEscape := by
  -- An escape is read with all its digits at once, so the induction is on the length.
  induction hlength : body.length using Nat.strongRecOn generalizing body with
  | ind n ih =>
    cases h with
    | nil => cases herror
    | @plain c rest hquote hbackslash hrest =>
      rw [literalOctets.eq_def] at herror
      dsimp only at herror
      rw [if_neg hquote] at herror
      by_cases hfeed : c = '\n'
      · rw [if_pos hfeed] at herror
        exact .inl (Except.error.inj herror).symm
      · -- A character that stands for itself is read without fail.
        rw [if_neg hfeed, if_neg hbackslash] at herror
        rcases prepend_eq_error_iff.mp herror with ⟨hnone, -⟩ | ⟨-, hbehind⟩
        · cases hnone
        · exact ih rest.length (by simp [← hlength]) hrest hbehind rfl
    | @escaped e rest hrest =>
      obtain ⟨front, count, hread, hkeep⟩ := hrest.exists_prepend e
      rw [hread] at herror
      rcases prepend_eq_error_iff.mp herror with ⟨-, hbad⟩ | ⟨hsome, hbehind⟩
      · exact .inr hbad
      · -- Behind the escape the rest of the span is read, which is shorter.
        refine ih (rest.drop count).length ?_ (hkeep hsome) hbehind rfl
        simp only [← hlength, List.length_drop, List.length_cons]
        omega

/-- A span is between double quotes, and what can be wrong with it is a line feed, an escape, or
octets that are no text. -/
theorem SpanBody.cause_of_unquote {body : List Char} (h : SpanBody body) {cause : LiteralError}
    (herror : unquote (enclosed '"' body) = .error cause) :
    cause = .lineFeed ∨ cause = .badEscape ∨ cause = .notUtf8 := by
  simp only [unquote, between?_enclosed, bind, Except.bind] at herror
  cases hoctets : literalOctets body with
  | error found =>
    rw [hoctets] at herror
    obtain rfl : found = cause := Except.error.inj herror
    exact (h.cause_of_literalOctets hoctets).imp_right .inl
  | ok octets =>
    -- All escapes are read, and what is left to fail is the text of the octets.
    simp only [hoctets] at herror
    split at herror
    case h_1 => cases herror
    case h_2 => exact .inr (.inr (Except.error.inj herror).symm)

/-! ### Rounds -/

/-- The octets of a tag that are left when a round of a scan for a key starts: all of them, or
those behind an entry of another name. -/
inductive Remains (key tag : List UInt8) : List UInt8 → Prop where
  | all : Remains key tag tag
  | behind {rest name span behind : List UInt8} :
    Remains key tag rest →
    scanFirst? (rest.dropWhile (· = 0x20)) = some (some (name, span, behind)) →
    name ≠ key → Remains key tag behind

/-- An entry is cut off octets: all parts are whole characters, the span stands between two
double quotes and is the first to end there, and fewer octets stand behind it. -/
structure CutsEntry (octets name span behind : List UInt8) : Prop where
  shorter : behind.length < octets.length
  name : ∃ cs, name = octetsOf cs
  span : ∃ body, SpanBody body ∧ span = octetsOf (enclosed '"' body)
  behind : ∃ cs, behind = octetsOf cs

/-- A round splits off the entry that a look-up by characters splits off. -/
theorem scanFirst?_skipSpaces (text : List Char) :
    scanFirst? ((octetsOf text).dropWhile (· = 0x20))
      = some ((Entry.first? (skipSpaces text)).map fun split =>
          (octetsOf split.1.name, octetsOf split.1.span, octetsOf split.2)) := by
  rw [dropWhile_octetsOf isSpaceOctet_eq]
  exact scanFirst?_octetsOf _

/-- A round on whole characters cuts an entry off them. -/
theorem cutsEntry_of_scanFirst? {text : List Char} {name span behind : List UInt8}
    (h : scanFirst? ((octetsOf text).dropWhile (· = 0x20)) = some (some (name, span, behind))) :
    CutsEntry (octetsOf text) name span behind := by
  have hshorter : behind.length < (octetsOf text).length :=
    Nat.lt_of_lt_of_le (length_of_scanFirst? h) (List.dropWhile_sublist _).length_le
  rw [scanFirst?_skipSpaces] at h
  obtain ⟨⟨entry, rest⟩, hfirst, hparts⟩ := Option.map_eq_some_iff.mp (Option.some.inj h)
  obtain ⟨hname, hparts⟩ := Prod.mk.inj hparts
  obtain ⟨hspan, hbehind⟩ := Prod.mk.inj hparts
  obtain ⟨body, hbody, henclosed⟩ := (Entry.wellFormed_of_first? hfirst).span
  exact {
    shorter := hshorter
    name := ⟨entry.name, hname.symm⟩
    span := ⟨body, hbody, by rw [← henclosed, hspan]⟩
    behind := ⟨rest, hbehind.symm⟩ }

/-- Every round starts with whole characters. -/
theorem exists_octetsOf_of_remains {key rest : List UInt8} {tag : List Char}
    (h : Remains key (octetsOf tag) rest) : ∃ text, rest = octetsOf text := by
  induction h with
  | all => exact ⟨tag, rfl⟩
  | behind _ hscan _ ih =>
    -- The round before started with whole characters, and left whole characters.
    obtain ⟨text, rfl⟩ := ih
    exact (cutsEntry_of_scanFirst? hscan).behind

/-- A scan of a tag has an answer, and so has each of its rounds: no cut is out of range or
inside a character. The octets grow fewer with each entry. Each span that is cut off stands
between double quotes, and reading it fails only over a line feed, an escape, or octets that are
no text; it never meets another double quote, or the end behind a backslash. -/
theorem scan?_inStep (key tag : List Char) :
    scan? (octetsOf key) (octetsOf tag) = some (find key tag) ∧
    ∀ rest, Remains (octetsOf key) (octetsOf tag) rest →
      ∃ first, scanFirst? (rest.dropWhile (· = 0x20)) = some first ∧
        ∀ name span behind, first = some (name, span, behind) →
          CutsEntry rest name span behind ∧
          ∀ literal cause, span = octetsOf literal → unquote literal = .error cause →
            cause = .lineFeed ∨ cause = .badEscape ∨ cause = .notUtf8 := by
  refine ⟨scan?_octetsOf key tag, fun rest hrest => ?_⟩
  obtain ⟨text, rfl⟩ := exists_octetsOf_of_remains hrest
  refine ⟨_, scanFirst?_skipSpaces text, fun name span behind hfirst => ?_⟩
  have hcuts : CutsEntry (octetsOf text) name span behind :=
    cutsEntry_of_scanFirst? ((scanFirst?_skipSpaces text).trans (congrArg some hfirst))
  refine ⟨hcuts, fun literal cause hliteral herror => ?_⟩
  obtain ⟨body, hbody, hspan⟩ := hcuts.span
  obtain rfl : literal = enclosed '"' body := octetsOf_inj.mp (hliteral.symm.trans hspan)
  exact hbody.cause_of_unquote herror

/-- The scan passes over one octet of `é` behind the backslash, and the span is not read beyond
it. -/
example : find "a".toList "a:\"\\é\\\"\n\" b:\"\"".toList = .undecodable .badEscape := by
  cbv

end ServiceTypes.Tag
