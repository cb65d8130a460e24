import ServiceTypes.Tag.Entry
import ServiceTypes.Text.Utf8

/-!
# `ServiceTypes.Tag.Scan`: looking up a key octet by octet

A tag is searched for a key without decoding its characters: everything
that ends a name or a span is a single octet. Behind a backslash one
octet is passed over, whatever character it belongs to.

* `slice?` cuts a text out of the octets of a text, unless that would
  cut a character;
* `closingQuote` is the index at which a span ends;
* `scanFirst?` splits off the first entry, and `scan?` looks for the
  first entry of a key. They have no answer if a cut is refused.
-/

set_option autoImplicit false

namespace ServiceTypes.Tag

open Text (isContinuation ofUtf8?)

/-! ### Cutting octets -/

/-- Whether a character starts at an index, or all octets end there. -/
def isBoundary (octets : List UInt8) (i : Nat) : Bool :=
  i == 0 || i == octets.length || octets[i]?.any fun b => !isContinuation b

/-- The octets from one index up to another, if both are in range and no character is cut. -/
def slice? (octets : List UInt8) (start stop : Nat) : Option (List UInt8) :=
  if start ≤ stop ∧ stop ≤ octets.length ∧ isBoundary octets start ∧ isBoundary octets stop then
    some ((octets.take stop).drop start)
  else none

/-! ### Scanning -/

/-- The octets of a name: all above the space but the colon, the double quote and `0x7F`. -/
def isNameOctet (b : UInt8) : Bool :=
  0x20 < b && b != 0x3A && b != 0x22 && b != 0x7F

/-- The index of the first double quote from an index on, over which a backslash helps one
octet. Without one, an index behind all octets. -/
def closingQuote (octets : List UInt8) (i : Nat) : Nat :=
  if h : i < octets.length then
    if octets[i] = 0x22 then i
    else if octets[i] = 0x5C then closingQuote octets (i + 2)
    else closingQuote octets (i + 1)
  else i
termination_by octets.length - i

/-- Splits off the first entry: its name, its span, and the octets behind it. Nothing is
split off if no entry starts. -/
def scanFirst? (octets : List UInt8) : Option (Option (List UInt8 × List UInt8 × List UInt8)) :=
  let nameEnd := (octets.takeWhile isNameOctet).length
  if nameEnd = 0 ∨ octets.length ≤ nameEnd + 1 ∨ octets[nameEnd]? ≠ some 0x3A
      ∨ octets[nameEnd + 1]? ≠ some 0x22 then
    some none
  else do
    let name ← slice? octets 0 nameEnd
    let rest ← slice? octets (nameEnd + 1) octets.length
    let quote := closingQuote rest 1
    if rest.length ≤ quote then
      return none
    else
      let span ← slice? rest 0 (quote + 1)
      let behind ← slice? rest (quote + 1) rest.length
      return some (name, span, behind)

/-- A part is as long as its range. -/
theorem length_of_slice? {octets part : List UInt8} {start stop : Nat}
    (h : slice? octets start stop = some part) : part.length = stop - start := by
  obtain ⟨⟨-, hstop, -⟩, heq⟩ := Option.ite_none_right_eq_some.mp h
  rw [← Option.some.inj heq, List.length_drop, List.length_take, Nat.min_eq_left hstop]

/-- The octets behind an entry are fewer. -/
theorem length_of_scanFirst? {octets name span behind : List UInt8}
    (h : scanFirst? octets = some (some (name, span, behind))) : behind.length < octets.length := by
  unfold scanFirst? at h
  dsimp only at h
  split at h
  case isTrue => cases h
  case isFalse =>
    obtain ⟨_, -, h⟩ := Option.bind_eq_some_iff.mp h
    obtain ⟨rest, hrest, h⟩ := Option.bind_eq_some_iff.mp h
    split at h
    case isTrue => cases h
    case isFalse hquote =>
      obtain ⟨_, -, h⟩ := Option.bind_eq_some_iff.mp h
      obtain ⟨_, hbehind, heq⟩ := Option.bind_eq_some_iff.mp h
      obtain rfl := (Prod.mk.inj (Prod.mk.inj (Option.some.inj (Option.some.inj heq))).2).2
      -- Both cuts take at least one octet off the front.
      have hfirst := length_of_slice? hrest
      have hsecond := length_of_slice? hbehind
      omega

/-- Looks for the first entry of a key. -/
def scan? (key tag : List UInt8) : Option Lookup :=
  if tag.isEmpty then some .missing
  else
    match _h : scanFirst? (tag.dropWhile (· = 0x20)) with
    | none => none
    | some none => some .missing
    | some (some (name, span, behind)) =>
      if name = key then do
        let text ← ofUtf8? span
        match unquote text.toList with
        | .ok value => return .found value
        | .error cause => return .undecodable cause
      else scan? key behind
termination_by tag.length
decreasing_by
  exact Nat.lt_of_lt_of_le (length_of_scanFirst? _h)
    (List.dropWhile_sublist _ (l := tag)).length_le

end ServiceTypes.Tag
