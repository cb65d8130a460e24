import ServiceTypes.Text.Blank
import ServiceTypes.Text.Utf8

/-!
# `ServiceTypes.Tag.Literal`: string literals

A tag is written in the source as a string literal: raw between
backticks, or interpreted between double quotes. In an interpreted
literal a backslash starts an escape; byte escapes and characters
together must give valid UTF-8.

* `literalOctets` are the octets that the inside of an interpreted
  literal stands for;
* `unquote` reads an interpreted literal with its quotes;
* `tagText` reads the literal of a tag.
-/

set_option autoImplicit false

namespace ServiceTypes.Tag

/-- Why a literal stands for no text. -/
inductive LiteralError where
  /-- It does not stand between double quotes. -/
  | notQuoted
  /-- A double quote stands inside. -/
  | innerQuote
  /-- A line feed stands inside. -/
  | lineFeed
  /-- Nothing follows a backslash. -/
  | danglingBackslash
  /-- An escape is unknown, too short, or names no octet or character. -/
  | badEscape
  /-- The octets are not UTF-8. -/
  | notUtf8
  deriving DecidableEq, Repr

/-! ### Escapes -/

/-- The octet of an escape of one letter. -/
def letterEscape? (c : Char) : Option UInt8 :=
  if c = 'a' then some 0x07
  else if c = 'b' then some 0x08
  else if c = 'f' then some 0x0C
  else if c = 'n' then some 0x0A
  else if c = 'r' then some 0x0D
  else if c = 't' then some 0x09
  else if c = 'v' then some 0x0B
  else if c = '\\' then some 0x5C
  else if c = '"' then some 0x22
  else none

/-- The value of a digit below a radix of at most 16. -/
def digit? (radix : Nat) (c : Char) : Option Nat :=
  let value? :=
    if c.isDigit then some (c.toNat - '0'.toNat)
    else if 'a' ≤ c ∧ c ≤ 'f' then some (c.toNat - 'a'.toNat + 10)
    else if 'A' ≤ c ∧ c ≤ 'F' then some (c.toNat - 'A'.toNat + 10)
    else none
  value?.filter (· < radix)

/-- The number that digits write. -/
def number? (radix : Nat) (digits : List Char) : Option Nat :=
  digits.foldlM (fun n c => (digit? radix c).map (n * radix + ·)) 0

/-- The octet that an escape names by its number. -/
def octetOf? (n : Nat) : Option (List UInt8) :=
  if n ≤ 255 then some [n.toUInt8] else none

/-- The octets of the character that an escape names by its code point. -/
def charOf? (n : Nat) : Option (List UInt8) :=
  if n.isValidChar then some (String.utf8EncodeChar (Char.ofNat n)) else none

/-! ### Literals -/

/-- Puts octets in front of those of the rest of a literal. -/
def prepend (octets : Option (List UInt8)) (rest : Except LiteralError (List UInt8)) :
    Except LiteralError (List UInt8) :=
  match octets with
  | some os => (os ++ ·) <$> rest
  | none => .error .badEscape

/-- The octets that the inside of an interpreted literal stands for. -/
def literalOctets : List Char → Except LiteralError (List UInt8)
  | [] => .ok []
  | c :: rest =>
    if c = '"' then .error .innerQuote
    else if c = '\n' then .error .lineFeed
    else if c = '\\' then
      match rest with
      | [] => .error .danglingBackslash
      | e :: rest =>
        if e = 'x' then
          match rest with
          | a :: b :: rest => prepend ((number? 16 [a, b]).bind octetOf?) (literalOctets rest)
          | _ => .error .badEscape
        else if e = 'u' then
          match rest with
          | a :: b :: c :: d :: rest =>
            prepend ((number? 16 [a, b, c, d]).bind charOf?) (literalOctets rest)
          | _ => .error .badEscape
        else if e = 'U' then
          match rest with
          | a :: b :: c :: d :: a' :: b' :: c' :: d' :: rest =>
            prepend ((number? 16 [a, b, c, d, a', b', c', d']).bind charOf?)
              (literalOctets rest)
          | _ => .error .badEscape
        else if (digit? 8 e).isSome then
          match rest with
          | a :: b :: rest => prepend ((number? 8 [e, a, b]).bind octetOf?) (literalOctets rest)
          | _ => .error .badEscape
        else prepend ((letterEscape? e).map fun b => [b]) (literalOctets rest)
    else prepend (some (String.utf8EncodeChar c)) (literalOctets rest)

/-- The text between a delimiter at both ends. The two ends are two characters. -/
def between? (delimiter : Char) : List Char → Option (List Char)
  | [] => none
  | c :: rest =>
    if c = delimiter ∧ rest.getLast? = some delimiter then some rest.dropLast else none

/-- The text that an interpreted literal with its quotes stands for. -/
def unquote (literal : List Char) : Except LiteralError String :=
  match between? '"' literal with
  | none => .error .notQuoted
  | some inner => do
    match Text.ofUtf8? (← literalOctets inner) with
    | some s => return s
    | none => .error .notUtf8

/-- The text that the literal of a tag stands for. Blanks around the literal do not
count, and a text without delimiters stands for itself. -/
def tagText (literal : String) : Except LiteralError String :=
  let literal := Text.trim literal.toList
  match between? '`' literal with
  | some inner => .ok (String.ofList inner)
  | none =>
    if (between? '"' literal).isSome then unquote literal else .ok (String.ofList literal)

end ServiceTypes.Tag
