import ServiceTypes.Json.Error
import ServiceTypes.Json.Number
import ServiceTypes.Text.Utf8

/-!
# `ServiceTypes.Json.Token`: the tokens of a JSON text

A JSON text is a list of octets. A machine with a few modes walks over
them once and collects the tokens. Strings are kept as written: their
escapes are resolved as far as single octets go, while surrogate halves
and octets that are not UTF-8 are looked at only when somebody asks for
the text. A word is a maximal run of octets that are no blank, no
punctuation and no quote; it has to be a literal or a numeral.

* `Piece` and `RawText` are the inside of a string, `RawText.text` is
  the text it stands for;
* `Scan.step` is the machine, `tokens` runs it over a text.
-/

set_option autoImplicit false

namespace ServiceTypes.Json

/-! ### Strings as written -/

/-- A piece of a string: one octet of its UTF-8 form, or a UTF-16 unit given by `\u`. -/
inductive Piece where
  | octet (b : UInt8)
  | unit (u : Nat)
  deriving DecidableEq, Repr

/-- The inside of a string. -/
abbrev RawText := List Piece

/-- The octets of a character given by its code point. -/
def codePointOctets (n : Nat) : List UInt8 :=
  String.utf8EncodeChar (Char.ofNat n)

/-- Whether a unit is the first half of a pair. -/
def isHighSurrogate (u : Nat) : Bool := 0xD800 ≤ u && u < 0xDC00

/-- Whether a unit is the second half of a pair. -/
def isLowSurrogate (u : Nat) : Bool := 0xDC00 ≤ u && u < 0xE000

/-- The code point of a pair. -/
def pairCodePoint (high low : Nat) : Nat :=
  0x10000 + (high - 0xD800) * 0x400 + (low - 0xDC00)

/-- The octets that pieces stand for, behind those in `done` (latest first). Surrogate
halves must come in pairs. -/
def octetsFrom (done : List UInt8) : RawText → Option (List UInt8)
  | [] => some done.reverse
  | .octet b :: rest => octetsFrom (b :: done) rest
  | .unit u :: rest =>
    if isHighSurrogate u then
      match rest with
      | .unit v :: rest =>
        if isLowSurrogate v then
          octetsFrom ((codePointOctets (pairCodePoint u v)).reverse ++ done) rest
        else none
      | _ => none
    else if isLowSurrogate u then none
    else octetsFrom ((codePointOctets u).reverse ++ done) rest

/-- The text that the inside of a string stands for. -/
def RawText.text (raw : RawText) : Except Error String :=
  match (octetsFrom [] raw).bind Text.ofUtf8? with
  | some s => .ok s
  | none => .error .invalidText

/-! ### Tokens -/

/-- A token. -/
inductive Token where
  | openArray
  | closeArray
  | openObject
  | closeObject
  | comma
  | colon
  | null
  | bool (value : Bool)
  | number (numeral : Numeral)
  | text (raw : RawText)
  deriving DecidableEq, Repr

/-- The token of a word: a literal or a numeral. -/
def Token.ofWord? (word : List Char) : Option Token :=
  if word = ['n', 'u', 'l', 'l'] then some .null
  else if word = ['t', 'r', 'u', 'e'] then some (.bool true)
  else if word = ['f', 'a', 'l', 's', 'e'] then some (.bool false)
  else (Numeral.ofWord? word).map .number

/-- Space, tab, line feed and carriage return stand between tokens. -/
def isSpace (b : UInt8) : Bool :=
  b = 0x20 || b = 0x09 || b = 0x0A || b = 0x0D

/-- The quote. -/
def quote : UInt8 := 0x22

/-- The backslash. -/
def backslash : UInt8 := 0x5C

/-- The tokens of one octet. -/
def punctuation? (b : UInt8) : Option Token :=
  if b = 0x5B then some .openArray
  else if b = 0x5D then some .closeArray
  else if b = 0x7B then some .openObject
  else if b = 0x7D then some .closeObject
  else if b = 0x2C then some .comma
  else if b = 0x3A then some .colon
  else none

/-- The octet that an escape of one letter stands for. -/
def escaped? (b : UInt8) : Option UInt8 :=
  if b = quote ∨ b = backslash ∨ b = 0x2F then some b
  else if b = 0x62 then some 0x08
  else if b = 0x66 then some 0x0C
  else if b = 0x6E then some 0x0A
  else if b = 0x72 then some 0x0D
  else if b = 0x74 then some 0x09
  else none

/-- The value of a hexadecimal digit. -/
def hexValue? (b : UInt8) : Option Nat :=
  if 0x30 ≤ b ∧ b ≤ 0x39 then some (b.toNat - 0x30)
  else if 0x41 ≤ b ∧ b ≤ 0x46 then some (b.toNat - 0x41 + 10)
  else if 0x61 ≤ b ∧ b ≤ 0x66 then some (b.toNat - 0x61 + 10)
  else none

/-! ### The machine -/

/-- Where the machine stands. Letters and pieces come latest first. -/
inductive Mode where
  /-- Between tokens. -/
  | between
  /-- In a word. -/
  | word (letters : List Char)
  /-- In a string. -/
  | text (pieces : RawText)
  /-- After a backslash in a string. -/
  | escape (pieces : RawText)
  /-- After `\u` in a string, with so many digits to come and the value so far. -/
  | unit (pieces : RawText) (missing value : Nat)
  deriving DecidableEq, Repr

/-- The machine: its mode and the tokens so far, latest first. -/
structure Scan where
  mode : Mode
  tokens : List Token
  deriving DecidableEq, Repr

/-- The machine before a text. -/
def Scan.start : Scan := ⟨.between, []⟩

/-- An octet between tokens. -/
def Scan.begin (tokens : List Token) (b : UInt8) : Scan :=
  if isSpace b then ⟨.between, tokens⟩
  else if b = quote then ⟨.text [], tokens⟩
  else
    match punctuation? b with
    | some token => ⟨.between, token :: tokens⟩
    | none => ⟨.word [Char.ofNat b.toNat], tokens⟩

/-- Whether an octet ends a word. -/
def endsWord (b : UInt8) : Bool :=
  isSpace b || b = quote || (punctuation? b).isSome

/-- The tokens after a word has ended. -/
def endWord (tokens : List Token) (letters : List Char) : Except Error (List Token) :=
  match Token.ofWord? letters.reverse with
  | some token => .ok (token :: tokens)
  | none => .error .malformed

/-- One octet. -/
def Scan.step (s : Scan) (b : UInt8) : Except Error Scan :=
  match s.mode with
  | .between => .ok (Scan.begin s.tokens b)
  | .word letters =>
    if endsWord b then do
      let tokens ← endWord s.tokens letters
      return Scan.begin tokens b
    else .ok ⟨.word (Char.ofNat b.toNat :: letters), s.tokens⟩
  | .text pieces =>
    if b = quote then .ok ⟨.between, .text pieces.reverse :: s.tokens⟩
    else if b = backslash then .ok ⟨.escape pieces, s.tokens⟩
    else if b < 0x20 then .error .malformed
    else .ok ⟨.text (.octet b :: pieces), s.tokens⟩
  | .escape pieces =>
    if b = 0x75 then .ok ⟨.unit pieces 4 0, s.tokens⟩
    else
      match escaped? b with
      | some octet => .ok ⟨.text (.octet octet :: pieces), s.tokens⟩
      | none => .error .malformed
  | .unit pieces missing value =>
    match hexValue? b with
    | some digit =>
      let value := value * 16 + digit
      if missing ≤ 1 then .ok ⟨.text (.unit value :: pieces), s.tokens⟩
      else .ok ⟨.unit pieces (missing - 1) value, s.tokens⟩
    | none => .error .malformed

/-- The tokens at the end of a text, where a word may end but no string may be open. -/
def Scan.finish (s : Scan) : Except Error (List Token) :=
  match s.mode with
  | .between => .ok s.tokens.reverse
  | .word letters => do
    let tokens ← endWord s.tokens letters
    return tokens.reverse
  | _ => .error .malformed

/-- The tokens of a text. -/
def tokens (text : List UInt8) : Except Error (List Token) := do
  let s ← text.foldlM Scan.step Scan.start
  s.finish

end ServiceTypes.Json
