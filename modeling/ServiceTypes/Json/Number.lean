import ServiceTypes.Decimal.Double
import ServiceTypes.Decimal.Shortest

/-!
# `ServiceTypes.Json.Number`: numbers and their texts

A number of a JSON value is an integer of 64 bits, with or without a
sign, or a double. A `Numeral` is the text of a number by its parts.

* `Numeral.ofWord?` reads the grammar of RFC 8259;
* `Numeral.number?` is the number that a numeral stands for. A numeral
  without fraction and exponent is an integer if it fits; every other
  one is a double, and one beyond the doubles has no number;
* `Number.text` writes a number.
-/

set_option autoImplicit false

namespace ServiceTypes.Json

/-! ### Numbers -/

/-- A number: an integer from `-2^63` to `2^64 - 1`, or a finite double, kept by its bit
pattern. -/
inductive Number where
  | integer (value : Int)
  | double (bits : UInt64)
  deriving DecidableEq, Repr

/-! ### Numerals -/

/-- The text of a number by its parts. `whole` has no leading zero unless it is the one
digit 0; `fraction` is empty when there is no point; the exponent comes with the flag of
its minus sign. -/
structure Numeral where
  negative : Bool
  whole : List Char
  fraction : List Char
  exponent : Option (Bool × List Char)
  deriving DecidableEq, Repr

/-- The digits after the sign of an exponent, which must be all that is left. -/
def exponentDigits? (negative : Bool) (text : List Char) :
    Option (Option (Bool × List Char)) :=
  if text ≠ [] ∧ text.all Char.isDigit then some (some (negative, text)) else none

/-- The exponent of a numeral: nothing, or `e` or `E`, a sign or none, and digits. -/
def exponent? : List Char → Option (Option (Bool × List Char))
  | [] => some none
  | e :: rest =>
    if e = 'e' ∨ e = 'E' then
      match rest with
      | '-' :: digits => exponentDigits? true digits
      | '+' :: digits => exponentDigits? false digits
      | digits => exponentDigits? false digits
    else none

/-- The fraction of a numeral, and what follows it. -/
def fraction? : List Char → Option (List Char × List Char)
  | '.' :: rest =>
    let digits := rest.takeWhile Char.isDigit
    if digits = [] then none else some (digits, rest.dropWhile Char.isDigit)
  | rest => some ([], rest)

/-- Reads a numeral that has no minus sign. -/
def Numeral.ofUnsigned? (negative : Bool) (text : List Char) : Option Numeral := do
  let whole := text.takeWhile Char.isDigit
  if whole = [] ∨ (whole.head? = some '0' ∧ whole.length ≠ 1) then none
  let (fraction, rest) ← fraction? (text.dropWhile Char.isDigit)
  let exponent ← exponent? rest
  return { negative, whole, fraction, exponent }

/-- Reads a numeral. -/
def Numeral.ofWord? : List Char → Option Numeral
  | '-' :: rest => Numeral.ofUnsigned? true rest
  | text => Numeral.ofUnsigned? false text

/-! ### The number of a numeral -/

/-- The value of a digit. -/
def digitValue (c : Char) : Nat := c.toNat - '0'.toNat

/-- One more than the greatest number of 64 bits. -/
def wordSize : Nat := 0x10000000000000000

/-- The number whose bit is the sign of a word: `2^63`. -/
def signWeight : Nat := 0x8000000000000000

/-- Appends digits to a significand as long as it stays below `wordSize`, and returns the
digits that no longer fit. -/
def absorb (significand : Nat) : List Char → Nat × List Char
  | [] => (significand, [])
  | c :: rest =>
    let next := significand * 10 + digitValue c
    if next < wordSize then absorb next rest else (significand, c :: rest)

/-- The greatest exponent that is told apart from larger ones. -/
def greatestExponent : Nat := 0x7FFFFFFF

/-- The double of a numeral. Digits of the whole part that do not fit into 64 bits count
as powers of ten; digits of the fraction that do not fit are dropped. -/
def Numeral.double? (n : Numeral) : Option Float :=
  let (upper, dropped) := absorb 0 n.whole
  let (significand, unread) := absorb upper n.fraction
  let position : Int := (dropped.length : Int) - ((n.fraction.length - unread.length : Nat) : Int)
  match n.exponent with
  | none => Decimal.ofDecimal? n.negative significand.toUInt64 position
  | some (negative, digits) =>
    let e := Nat.ofDigitChars 10 digits 0
    if greatestExponent < e then
      if significand ≠ 0 ∧ ¬ negative then none
      else some (if n.negative then -0.0 else 0.0)
    else
      Decimal.ofDecimal? n.negative significand.toUInt64
        (position + (if negative then -(e : Int) else (e : Int)))

/-- The integer of a numeral that is written as one and fits; minus zero does not. -/
def Numeral.integer? (n : Numeral) : Option Int :=
  let magnitude := Nat.ofDigitChars 10 n.whole 0
  if n.fraction ≠ [] ∨ n.exponent.isSome then none
  else if n.negative then
    if 0 < magnitude ∧ magnitude ≤ signWeight then some (-(magnitude : Int)) else none
  else if magnitude < wordSize then some magnitude
  else none

/-- The number that a numeral stands for. -/
def Numeral.number? (n : Numeral) : Option Number :=
  match n.integer? with
  | some value => some (.integer value)
  | none => n.double?.map fun f => .double f.toBits

/-! ### The text of a number -/

/-- Whether the sign bit is set. -/
def signBit (bits : UInt64) : Bool :=
  signWeight ≤ bits.toNat

/-- The decimal digits of a natural number. -/
def digitsOf (n : Nat) : List Char :=
  Nat.toDigits 10 n

/-- The text of `c * 10^g`, for `c` without trailing zero. With the exponent of the first
digit from -5 to 15 it is written plainly, with at least one place; otherwise with an
exponent that bears its sign. -/
def decimalText (c : Nat) (g : Int) : List Char :=
  let digits := digitsOf c
  let e : Int := g + digits.length - 1
  if -5 ≤ e ∧ e < 16 then
    if 0 ≤ g then digits ++ List.replicate g.toNat '0' ++ ['.', '0']
    else if 0 ≤ e then
      digits.take (e.toNat + 1) ++ '.' :: digits.drop (e.toNat + 1)
    else '0' :: '.' :: (List.replicate (-e - 1).toNat '0' ++ digits)
  else
    let mantissa :=
      match digits with
      | first :: second :: rest => first :: '.' :: second :: rest
      | short => short
    mantissa ++ 'e' :: (if e < 0 then '-' else '+') :: digitsOf e.natAbs

/-- The text of a finite double: the fewest digits that read back as it. -/
def doubleText (bits : UInt64) : List Char :=
  let magnitude := bits.toNat % signWeight
  let body :=
    if magnitude = 0 then ['0', '.', '0']
    else
      let (c, g) := Decimal.shortest magnitude.toUInt64
      decimalText c g
  if signBit bits then '-' :: body else body

/-- The text of an integer. -/
def integerText (value : Int) : List Char :=
  if value < 0 then '-' :: digitsOf value.natAbs else digitsOf value.natAbs

/-- The text of a number. -/
def Number.text : Number → List Char
  | .integer value => integerText value
  | .double bits => doubleText bits

end ServiceTypes.Json
