import Mathlib.Data.List.TakeWhile
import ServiceTypes.Json.Token

/-!
# `ServiceTypes.Proofs.Json.Integer`: the numerals of integers

An integer is written in decimal digits, behind a minus sign if it is
negative. The theorems:

* `ofWord?_integerText`: the text of an integer is read as its numeral.
* `number?_ofInt`: the numeral of an integer of 64 bits stands for it.
* `tokenOfWord?_integerText`: the text of an integer is the word of a token.
-/

set_option autoImplicit false

namespace ServiceTypes.Json

/-! ### Decimal digits -/

/-- A number is written with digits only. -/
theorem isDigit_of_mem_digitsOf {n : Nat} {c : Char} (h : c ∈ digitsOf n) : c.isDigit :=
  Nat.isDigit_of_mem_toDigits (by decide) (by decide) h

/-- A number has at least one digit. -/
theorem digitsOf_ne_nil (n : Nat) : digitsOf n ≠ [] := Nat.toDigits_ne_nil

/-- Only the number zero starts with a zero. -/
theorem head?_digitsOf_ne_zero {n : Nat} (h : n ≠ 0) : (digitsOf n).head? ≠ some '0' := by
  induction n using Nat.strongRecOn with
  | ind n ih =>
    unfold digitsOf
    by_cases hn : n < 10
    · rw [Nat.toDigits_of_lt_base hn]
      intro hhead
      exact h (Nat.digitChar_eq_zero.mp (Option.some.inj hhead))
    · -- The digits in front of the last one are those of a smaller number.
      have hfront := ih (n / 10) (by omega) (by omega)
      rw [Nat.toDigits_of_base_le (by decide) (by omega)]
      cases hdigits : Nat.toDigits 10 (n / 10) with
      | nil => exact absurd hdigits Nat.toDigits_ne_nil
      | cons c cs =>
        rw [digitsOf, hdigits] at hfront
        exact hfront

/-! ### Numerals -/

/-- The numeral of an integer. -/
def Numeral.ofInt (n : Int) : Numeral where
  negative := decide (n < 0)
  whole := digitsOf n.natAbs
  fraction := []
  exponent := none

/-- Decimal digits are read as the whole part of a numeral. -/
theorem ofUnsigned?_digitsOf (negative : Bool) (n : Nat) :
    Numeral.ofUnsigned? negative (digitsOf n) = some ⟨negative, digitsOf n, [], none⟩ := by
  have hwhole : (digitsOf n).takeWhile Char.isDigit = digitsOf n :=
    List.takeWhile_eq_self_iff.mpr fun c hc => isDigit_of_mem_digitsOf hc
  have hrest : (digitsOf n).dropWhile Char.isDigit = [] :=
    List.dropWhile_eq_nil_iff.mpr fun c hc => isDigit_of_mem_digitsOf hc
  have hzero : ¬ ((digitsOf n).head? = some '0' ∧ (digitsOf n).length ≠ 1) := by
    rintro ⟨hhead, hlength⟩
    by_cases hn : n = 0
    · subst hn
      exact hlength rfl
    · exact head?_digitsOf_ne_zero hn hhead
  unfold Numeral.ofUnsigned?
  simp only [hwhole, hrest, digitsOf_ne_nil, hzero, false_or, if_false]
  rfl

/-- The text of an integer is read as its numeral. -/
theorem ofWord?_integerText (n : Int) :
    Numeral.ofWord? (integerText n) = some (Numeral.ofInt n) := by
  unfold integerText Numeral.ofInt
  split
  case isTrue hnegative =>
    rw [decide_eq_true hnegative]
    exact ofUnsigned?_digitsOf true n.natAbs
  case isFalse hnegative =>
    rw [decide_eq_false hnegative]
    unfold Numeral.ofWord?
    split
    case h_1 rest heq =>
      -- No digit is a minus sign.
      have hminus : '-' ∈ digitsOf n.natAbs := by
        rw [heq]
        exact List.mem_cons_self
      exact absurd (isDigit_of_mem_digitsOf hminus) (by decide)
    case h_2 => exact ofUnsigned?_digitsOf false n.natAbs

/-- Whether an integer fits into 64 bits, with or without a sign. -/
def FitsWord (n : Int) : Prop := -(signWeight : Int) ≤ n ∧ n < wordSize

/-- Whether an integer fits is decided by its bounds. -/
instance : DecidablePred FitsWord := fun n =>
  inferInstanceAs (Decidable (-(signWeight : Int) ≤ n ∧ n < wordSize))

/-- The numeral of an integer of 64 bits stands for this integer. -/
theorem number?_ofInt {n : Int} (h : FitsWord n) :
    (Numeral.ofInt n).number? = some (.integer n) := by
  obtain ⟨hlow, hhigh⟩ := h
  have hwhole : Nat.ofDigitChars 10 (Numeral.ofInt n).whole 0 = n.natAbs :=
    Nat.ofDigitChars_ten_toDigits
  -- Without fraction and exponent the numeral is read as an integer.
  have hplain : ¬ ((Numeral.ofInt n).fraction ≠ [] ∨ (Numeral.ofInt n).exponent.isSome = true) := by
    rintro (hfraction | hexponent)
    · exact hfraction rfl
    · cases hexponent
  have hinteger : (Numeral.ofInt n).integer? = some n := by
    unfold Numeral.integer?
    rw [if_neg hplain, hwhole]
    show (if decide (n < 0) = true then _ else _) = _
    -- Words are signed below zero only, so the two bounds differ.
    by_cases hnegative : n < 0
    · have hfits : 0 < n.natAbs ∧ n.natAbs ≤ signWeight := by omega
      have hvalue : -(n.natAbs : Int) = n := by omega
      rw [if_pos (decide_eq_true hnegative), if_pos hfits, hvalue]
    · have hfits : n.natAbs < wordSize := by omega
      have hvalue : (n.natAbs : Int) = n := by omega
      rw [if_neg (by simpa using hnegative), if_pos hfits, hvalue]
  unfold Numeral.number?
  rw [hinteger]

/-- The text of an integer is the word of a number. -/
theorem tokenOfWord?_integerText (n : Int) :
    Token.ofWord? (integerText n) = some (.number (.ofInt n)) := by
  have hhead : ∀ c, ¬ c.isDigit → c ≠ '-' → (integerText n).head? ≠ some c := by
    intro c hdigit hminus hhead
    unfold integerText at hhead
    split at hhead
    · exact hminus (Option.some.inj hhead).symm
    · exact hdigit (isDigit_of_mem_digitsOf (List.mem_of_head? hhead))
  unfold Token.ofWord?
  rw [if_neg fun heq => hhead 'n' (by decide) (by decide) (congrArg List.head? heq),
    if_neg fun heq => hhead 't' (by decide) (by decide) (congrArg List.head? heq),
    if_neg fun heq => hhead 'f' (by decide) (by decide) (congrArg List.head? heq),
    ofWord?_integerText]
  rfl

end ServiceTypes.Json
