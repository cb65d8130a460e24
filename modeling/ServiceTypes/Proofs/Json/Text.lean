import ServiceTypes.Json.Token
import ServiceTypes.Proofs.Tag.Spelling

/-!
# `ServiceTypes.Proofs.Json.Text`: the strings of a JSON text

A string is written with octets and escapes, and what it stands for is a
matter of its own: a character may stand there by its UTF-8 octets, some of
them behind a backslash, or by its UTF-16 units. `WritesRaw` is the first
relation, `Denotes` is the second, and neither says how a string is read. The
theorems:

* `text_of_denotes`: the text that a string denotes is read from it.
* `Scan.run_text`: the inside of a string is scanned up to its quote.
-/

set_option autoImplicit false

namespace ServiceTypes.Json

open Text (octetsOf)

/-! ### Texts -/

/-- The UTF-16 units of a character: its number, or the two halves of a pair. -/
def unitsOf (c : Char) : List Nat :=
  if c.toNat < 0x10000 then [c.toNat]
  else [0xD800 + (c.toNat - 0x10000) / 0x400, 0xDC00 + (c.toNat - 0x10000) % 0x400]

/-- The inside of a string denotes a text: each character stands there either by the octets of
its UTF-8 form or by its UTF-16 units. -/
inductive Denotes : RawText → List Char → Prop where
  | nil : Denotes [] []
  | octets (c : Char) {raw : RawText} {cs : List Char} :
    Denotes raw cs → Denotes ((String.utf8EncodeChar c).map .octet ++ raw) (c :: cs)
  | units (c : Char) {raw : RawText} {cs : List Char} :
    Denotes raw cs → Denotes ((unitsOf c).map .unit ++ raw) (c :: cs)

/-- Octets that are written as they stand are collected as they stand. -/
theorem octetsFrom_octets (bs done : List UInt8) (raw : RawText) :
    octetsFrom done (bs.map .octet ++ raw) = octetsFrom (bs.reverse ++ done) raw := by
  induction bs generalizing done with
  | nil => rfl
  | cons b bs ih =>
    rw [List.map_cons, List.cons_append, octetsFrom, ih, List.reverse_cons, List.append_assoc]
    rfl

/-- Units stand for the same octets as the character itself. -/
theorem octetsFrom_units (c : Char) (done : List UInt8) (raw : RawText) :
    octetsFrom done ((unitsOf c).map .unit ++ raw)
      = octetsFrom ((String.utf8EncodeChar c).reverse ++ done) raw := by
  have hoctets : codePointOctets c.toNat = String.utf8EncodeChar c := by
    unfold codePointOctets
    rw [c.ofNat_toNat]
  -- A character is neither half of a pair.
  have hvalid : c.toNat < 0xD800 ∨ 0xDFFF < c.toNat ∧ c.toNat < 0x110000 := c.valid
  unfold unitsOf
  split
  case isTrue hsmall =>
    have hhigh : isHighSurrogate c.toNat = false := by
      simp only [isHighSurrogate, Bool.and_eq_false_iff, decide_eq_false_iff_not]
      omega
    have hlow : isLowSurrogate c.toNat = false := by
      simp only [isLowSurrogate, Bool.and_eq_false_iff, decide_eq_false_iff_not]
      omega
    rw [octetsFrom.eq_def]
    show (if isHighSurrogate c.toNat then _ else if isLowSurrogate c.toNat then none
      else octetsFrom ((codePointOctets c.toNat).reverse ++ done) raw) = _
    rw [hhigh, hlow, hoctets]
    rfl
  case isFalse hlarge =>
    generalize hu : 0xD800 + (c.toNat - 0x10000) / 0x400 = high
    generalize hv : 0xDC00 + (c.toNat - 0x10000) % 0x400 = low
    have hhigh : isHighSurrogate high = true := by
      simp only [isHighSurrogate, Bool.and_eq_true, decide_eq_true_eq]
      omega
    have hlow : isLowSurrogate low = true := by
      simp only [isLowSurrogate, Bool.and_eq_true, decide_eq_true_eq]
      omega
    have hpair : pairCodePoint high low = c.toNat := by
      unfold pairCodePoint
      omega
    show (if isHighSurrogate high then _ else _) = _
    rw [if_pos hhigh]
    show (if isLowSurrogate low then _ else _) = _
    rw [if_pos hlow, hpair, hoctets]
    rfl

/-- A raw text that denotes characters has their octets, behind those that are done. -/
theorem octetsFrom_of_denotes {raw : RawText} {cs : List Char} (h : Denotes raw cs)
    (done : List UInt8) : octetsFrom done raw = some (done.reverse ++ octetsOf cs) := by
  induction h generalizing done with
  | nil =>
    show some done.reverse = some (done.reverse ++ [])
    rw [List.append_nil]
  | octets c _ ih =>
    rw [octetsFrom_octets, ih, List.reverse_append, List.reverse_reverse, List.append_assoc]
    rfl
  | units c _ ih =>
    rw [octetsFrom_units, ih, List.reverse_append, List.reverse_reverse, List.append_assoc]
    rfl

/-- The text that the inside of a string denotes is read from it. -/
theorem text_of_denotes {raw : RawText} {s : String} (h : Denotes raw s.toList) :
    RawText.text raw = .ok s := by
  have hread : (octetsFrom [] raw).bind Text.ofUtf8? = some s := by
    rw [octetsFrom_of_denotes h]
    show Text.ofUtf8? (octetsOf s.toList) = some s
    rw [Text.ofUtf8?_octetsOf, String.ofList_toList]
  unfold RawText.text
  rw [hread]

/-! ### Octets and escapes -/

/-- What is checked for the members of a list one by one holds for all of them. Octets and
characters are finitely many, but a table of them is shorter. -/
theorem forall_mem_of_all {α : Type} {p : α → Prop} [DecidablePred p] {l : List α}
    (h : l.all fun a => p a) : ∀ a ∈ l, p a := by
  intro a ha
  exact of_decide_eq_true (List.all_eq_true.mp h a ha)

/-- The letters that stand for an octet behind a backslash: the quote, the backslash and the
slash stand for themselves, and `b`, `f`, `n`, `r` and `t` for controls. -/
def letterEscapes : List (UInt8 × UInt8) :=
  [(0x22, 0x22), (0x5C, 0x5C), (0x2F, 0x2F), (0x62, 0x08), (0x66, 0x0C), (0x6E, 0x0A),
    (0x72, 0x0D), (0x74, 0x09)]

/-- An octet that may stand in a string as it is. -/
def Unescaped (b : UInt8) : Prop := 0x20 ≤ b ∧ b ≠ quote ∧ b ≠ backslash

/-- Three comparisons decide whether an octet may stand as it is. -/
instance : DecidablePred Unescaped := fun b =>
  inferInstanceAs (Decidable (0x20 ≤ b ∧ b ≠ quote ∧ b ≠ backslash))

/-- The ways to write the inside of a string. -/
inductive WritesRaw : RawText → List UInt8 → Prop where
  | nil : WritesRaw [] []
  /-- An octet as it is. -/
  | octet {b : UInt8} {raw : RawText} {octets : List UInt8} :
    Unescaped b → WritesRaw raw octets → WritesRaw (.octet b :: raw) (b :: octets)
  /-- An octet by a letter. -/
  | letter {letter octet : UInt8} {raw : RawText} {octets : List UInt8} :
    (letter, octet) ∈ letterEscapes → WritesRaw raw octets →
      WritesRaw (.octet octet :: raw) (backslash :: letter :: octets)
  /-- A unit by four hexadecimal digits. -/
  | unit {digits : List Char} {u : Nat} {raw : RawText} {octets : List UInt8} :
    digits.length = 4 → Tag.Numeral 16 digits u → WritesRaw raw octets →
      WritesRaw (.unit u :: raw) (backslash :: 0x75 :: (octetsOf digits ++ octets))

/-- Octets that may stand as they are do so. -/
theorem writesRaw_octets {bs : List UInt8} (h : ∀ b ∈ bs, Unescaped b) {raw : RawText}
    {octets : List UInt8} (hraw : WritesRaw raw octets) :
    WritesRaw (bs.map .octet ++ raw) (bs ++ octets) := by
  induction bs with
  | nil => exact hraw
  | cons b bs ih =>
    obtain ⟨hb, hbs⟩ := List.forall_mem_cons.mp h
    exact .octet hb (ih hbs)

/-! ### Scanning -/

namespace Scan

/-- The tokens that the machine ends with after a text. -/
def run (s : Scan) (text : List UInt8) : Except Error (List Token) :=
  text.foldlM step s >>= finish

/-- A scan takes one step for each octet. -/
theorem run_cons {s next : Scan} {b : UInt8} (h : s.step b = .ok next) (text : List UInt8) :
    s.run (b :: text) = next.run text := by
  unfold run
  rw [List.foldlM_cons, h]
  rfl

/-- A letter escape is read as its octet. -/
theorem run_letter {letter octet : UInt8} (h : (letter, octet) ∈ letterEscapes)
    (pieces : RawText) (ts : List Token) (text : List UInt8) :
    run ⟨.text pieces, ts⟩ (backslash :: letter :: text)
      = run ⟨.text (.octet octet :: pieces), ts⟩ text := by
  have htable : ∀ p ∈ letterEscapes, p.1 ≠ 0x75 ∧ escaped? p.1 = some p.2 :=
    forall_mem_of_all (by decide)
  obtain ⟨hunit, hescaped⟩ := htable _ h
  have hstep : step ⟨.escape pieces, ts⟩ letter = .ok ⟨.text (.octet octet :: pieces), ts⟩ := by
    unfold step
    dsimp only
    rw [if_neg hunit, hescaped]
  have hbackslash : step ⟨.text pieces, ts⟩ backslash = .ok ⟨.escape pieces, ts⟩ := rfl
  rw [run_cons hbackslash, run_cons hstep]

/-- Each digit moves the value of a unit up by one place, and the last one completes it. -/
theorem run_digit {c : Char} {value : Nat} (h : Tag.Digit 16 c value) (pieces : RawText)
    (missing total : Nat) (ts : List Token) (text : List UInt8) :
    run ⟨.unit pieces missing total, ts⟩ (octetsOf [c] ++ text)
      = run (if missing ≤ 1 then ⟨.text (.unit (total * 16 + value) :: pieces), ts⟩
          else ⟨.unit pieces (missing - 1) (total * 16 + value), ts⟩) text := by
  have htable : ∀ p ∈ Tag.hexDigits, octetsOf [p.1] = [UInt8.ofNat p.1.toNat] ∧
      hexValue? (UInt8.ofNat p.1.toNat) = some p.2 := by decide
  obtain ⟨hoctet, hvalue⟩ := htable _ h.mem
  rw [hoctet]
  refine run_cons ?_ text
  unfold step
  dsimp only
  rw [hvalue]
  dsimp only
  split <;> rfl

/-- Digits are read as their number, as long as more of them have to come. -/
theorem run_digits {digits : List Char} {n : Nat} (h : Tag.Numeral 16 digits n)
    {missing : Nat} (hlength : digits.length < missing) (pieces : RawText) (ts : List Token)
    (text : List UInt8) :
    run ⟨.unit pieces missing 0, ts⟩ (octetsOf digits ++ text)
      = run ⟨.unit pieces (missing - digits.length) n, ts⟩ text := by
  induction h generalizing text with
  | nil => rfl
  | @concat digits n c value _ hdigit ih =>
    rw [List.length_append, List.length_singleton] at hlength ⊢
    have hmore : ¬ missing - digits.length ≤ 1 := by omega
    rw [Text.octetsOf_append, List.append_assoc, ih (by omega), run_digit hdigit, if_neg hmore]
    rfl

/-- Four digits are read as their unit. -/
theorem run_unit {digits : List Char} {u : Nat} (hlength : digits.length = 4)
    (h : Tag.Numeral 16 digits u) (pieces : RawText) (ts : List Token) (text : List UInt8) :
    run ⟨.text pieces, ts⟩ (backslash :: 0x75 :: (octetsOf digits ++ text))
      = run ⟨.text (.unit u :: pieces), ts⟩ text := by
  have hbackslash : step ⟨.text pieces, ts⟩ backslash = .ok ⟨.escape pieces, ts⟩ := rfl
  have hescape : step ⟨.escape pieces, ts⟩ 0x75 = .ok ⟨.unit pieces 4 0, ts⟩ := rfl
  rw [run_cons hbackslash, run_cons hescape]
  cases h with
  | nil => cases hlength
  | @concat front n c value hnumeral hdigit =>
    rw [List.length_append, List.length_singleton] at hlength
    have hfront : front.length = 3 := by omega
    rw [Text.octetsOf_append, List.append_assoc, run_digits hnumeral (by omega), run_digit hdigit,
      hfront]
    rfl

/-- The inside of a string is scanned up to its quote, which completes the token. -/
theorem run_text {raw : RawText} {octets : List UInt8} (h : WritesRaw raw octets)
    (pieces : RawText) (ts : List Token) (text : List UInt8) :
    run ⟨.text pieces, ts⟩ (octets ++ quote :: text)
      = run ⟨.between, .text (pieces.reverse ++ raw) :: ts⟩ text := by
  induction h generalizing pieces with
  | nil =>
    rw [List.append_nil]
    exact run_cons rfl text
  | @octet b raw octets hplain _ ih =>
    -- An octet that stands for itself neither ends the text nor starts an escape.
    obtain ⟨hcontrol, hquote, hbackslash⟩ := hplain
    have hstep : step ⟨.text pieces, ts⟩ b = .ok ⟨.text (.octet b :: pieces), ts⟩ := by
      show (if b = quote then _ else if b = backslash then _ else if b < 0x20 then _ else _) = _
      rw [if_neg hquote, if_neg hbackslash, if_neg (UInt8.not_lt.mpr hcontrol)]
    rw [List.cons_append, run_cons hstep, ih, List.reverse_cons, List.append_assoc]
    rfl
  | letter hletter _ ih =>
    rw [List.cons_append, List.cons_append, run_letter hletter, ih, List.reverse_cons,
      List.append_assoc]
    rfl
  | unit hlength hnumeral _ ih =>
    rw [List.cons_append, List.cons_append, List.append_assoc, run_unit hlength hnumeral, ih,
      List.reverse_cons, List.append_assoc]
    rfl

end Scan

end ServiceTypes.Json
