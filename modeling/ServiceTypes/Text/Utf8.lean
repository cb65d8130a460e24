/-!
# `ServiceTypes.Text.Utf8`: octets and text

* `utf8` writes a text as octets;
* `ofUtf8?` reads octets that are valid UTF-8, and nothing else;
* `ofUtf8Lossy` reads any octets: each maximal part that no valid
  sequence can contain becomes one U+FFFD.
-/

set_option autoImplicit false

namespace ServiceTypes.Text

/-- The octets of a text. -/
def utf8 (s : String) : List UInt8 :=
  s.toByteArray.data.toList

/-- The text whose octets these are, if there is one. -/
def ofUtf8? (bytes : List UInt8) : Option String :=
  String.fromUTF8? ⟨bytes.toArray⟩

/-- An octet that continues a sequence: `0x80` to `0xBF`. -/
def isContinuation (b : UInt8) : Bool :=
  0x80 ≤ b && b ≤ 0xBF

/-- The octets that may follow the first octet of a sequence of three. The range is
narrow after `0xE0` (no shorter form may be used) and after `0xED` (no surrogates). -/
def mayFollowOfThree (first second : UInt8) : Bool :=
  (if first = 0xE0 then (0xA0 : UInt8) else 0x80) ≤ second
    && second ≤ (if first = 0xED then (0x9F : UInt8) else 0xBF)

/-- The octets that may follow the first octet of a sequence of four. The range is
narrow after `0xF0` (no shorter form may be used) and after `0xF4` (nothing above
U+10FFFF). -/
def mayFollowOfFour (first second : UInt8) : Bool :=
  (if first = 0xF0 then (0x90 : UInt8) else 0x80) ≤ second
    && second ≤ (if first = 0xF4 then (0x8F : UInt8) else 0xBF)

/-- The character of a sequence: the low bits of its octets, six for each octet after
the first. -/
def charOfSequence (lead : Nat) (rest : List UInt8) : Char :=
  Char.ofNat (rest.foldl (fun n b => n * 64 + b.toNat % 64) lead)

/-- Reads octets in front of the characters already read (`done`, latest first), with
U+FFFD for each maximal ill-formed part. -/
def ofUtf8LossyFrom (done : List Char) : List UInt8 → List Char
  | [] => done.reverse
  | a :: rest =>
    if a < 0x80 then ofUtf8LossyFrom (Char.ofNat a.toNat :: done) rest
    else if 0xC2 ≤ a && a ≤ 0xDF then
      match rest with
      | b :: rest =>
        if isContinuation b then
          ofUtf8LossyFrom (charOfSequence (a.toNat % 32) [b] :: done) rest
        else ofUtf8LossyFrom ('\uFFFD' :: done) (b :: rest)
      | [] => ('\uFFFD' :: done).reverse
    else if 0xE0 ≤ a && a ≤ 0xEF then
      match rest with
      | b :: rest =>
        if mayFollowOfThree a b then
          match rest with
          | c :: rest =>
            if isContinuation c then
              ofUtf8LossyFrom (charOfSequence (a.toNat % 16) [b, c] :: done) rest
            else ofUtf8LossyFrom ('\uFFFD' :: done) (c :: rest)
          | [] => ('\uFFFD' :: done).reverse
        else ofUtf8LossyFrom ('\uFFFD' :: done) (b :: rest)
      | [] => ('\uFFFD' :: done).reverse
    else if 0xF0 ≤ a && a ≤ 0xF4 then
      match rest with
      | b :: rest =>
        if mayFollowOfFour a b then
          match rest with
          | c :: rest =>
            if isContinuation c then
              match rest with
              | d :: rest =>
                if isContinuation d then
                  ofUtf8LossyFrom (charOfSequence (a.toNat % 8) [b, c, d] :: done) rest
                else ofUtf8LossyFrom ('\uFFFD' :: done) (d :: rest)
              | [] => ('\uFFFD' :: done).reverse
            else ofUtf8LossyFrom ('\uFFFD' :: done) (c :: rest)
          | [] => ('\uFFFD' :: done).reverse
        else ofUtf8LossyFrom ('\uFFFD' :: done) (b :: rest)
      | [] => ('\uFFFD' :: done).reverse
    else ofUtf8LossyFrom ('\uFFFD' :: done) rest

/-- Reads any octets as text, with U+FFFD for each maximal ill-formed part. -/
def ofUtf8Lossy (bytes : List UInt8) : String :=
  String.ofList (ofUtf8LossyFrom [] bytes)

/-- A text is what its octets read as. -/
theorem ofUtf8?_utf8 (s : String) : ofUtf8? (utf8 s) = some s := by
  have h : (⟨(utf8 s).toArray⟩ : ByteArray) = s.toByteArray := by simp [utf8]
  rw [ofUtf8?, h, String.fromUTF8?, dif_pos s.isValidUTF8]
  rfl

end ServiceTypes.Text
