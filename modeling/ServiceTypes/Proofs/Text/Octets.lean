import Mathlib.Tactic.SplitIfs
import ServiceTypes.Text.Utf8

/-!
# `ServiceTypes.Proofs.Text.Octets`: texts and their octets

`octetsOf` writes characters as UTF-8, one after another, so that proofs
can follow the characters. The theorems:

* `utf8_eq_octetsOf` / `ofUtf8?_octetsOf`: `octetsOf` is what `utf8`
  writes and what `ofUtf8?` reads back.
* `ofUtf8?_eq_some_iff`: nothing but the octets of a text is read as the
  text.
* `notMem_octetsOf`: an octet below `0x80` stands in a text only where
  its own character does. A line without carriage return and line feed
  has neither octet.
* `utf8_lt`: texts in character order have their octets in the same
  order, so that ascending keys are keys in octet order.
-/

set_option autoImplicit false

namespace ServiceTypes.Text

/-- The octets of characters, one character after another. -/
def octetsOf (cs : List Char) : List UInt8 :=
  cs.flatMap String.utf8EncodeChar

/-- Characters are encoded one by one. -/
theorem octetsOf_append (cs ds : List Char) :
    octetsOf (cs ++ ds) = octetsOf cs ++ octetsOf ds :=
  List.flatMap_append

/-- `utf8` writes the octets of the characters. -/
theorem utf8_eq_octetsOf (s : String) : utf8 s = octetsOf s.toList := by
  show s.toByteArray.data.toList = s.toList.flatMap String.utf8EncodeChar
  rw [← String.utf8Encode_toList]
  simp [List.utf8Encode]

/-- The octets of joined texts are joined. -/
theorem utf8_append (s t : String) : utf8 (s ++ t) = utf8 s ++ utf8 t := by
  rw [utf8_eq_octetsOf, String.toList_append, octetsOf_append, ← utf8_eq_octetsOf,
    ← utf8_eq_octetsOf]

/-- The octets of characters are read as these characters. -/
theorem ofUtf8?_octetsOf (cs : List Char) :
    ofUtf8? (octetsOf cs) = some (String.ofList cs) := by
  have h := ofUtf8?_utf8 (String.ofList cs)
  rw [utf8_eq_octetsOf, String.toList_ofList] at h
  exact h

/-- Octets that are read are those of the text that is read from them. -/
theorem ofUtf8?_eq_some_iff {octets : List UInt8} {s : String} :
    ofUtf8? octets = some s ↔ octets = utf8 s := by
  constructor
  · intro h
    unfold ofUtf8? String.fromUTF8? at h
    split at h
    case isTrue hvalid =>
      rw [← Option.some.inj h]
      rfl
    case isFalse => cases h
  · rintro rfl
    exact ofUtf8?_utf8 s

/-! ### Octets of ASCII characters -/

/-- An octet below `0x80` in the encoding of a character is the character itself. -/
theorem eq_of_mem_utf8EncodeChar {b : UInt8} {c : Char} (hb : b.toNat < 0x80)
    (h : b ∈ String.utf8EncodeChar c) : c = Char.ofNat b.toNat := by
  unfold String.utf8EncodeChar at h
  dsimp only at h
  -- All octets of the longer encodings are at least `0x80`.
  split_ifs at h with h1 h2 h3
  · rw [List.mem_singleton.mp h, UInt8.toNat_ofNat_of_lt' (by omega : c.val.toNat < 256)]
    exact c.ofNat_toNat.symm
  all_goals
    simp only [List.mem_cons, List.not_mem_nil, or_false] at h
    exfalso
    rcases h with rfl | rfl | rfl | rfl <;> simp at hb <;> omega

/-- An octet below `0x80` stands in the octets of a text only if its character stands in
the text. -/
theorem notMem_octetsOf {b : UInt8} {cs : List Char} (hb : b.toNat < 0x80)
    (h : Char.ofNat b.toNat ∉ cs) : b ∉ octetsOf cs := by
  intro hmem
  obtain ⟨c, hc, hbc⟩ := List.mem_flatMap.mp hmem
  exact h (eq_of_mem_utf8EncodeChar hb hbc ▸ hc)

/-- Every character has at least one octet. -/
theorem octetsOf_ne_nil {cs : List Char} (h : cs ≠ []) : octetsOf cs ≠ [] := by
  cases cs with
  | nil => exact absurd rfl h
  | cons c rest =>
    intro hnil
    exact String.utf8EncodeChar_ne_nil (List.append_eq_nil_iff.mp hnil).1

/-! ### The order of texts and of their octets -/

/-- Lists of octets that start with numbers below 256 compare by these numbers first. -/
theorem ofNat_cons_lt_iff {a b : Nat} (ha : a < 256) (hb : b < 256) (xs ys : List UInt8) :
    UInt8.ofNat a :: xs < UInt8.ofNat b :: ys ↔ a < b ∨ a = b ∧ xs < ys := by
  have hta : (UInt8.ofNat a).toNat = a := UInt8.toNat_ofNat_of_lt' ha
  have htb : (UInt8.ofNat b).toNat = b := UInt8.toNat_ofNat_of_lt' hb
  rw [List.cons_lt_cons_iff, UInt8.lt_iff_toNat_lt, ← UInt8.toNat_inj, hta, htb]

/-- The octets of a smaller character come before those of a greater one, whatever
follows them. -/
theorem utf8EncodeChar_append_lt {c d : Char} (h : c < d) (xs ys : List UInt8) :
    String.utf8EncodeChar c ++ xs < String.utf8EncodeChar d ++ ys := by
  have hcd : c.val.toNat < d.val.toNat := h
  have hd : d.val.toNat < 0x110000 := by
    have hvalid := d.valid
    unfold UInt32.isValidChar Nat.isValidChar at hvalid
    omega
  unfold String.utf8EncodeChar
  generalize c.val.toNat = m at *
  generalize d.val.toNat = n at *
  -- The octets are the digits to base 64, with a mark that grows with their number.
  have h2 : ∀ k : Nat, k / 4096 = k / 64 / 64 := fun k => by omega
  have h3 : ∀ k : Nat, k / 262144 = k / 64 / 64 / 64 := fun k => by omega
  simp only [h2, h3]
  split_ifs <;>
    simp (disch := omega) only [List.cons_append, List.nil_append, ofNat_cons_lt_iff] <;>
    omega

/-- The order of texts is the order of their octets. -/
theorem octetsOf_lt {cs ds : List Char} (h : cs < ds) : octetsOf cs < octetsOf ds := by
  induction h with
  | @nil d ds =>
    obtain ⟨b, bs, hb⟩ := List.exists_cons_of_ne_nil (octetsOf_ne_nil (List.cons_ne_nil d ds))
    rw [hb]
    exact List.nil_lt_cons b bs
  | rel hcd => exact utf8EncodeChar_append_lt hcd _ _
  | cons _ ih => exact List.append_left_lt ih

/-- Texts in order have their octets in order. -/
theorem utf8_lt {a b : String} (h : a < b) : utf8 a < utf8 b := by
  rw [utf8_eq_octetsOf, utf8_eq_octetsOf]
  exact octetsOf_lt h

end ServiceTypes.Text
