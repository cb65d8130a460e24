import Mathlib.Order.MinMax
import ServiceTypes.Proofs.Json.Meaning
import ServiceTypes.Proofs.Keyed

/-!
# `ServiceTypes.Proofs.Json.Compact`: what is written can be read

A value is written without spaces, its strings with escapes where JSON asks for
them. The theorems:

* `exists_writesRaw_escaped`: a string with its escapes denotes the string.
* `Value.exists_writes_compact`: the text of a value writes a node that means
  the value.
* `Value.ofText_compact`: the text of a value is read as this value.
-/

set_option autoImplicit false

namespace ServiceTypes.Json

open Text (octetsOf utf8)

/-! ### Strings -/

/-- The octets of a character that needs no escape need none. -/
theorem unescaped_of_mem_utf8EncodeChar {c : Char} (hcontrol : 0x20 ≤ c.toNat) (hquote : c ≠ '"')
    (hbackslash : c ≠ '\\') : ∀ b ∈ String.utf8EncodeChar c, Unescaped b := by
  intro b hb
  by_cases hsmall : b.toNat < 0x80
  · -- A small octet is the character itself.
    have hc : c = Char.ofNat b.toNat := Text.eq_of_mem_utf8EncodeChar hsmall hb
    have htable : ∀ n < 0x80, (Char.ofNat n).toNat = n := by decide
    refine ⟨?_, ?_, ?_⟩
    · rw [hc, htable b.toNat hsmall] at hcontrol
      exact UInt8.le_iff_toNat_le.mpr hcontrol
    · intro heq
      rw [heq] at hc
      exact hquote hc
    · intro heq
      rw [heq] at hc
      exact hbackslash hc
  · have hlarge : ∀ small : UInt8, small.toNat < 0x80 → b ≠ small :=
      fun small h heq => hsmall (heq ▸ h)
    exact ⟨UInt8.le_iff_toNat_le.mpr (by simp; omega), hlarge _ (by decide), hlarge _ (by decide)⟩

/-- A character is written as it is, by a letter, or as a control by its number. -/
theorem escape_cases (c : Char) :
    (0x20 ≤ c.toNat ∧ c ≠ '"' ∧ c ≠ '\\' ∧ escape c = [c]) ∨
    (∃ p ∈ letterEscapes, c = Char.ofNat p.2.toNat ∧ escape c = ['\\', Char.ofNat p.1.toNat]) ∨
    (c.toNat < 0x20 ∧
      escape c = ['\\', 'u', '0', '0', hexDigit (c.toNat / 16), hexDigit c.toNat]) := by
  by_cases hcontrol : c.toNat < 0x20
  · -- Below the space every character is escaped, and a table tells how.
    have htable : ∀ n < 0x20,
        (∃ p ∈ letterEscapes, Char.ofNat n = Char.ofNat p.2.toNat ∧
          escape (Char.ofNat n) = ['\\', Char.ofNat p.1.toNat]) ∨
        escape (Char.ofNat n) = ['\\', 'u', '0', '0', hexDigit (n / 16), hexDigit n] := by
      decide
    have hc := htable c.toNat hcontrol
    rw [c.ofNat_toNat] at hc
    exact .inr (hc.imp_right fun hescape => ⟨hcontrol, hescape⟩)
  · have hplain : 0x20 ≤ c.toNat := by omega
    by_cases hquote : c = '"'
    · exact .inr (.inl ⟨(quote, quote), by decide, hquote, by rw [hquote]; rfl⟩)
    · by_cases hbackslash : c = '\\'
      · exact .inr (.inl ⟨(backslash, backslash), by decide, hbackslash, by rw [hbackslash]; rfl⟩)
      · refine .inl ⟨hplain, hquote, hbackslash, ?_⟩
        unfold escape
        rw [if_neg hquote, if_neg hbackslash, if_pos hplain]

/-- The hexadecimal digit that is written stands for the number. -/
theorem digit_hexDigit (n : Nat) : Tag.Digit 16 (hexDigit n) (n % 16) := by
  have htable : ∀ k < 16, (Nat.digitChar k, k) ∈ Tag.hexDigits := by decide
  have hlt : n % 16 < 16 := Nat.mod_lt n (by decide)
  exact ⟨htable _ hlt, hlt⟩

/-- The four digits of a control write its number. -/
theorem numeral_hexDigits {n : Nat} (h : n < 0x20) :
    Tag.Numeral 16 ['0', '0', hexDigit (n / 16), hexDigit n] n := by
  have hzero : Tag.Digit 16 '0' 0 := digit_hexDigit 0
  have hnumeral := (((Tag.Numeral.nil.concat hzero).concat hzero).concat
    (digit_hexDigit (n / 16))).concat (digit_hexDigit n)
  have hvalue : (((0 * 16 + 0) * 16 + 0) * 16 + n / 16 % 16) * 16 + n % 16 = n := by omega
  rw [hvalue] at hnumeral
  exact hnumeral

/-- A character with its escape denotes the character. -/
theorem exists_writesRaw_escape (c : Char) {raw : RawText} {octets : List UInt8} {cs : List Char}
    (hwrites : WritesRaw raw octets) (hdenotes : Denotes raw cs) :
    ∃ raw', WritesRaw raw' (octetsOf (escape c) ++ octets) ∧ Denotes raw' (c :: cs) := by
  obtain ⟨hplain, hquote, hbackslash, hescape⟩ | ⟨p, hp, hc, hescape⟩ | ⟨hcontrol, hescape⟩ :=
    escape_cases c
  · have hoctets : octetsOf [c] = String.utf8EncodeChar c := List.append_nil _
    rw [hescape, hoctets]
    have hunescaped := unescaped_of_mem_utf8EncodeChar hplain hquote hbackslash
    exact ⟨_, writesRaw_octets hunescaped hwrites, hdenotes.octets c⟩
  · -- A letter stands for the only octet of the character.
    have htable : ∀ p ∈ letterEscapes, String.utf8EncodeChar (Char.ofNat p.2.toNat) = [p.2] ∧
        octetsOf ['\\', Char.ofNat p.1.toNat] = [backslash, p.1] := forall_mem_of_all (by decide)
    obtain ⟨hoctet, hletter⟩ := htable p hp
    have hraw := hdenotes.octets c
    rw [hc, hoctet, ← hc] at hraw
    rw [hescape, hletter]
    exact ⟨_, .letter hp hwrites, hraw⟩
  · have hraw := hdenotes.units c
    have hunit : unitsOf c = [c.toNat] := if_pos (by omega)
    rw [hunit] at hraw
    have hsplit : octetsOf ('\\' :: 'u' :: ['0', '0', hexDigit (c.toNat / 16), hexDigit c.toNat])
        = backslash :: 0x75 :: octetsOf ['0', '0', hexDigit (c.toNat / 16), hexDigit c.toNat] := rfl
    rw [hescape, hsplit]
    exact ⟨_, .unit rfl (numeral_hexDigits hcontrol) hwrites, hraw⟩

/-- A string with its escapes denotes the string. -/
theorem exists_writesRaw_escaped (cs : List Char) :
    ∃ raw, WritesRaw raw (octetsOf (cs.flatMap escape)) ∧ Denotes raw cs := by
  induction cs with
  | nil => exact ⟨[], .nil, .nil⟩
  | cons c cs ih =>
    obtain ⟨raw, hwrites, hdenotes⟩ := ih
    rw [List.flatMap_cons, Text.octetsOf_append]
    exact exists_writesRaw_escape c hwrites hdenotes

/-- A string is written between quotes. -/
theorem utf8_quoted (s : String) :
    utf8 (quoted s) = quote :: (octetsOf (s.toList.flatMap escape) ++ [quote]) := by
  have hquote : utf8 "\"" = [quote] := by decide
  unfold quoted
  rw [Text.utf8_append, Text.utf8_append, hquote, Text.utf8_eq_octetsOf, String.toList_ofList]
  rfl

/-! ### Values -/

mutual

/-- A value without doubles: its numbers are integers of 64 bits. The members of its objects
are tables, in ascending key order without repetition. -/
def Value.Exact : Value → Prop
  | .null => True
  | .bool _ => True
  | .number (.integer n) => FitsWord n
  | .number (.double _) => False
  | .text _ => True
  | .array items => ExactItems items
  | .object members => Ascending members ∧ ExactMembers members
termination_by structural v => v

/-- Values without doubles. -/
def ExactItems : List Value → Prop
  | [] => True
  | item :: items => item.Exact ∧ ExactItems items
termination_by structural items => items

/-- Members whose values are without doubles. -/
def ExactMembers : List (String × Value) → Prop
  | [] => True
  | (_, value) :: members => value.Exact ∧ ExactMembers members
termination_by structural members => members

end

mutual

/-- `Value.Exact` can be decided. -/
def Value.decidableExact : (v : Value) → Decidable v.Exact
  | .null => .isTrue True.intro
  | .bool _ => .isTrue True.intro
  | .number (.integer n) => inferInstanceAs (Decidable (FitsWord n))
  | .number (.double _) => .isFalse not_false
  | .text _ => .isTrue True.intro
  | .array items => decidableExactItems items
  | .object members =>
    have := decidableExactMembers members
    inferInstanceAs (Decidable (Ascending members ∧ ExactMembers members))
termination_by structural v => v

/-- `ExactItems` can be decided. -/
def decidableExactItems : (items : List Value) → Decidable (ExactItems items)
  | [] => .isTrue True.intro
  | item :: items =>
    have := item.decidableExact
    have := decidableExactItems items
    inferInstanceAs (Decidable (item.Exact ∧ ExactItems items))
termination_by structural items => items

/-- `ExactMembers` can be decided. -/
def decidableExactMembers : (members : List (String × Value)) → Decidable (ExactMembers members)
  | [] => .isTrue True.intro
  | (_, value) :: members =>
    have := value.decidableExact
    have := decidableExactMembers members
    inferInstanceAs (Decidable (value.Exact ∧ ExactMembers members))
termination_by structural members => members

end

/-- Whether a value is exact is decided along the value. -/
instance : DecidablePred Value.Exact := Value.decidableExact

/-- Items are exact if each of them is. -/
theorem exactItems_of_forall_mem {items : List Value} (h : ∀ v ∈ items, v.Exact) :
    ExactItems items := by
  induction items with
  | nil => exact True.intro
  | cons item items ih =>
    obtain ⟨hitem, hitems⟩ := List.forall_mem_cons.mp h
    exact ⟨hitem, ih hitems⟩

mutual

/-- How many arrays and objects are open at once in a value. -/
def Value.depth : Value → Nat
  | .null => 0
  | .bool _ => 0
  | .number _ => 0
  | .text _ => 0
  | .array items => depthOfValues items + 1
  | .object members => depthOfPairs members + 1
termination_by structural v => v

/-- The greatest depth of the items of an array. -/
def depthOfValues : List Value → Nat
  | [] => 0
  | item :: items => max item.depth (depthOfValues items)
termination_by structural items => items

/-- The greatest depth of the members of an object. -/
def depthOfPairs : List (String × Value) → Nat
  | [] => 0
  | (_, value) :: members => max value.depth (depthOfPairs members)
termination_by structural members => members

end

/-- One level is left for the array of the values. -/
theorem depthOfValues_lt {items : List Value} {limit : Nat} (hlimit : 0 < limit)
    (h : ∀ v ∈ items, v.depth < limit) : depthOfValues items < limit := by
  induction items with
  | nil => exact hlimit
  | cons item items ih =>
    obtain ⟨hitem, hitems⟩ := List.forall_mem_cons.mp h
    exact Nat.max_lt.mpr ⟨hitem, ih hitems⟩

/-- The texts of items, one by one. -/
theorem compactItems_eq_map (items : List Value) :
    compactItems items = items.map Value.compact := by
  induction items with
  | nil => rfl
  | cons item items ih => rw [compactItems, ih, List.map_cons]

/-- The text of some items is not empty. -/
theorem compactItems_ne_nil {items : List Value} (h : items ≠ []) : compactItems items ≠ [] := by
  rw [compactItems_eq_map]
  exact fun hnil => h (List.map_eq_nil_iff.mp hnil)

/-- The text of some members is not empty. -/
theorem compactMembers_ne_nil {members : List (String × Value)} (h : members ≠ []) :
    compactMembers members ≠ [] := by
  cases members with
  | nil => exact absurd rfl h
  | cons member members => exact List.cons_ne_nil _ _

/-- A member without spaces. -/
theorem writesMember_compact {key : String} {raw : RawText}
    (hkey : WritesRaw raw (octetsOf (key.toList.flatMap escape))) {node : Node} {text : String}
    (hvalue : Writes node (utf8 text)) :
    WritesMember ⟨raw, node⟩ (utf8 (quoted key ++ ":" ++ text)) := by
  have hmember := WritesMember.intro (List.forall_mem_nil _) hkey (List.forall_mem_nil _)
    (.ofWrites hvalue)
  rw [Text.utf8_append, Text.utf8_append, utf8_quoted, List.append_assoc, List.cons_append,
    List.append_assoc]
  exact hmember

mutual

/-- The text of a value writes a node that means the value. -/
theorem Value.exists_writes_compact {v : Value} (h : v.Exact) :
    ∃ node, Writes node (utf8 v.compact) ∧ Means node v ∧ node.depth ≤ v.depth := by
  match v with
  | .null => exact ⟨_, .null, .null, Nat.le_refl 0⟩
  | .bool true => exact ⟨_, .true, .bool true, Nat.le_refl 0⟩
  | .bool false => exact ⟨_, .false, .bool false, Nat.le_refl 0⟩
  | .number (.integer n) =>
    rw [Value.compact, Text.utf8_eq_octetsOf, String.toList_ofList]
    exact ⟨_, .integer n, .integer h, Nat.le_refl 0⟩
  | .number (.double _) => exact absurd h (by rw [Value.Exact]; exact not_false)
  | .text s =>
    obtain ⟨raw, hwrites, hdenotes⟩ := exists_writesRaw_escaped s.toList
    rw [Value.compact, utf8_quoted]
    exact ⟨_, .text hwrites, .text hdenotes, Nat.le_refl 0⟩
  | .array [] => exact ⟨_, .emptyArray (List.forall_mem_nil _), .array .nil, Nat.le_refl 1⟩
  | .array (item :: items) =>
    have hne : item :: items ≠ [] := List.cons_ne_nil _ _
    obtain ⟨nodes, hwrites, hmeans, hdepth⟩ := exists_writes_compactItems h hne
    refine ⟨.array nodes, ?_, .array hmeans, Nat.add_le_add_right hdepth 1⟩
    rw [Value.compact, Text.utf8_append, Text.utf8_append]
    exact .array hwrites
  | .object [] => exact ⟨_, .emptyObject (List.forall_mem_nil _), .object .nil, Nat.le_refl 1⟩
  | .object (member :: members) =>
    obtain ⟨hascending, hexact⟩ := h
    have hne : member :: members ≠ [] := List.cons_ne_nil _ _
    obtain ⟨nodes, hwrites, hmeans, hdepth⟩ := exists_writes_compactMembers hexact hne
    -- Entering the members one by one leaves them as they are.
    have hobject := Means.object hmeans
    rw [ofEntries_of_ascending hascending] at hobject
    refine ⟨.object nodes, ?_, hobject, Nat.add_le_add_right hdepth 1⟩
    rw [Value.compact, Text.utf8_append, Text.utf8_append]
    exact .object hwrites
termination_by structural v

/-- So do the texts of items with commas between them. -/
theorem exists_writes_compactItems {items : List Value} (h : ExactItems items) (hne : items ≠ []) :
    ∃ nodes, WritesItems nodes (utf8 (",".intercalate (compactItems items))) ∧
      MeansItems nodes items ∧ depthOfItems nodes ≤ depthOfValues items := by
  match items with
  | [] => exact absurd rfl hne
  | item :: items =>
    obtain ⟨node, hwrites, hmeans, hdepth⟩ := Value.exists_writes_compact h.1
    by_cases hlast : items = []
    · subst hlast
      rw [compactItems, compactItems, String.intercalate_singleton]
      exact ⟨[node], .last (.ofWrites hwrites), .cons hmeans .nil, max_le_max hdepth le_rfl⟩
    · obtain ⟨nodes, hmore, hitems, hdepths⟩ := exists_writes_compactItems h.2 hlast
      rw [compactItems, String.intercalate_cons_of_ne_nil (compactItems_ne_nil hlast),
        Text.utf8_append, Text.utf8_append, List.append_assoc]
      exact ⟨node :: nodes, .cons (.ofWrites hwrites) hmore, .cons hmeans hitems,
        max_le_max hdepth hdepths⟩
termination_by structural items

/-- So do the texts of members with commas between them. -/
theorem exists_writes_compactMembers {members : List (String × Value)} (h : ExactMembers members)
    (hne : members ≠ []) :
    ∃ nodes, WritesMembers nodes (utf8 (",".intercalate (compactMembers members))) ∧
      MeansMembers nodes members ∧ depthOfMembers nodes ≤ depthOfPairs members := by
  match members with
  | [] => exact absurd rfl hne
  | (key, value) :: members =>
    obtain ⟨node, hwrites, hmeans, hdepth⟩ := Value.exists_writes_compact h.1
    obtain ⟨raw, hkey, hdenotes⟩ := exists_writesRaw_escaped key.toList
    have hmember := writesMember_compact hkey hwrites
    -- A comma follows every member but the last.
    by_cases hlast : members = []
    · subst hlast
      rw [compactMembers, compactMembers, String.intercalate_singleton]
      exact ⟨[⟨raw, node⟩], .last hmember, .cons hdenotes hmeans .nil, max_le_max hdepth le_rfl⟩
    · obtain ⟨nodes, hmore, hmembers, hdepths⟩ := exists_writes_compactMembers h.2 hlast
      rw [compactMembers, String.intercalate_cons_of_ne_nil (compactMembers_ne_nil hlast),
        Text.utf8_append _ (",".intercalate _), Text.utf8_append _ ",", List.append_assoc]
      exact ⟨⟨raw, node⟩ :: nodes, .cons hmember hmore, .cons hdenotes hmeans hmembers,
        max_le_max hdepth hdepths⟩
termination_by structural members

end

/-- The text of a value is read as this value, if its arrays and objects may be opened. -/
theorem Value.ofText_compact {v : Value} (h : v.Exact) (hdepth : v.depth ≤ nestingLimit) :
    Value.ofText (utf8 v.compact) = .ok v := by
  obtain ⟨node, hwrites, hmeans, hnode⟩ := Value.exists_writes_compact h
  exact Value.ofText_of_means hmeans (Nat.le_trans hnode hdepth) (.ofWrites hwrites)

end ServiceTypes.Json
