import Mathlib.Data.List.Flatten
import ServiceTypes.Proofs.Tag.Encoding
import ServiceTypes.Proofs.Tag.Lookup

/-!
# `ServiceTypes.Proofs.Tag.Rendering`: encodings written as entries

An encoding is written as an entry of a tag with its name as it stands. So the
entry is read back as the encoding unless its name has a character that a span
holds only behind a backslash, or says something else when it stands alone: an
empty value is no encoding, and the value `-` means that the field is ignored.
The theorems:

* `Spells.length_lt_or_plain`: a literal with an escape stands for fewer octets
  than it has.
* `Encoding.sublist_of_ofValue?`: an encoding is read from no value that is
  shorter than the one it is written with.
* `Encoding.ofValue?_value`: what the value of a written encoding says.
* `Encoding.found_text_iff`: the encodings that are read back.
-/

set_option autoImplicit false

namespace ServiceTypes.Tag

open Text (octetsOf)

/-! ### Literals without escapes -/

/-- The characters that stand in an interpreted literal only as escapes. -/
def escapedOnly : List Char := ['"', '\\', '\n']

/-- A text that is its own spelling. -/
def Plain (text : List Char) : Prop := ∀ c ∈ text, c ∉ escapedOnly

/-- Every character is tested against the three. -/
instance (text : List Char) : Decidable (Plain text) :=
  List.decidableBAll (fun c => c ∉ escapedOnly) text

/-- Between double quotes a plain text stands for itself. -/
theorem Plain.spells {text : List Char} (h : Plain text) : Spells text (octetsOf text) := by
  induction text with
  | nil => exact .nil
  | cons c text ih =>
    have hc : c ∉ escapedOnly := h c List.mem_cons_self
    simp only [escapedOnly, List.mem_cons, List.not_mem_nil, or_false, not_or] at hc
    obtain ⟨hquote, hbackslash, hfeed⟩ := hc
    exact .cons (.plain hbackslash hquote hfeed) (ih fun d hd => h d (List.mem_cons_of_mem c hd))

/-- A plain text ends no span, and leaves no backslash before the end. -/
theorem Plain.spanBody {text : List Char} (h : Plain text) : SpanBody text := by
  induction text with
  | nil => exact .nil
  | cons c text ih =>
    have hc : c ∉ escapedOnly := h c List.mem_cons_self
    simp only [escapedOnly, List.mem_cons, List.not_mem_nil, or_false, not_or] at hc
    exact .plain hc.1 hc.2.1 (ih fun d hd => h d (List.mem_cons_of_mem c hd))

/-- A character has at least one octet. -/
theorem length_le_length_octetsOf (text : List Char) : text.length ≤ (octetsOf text).length := by
  induction text with
  | nil => exact Nat.le_refl 0
  | cons c text ih =>
    have hc := c.utf8Size_pos
    unfold octetsOf at ih ⊢
    rw [List.flatMap_cons, List.length_append, String.length_utf8EncodeChar, List.length_cons]
    omega

/-- Leaving characters out leaves their octets out. -/
theorem length_octetsOf_le {fewer text : List Char} (h : fewer.Sublist text) :
    (octetsOf fewer).length ≤ (octetsOf text).length :=
  (h.flatMap String.utf8EncodeChar).length_le

/-- The front of a text with all its octets is the text. -/
theorem eq_of_prefix {front text : List Char} (h : front <+: text)
    (hle : (octetsOf text).length ≤ (octetsOf front).length) : front = text := by
  obtain ⟨more, rfl⟩ := h
  have hfront : octetsOf front <+: octetsOf (front ++ more) := by
    rw [Text.octetsOf_append]
    exact List.prefix_append _ _
  exact octetsOf_inj.mp (hfront.eq_of_length_le hle)

/-- An escape stands for fewer octets than it has characters. -/
theorem Piece.length_lt_or_plain {piece : List Char} {octets : List UInt8}
    (h : Piece piece octets) :
    octets.length < piece.length ∨ Plain piece ∧ octets = octetsOf piece := by
  cases h with
  | @plain c hbackslash hquote hfeed =>
    refine .inr ⟨?_, ?_⟩
    · simp [Plain, escapedOnly, hbackslash, hquote, hfeed]
    · simp [octetsOf]
  | letter _ => exact .inl (by simp)
  | hex _ _ => exact .inl (by simp)
  | octal hlength _ _ => exact .inl (by simp [hlength])
  | @short _ c hlength _ =>
    have hc := c.utf8Size_le_four
    exact .inl (by simp [hlength]; omega)
  | @long _ c hlength _ =>
    have hc := c.utf8Size_le_four
    exact .inl (by simp [hlength]; omega)

/-- A literal with an escape stands for fewer octets than it has. -/
theorem Spells.length_lt_or_plain {inner : List Char} {octets : List UInt8}
    (h : Spells inner octets) :
    octets.length < (octetsOf inner).length ∨ Plain inner ∧ octets = octetsOf inner := by
  induction h with
  | nil => exact .inr ⟨List.forall_mem_nil _, rfl⟩
  | @cons piece rest octets more hpiece _ ih =>
    have hle := length_le_length_octetsOf piece
    rw [Text.octetsOf_append, List.length_append, List.length_append]
    rcases hpiece.length_lt_or_plain, ih with ⟨hlt | ⟨hplain, rfl⟩, hlt' | ⟨hplain', rfl⟩⟩
    · exact .inl (by omega)
    · exact .inl (by omega)
    · exact .inl (by omega)
    · exact .inr ⟨List.forall_mem_append.mpr ⟨hplain, hplain'⟩, rfl⟩

/-! ### The value of a written encoding -/

/-- Trimming only leaves characters out. -/
theorem trim_sublist (text : List Char) : (Text.trim text).Sublist text := by
  have hstart : (Text.trimStart text).Sublist text := List.dropWhile_sublist Text.isBlank
  exact (List.rdropWhile_prefix Text.isBlank _).sublist.trans hstart

namespace Encoding

/-- The value that an encoding is written with: its name, and its options behind commas. -/
def value (a : Encoding) : List Char :=
  if a.ignored then ['-']
  else
    a.name.toList ++ (if a.omitEmpty then ",omitempty".toList else [])
      ++ (if a.asString then ",string".toList else [])

/-- The entry that an encoding is written as. -/
def entry (a : Encoding) : Entry := ⟨"json".toList, enclosed '"' a.value⟩

/-- A written encoding is one entry of a tag. -/
theorem toList_text (a : Encoding) : a.text.toList = a.entry.text := by
  unfold text entry value
  split
  · rfl
  · simp only [Entry.text, enclosed, String.toList_append]
    split <;> split <;> simp

/-- A name with an option behind a comma. -/
theorem ofValue?_option {name : List Char} (hname : ',' ∉ name) (htrimmed : Text.Trimmed name)
    (option : List Char) (hoption : ',' ∉ option) :
    ofValue? (String.ofList (name ++ ',' :: option))
      = some (addOption { name := String.ofList name } (Text.trim option)) := by
  unfold ofValue?
  rw [if_neg (by simp [String.isEmpty_iff]), String.toList_ofList,
    List.splitOn_append_cons_self_of_not_mem hname, List.splitOn_eq_singleton hoption]
  simp only [List.map_cons, List.map_nil, Text.trim_of_trimmed htrimmed]
  rfl

/-- A name alone. -/
theorem ofValue?_name {name : List Char} (hname : ',' ∉ name) (htrimmed : Text.Trimmed name) :
    ofValue? (String.ofList name) = if name = [] then none else ofParts? [name] := by
  unfold ofValue?
  rw [String.toList_ofList, List.splitOn_eq_singleton hname]
  simp only [List.map_cons, List.map_nil, Text.trim_of_trimmed htrimmed]
  cases name <;> simp [String.isEmpty_iff]

/-- An option that says nothing is left out when it is written, and the others are written as they
were read. -/
theorem value_addOption_sublist (name option : List Char) :
    (addOption { name := String.ofList name } option).value.Sublist (name ++ ',' :: option) := by
  unfold addOption value
  split
  case isTrue homitEmpty =>
    rw [homitEmpty]
    simp
  case isFalse =>
    split
    case isTrue hasString =>
      rw [hasString]
      simp
    case isFalse => simp

/-- An encoding is read from no value without the characters that it is written with. -/
theorem sublist_of_ofValue? {value : String} {a : Encoding} (h : ofValue? value = some a) :
    a.value.Sublist value.toList := by
  unfold ofValue? at h
  split at h
  case isTrue => cases h
  case isFalse =>
    have hparts : [','].intercalate (value.toList.splitOn ',') = value.toList :=
      List.intercalate_splitOn ','
    cases hsplit : value.toList.splitOn ',' with
    | nil => exact absurd hsplit (List.splitOn_ne_nil _ _)
    | cons name more =>
      rw [hsplit] at h hparts
      cases more with
      | nil =>
        rw [List.intercalate_singleton] at hparts
        rw [← hparts]
        refine List.Sublist.trans ?_ (trim_sublist name)
        -- The name is written as it was read, the one of an ignored field as well.
        have hread : (if Text.trim name = ['-'] then some { ignored := true }
            else some { name := String.ofList (Text.trim name) }) = some a := h
        split at hread <;> obtain rfl := Option.some.inj hread
        case isTrue hdash => rw [hdash]; exact List.Sublist.refl _
        case isFalse => simp [Encoding.value]
      | cons option more =>
        obtain ⟨behind, hbehind⟩ := Text.exists_intercalate_cons [','] option more
        rw [List.intercalate_cons_cons, hbehind] at hparts
        obtain rfl : addOption { name := String.ofList (Text.trim name) } (Text.trim option) = a :=
          Option.some.inj h
        have hoption : (Text.trim option).Sublist (option ++ behind) :=
          (trim_sublist option).trans (List.sublist_append_left _ _)
        rw [← hparts, List.append_assoc]
        exact (value_addOption_sublist _ _).trans
          ((trim_sublist name).append (hoption.cons_cons ','))

/-- The name is not one that says something else when it stands alone, or it does not stand
alone. -/
def Clear (a : Encoding) : Prop :=
  a.name = "" ∨ a.name = "-" → a.ignored ∨ a.omitEmpty ∨ a.asString

/-- A few flags and two comparisons decide it. -/
instance (a : Encoding) : Decidable a.Clear :=
  inferInstanceAs (Decidable (a.name = "" ∨ a.name = "-" → a.ignored ∨ a.omitEmpty ∨ a.asString))

/-- A written encoding is the meaning of its value unless its name alone says something else. -/
theorem ofValue?_value {a : Encoding} (h : a.WellFormed) :
    ofValue? (String.ofList a.value) = some a ↔ a.Clear := by
  obtain ⟨hcount, hignored, hcomma, htrimmed⟩ := h
  obtain ⟨name, omitEmpty, ignored, asString⟩ := a
  dsimp only at hcount hignored hcomma htrimmed
  match ignored, omitEmpty, asString, hcount with
  | true, false, false, _ =>
    obtain rfl := hignored rfl
    exact iff_of_true rfl fun _ => .inl rfl
  | false, true, false, _ =>
    have hread := ofValue?_option hcomma htrimmed "omitempty".toList (by decide)
    rw [Text.trim_of_trimmed (by decide), addOption, if_pos rfl, String.ofList_toList] at hread
    refine iff_of_true ?_ fun _ => .inr (.inl rfl)
    rw [← hread, value, if_neg Bool.false_ne_true, if_pos rfl, if_neg Bool.false_ne_true,
      List.append_nil]
    rfl
  | false, false, true, _ =>
    have hread := ofValue?_option hcomma htrimmed "string".toList (by decide)
    rw [Text.trim_of_trimmed (by decide), addOption, if_neg (by decide), if_pos rfl,
      String.ofList_toList] at hread
    refine iff_of_true ?_ fun _ => .inr (.inr rfl)
    rw [← hread, value, if_neg Bool.false_ne_true, if_neg Bool.false_ne_true, if_pos rfl,
      List.append_nil]
    rfl
  | false, false, false, _ =>
    -- Nothing stands behind the name, so that it must say what it says alone.
    have hclear : Clear ⟨name, false, false, false⟩ ↔ ¬ (name = "" ∨ name = "-") := by
      simp [Clear]
    have hempty : name.toList = [] ↔ name = "" := by simp
    have hdash : name.toList = ['-'] ↔ name = "-" := by
      rw [← String.toList_inj]
      rfl
    have hvalue : value ⟨name, false, false, false⟩ = name.toList := by simp [value]
    rw [hclear, hvalue, ofValue?_name hcomma htrimmed, ofParts?, String.ofList_toList]
    simp only [hempty, hdash]
    split
    case isTrue h => simp [h]
    case isFalse hne =>
      split
      case isTrue h => simp [h]
      case isFalse hne' => simp [hne, hne']

/-- The options and the mark of an ignored field need no escape. -/
theorem plain_value_iff {a : Encoding} (h : a.WellFormed) :
    Plain a.value ↔ Plain a.name.toList := by
  unfold value
  split
  case isTrue hignored =>
    rw [h.ignored hignored]
    decide
  case isFalse =>
    have hoptions : Plain ((if a.omitEmpty then ",omitempty".toList else [])
        ++ (if a.asString then ",string".toList else [])) := by
      split <;> split <;> decide
    rw [List.append_assoc]
    exact List.forall_mem_append.trans (and_iff_left hoptions)

/-! ### Reading a written encoding -/

/-- Without escapes the value of a written encoding is found as it is. -/
theorem find_text_of_plain {a : Encoding} (h : Plain a.value) :
    find "json".toList a.text.toList = .found (String.ofList a.value) := by
  have hname : ∀ c ∈ "json".toList, isNameChar c := List.all_eq_true.mp (by decide)
  have hentry : a.entry.WellFormed := ⟨List.cons_ne_nil _ _, hname, a.value, h.spanBody, rfl⟩
  have hspells : Spells a.value (Text.utf8 (String.ofList a.value)) := by
    rw [Text.utf8_eq_octetsOf, String.toList_ofList]
    exact h.spells
  have hfirst : Entry.first? (skipSpaces a.text.toList) = some (a.entry, []) := by
    have hskip := hentry.skipSpaces_append 0 []
    have hsplit := hentry.first?_append []
    rw [List.append_nil] at hsplit
    rw [List.replicate_zero, List.nil_append, List.append_nil, ← toList_text] at hskip
    rw [hskip, toList_text, hsplit]
  have hkey : a.entry.name = "json".toList := rfl
  rw [find_of_first? hfirst, if_pos hkey]
  simp only [Entry.lookup, entry, unquote_enclosed hspells]

/-- What is found in a written encoding is spelled by the front of its value. -/
theorem exists_spells_of_find_text {a : Encoding} {v : String}
    (h : find "json".toList a.text.toList = .found v) :
    ∃ inner, inner <+: a.value ∧ Spells inner (Text.utf8 v) := by
  have hfirst : Entry.first? (skipSpaces a.text.toList)
      = (splitSpan? (a.value ++ ['"'])).map fun split =>
          (⟨"json".toList, '"' :: split.1⟩, split.2) := by
    rw [toList_text]
    rfl
  cases hsplit : splitSpan? (a.value ++ ['"']) with
  | none =>
    rw [hsplit] at hfirst
    rw [find_of_first?_eq_none hfirst] at h
    cases h
  | some split =>
    obtain ⟨span, rest⟩ := split
    rw [hsplit] at hfirst
    rw [find_of_first? hfirst, if_pos rfl] at h
    -- The span ends at a double quote, which is the last one or stands in the value.
    obtain ⟨inner, -, rfl⟩ := exists_spanBody_of_splitSpan? hsplit
    have hparts : inner ++ (['"'] ++ rest) = a.value ++ ['"'] := by
      rw [← List.append_assoc]
      exact append_of_splitSpan? hsplit
    have hlength : inner.length ≤ a.value.length := by
      have hlengths := congrArg List.length hparts
      simp only [List.length_append, List.length_singleton] at hlengths
      omega
    refine ⟨inner, List.prefix_of_prefix_length_le ⟨_, hparts⟩ (List.prefix_append _ _) hlength, ?_⟩
    unfold Entry.lookup at h
    split at h
    case h_1 text hread =>
      obtain rfl := Lookup.found.inj h
      exact spells_of_unquote hread
    case h_2 => cases h

/-- An encoding that is read from a value is read back from its written form exactly if no
character of its name needs an escape and its name is clear. -/
theorem found_text_iff {value : String} {a : Encoding} (h : ofValue? value = some a) :
    (∃ v, find "json".toList a.text.toList = .found v ∧ ofValue? v = some a)
      ↔ Plain a.name.toList ∧ a.Clear := by
  have hwell : a.WellFormed := wellFormed_of_ofValue? h
  rw [← plain_value_iff hwell]
  constructor
  · rintro ⟨v, hfind, hv⟩
    -- The encoding is read from no fewer octets than its value has, but an escape loses some.
    have hread : (octetsOf a.value).length ≤ (Text.utf8 v).length := by
      rw [Text.utf8_eq_octetsOf]
      exact length_octetsOf_le (sublist_of_ofValue? hv)
    obtain ⟨inner, hprefix, hspells⟩ := exists_spells_of_find_text hfind
    have hinner : (octetsOf inner).length ≤ (octetsOf a.value).length :=
      length_octetsOf_le hprefix.sublist
    rcases hspells.length_lt_or_plain with hlt | ⟨hplain, hoctets⟩
    · omega
    · rw [hoctets] at hread
      obtain rfl : inner = a.value := eq_of_prefix hprefix hread
      rw [Text.utf8_eq_octetsOf, octetsOf_inj] at hoctets
      refine ⟨hplain, (ofValue?_value hwell).mp ?_⟩
      rw [← hoctets, String.ofList_toList]
      exact hv
  · rintro ⟨hplain, hclear⟩
    exact ⟨_, find_text_of_plain hplain, (ofValue?_value hwell).mpr hclear⟩

/-- The name of an ignored field is clear if an option stands behind it. -/
theorem found_text_dash_option :
    ofValue? " - ,omitempty,string" = some { name := "-", omitEmpty := true } ∧
      ∃ v, find "json".toList (text { name := "-", omitEmpty := true }).toList = .found v ∧
        ofValue? v = some { name := "-", omitEmpty := true } := by
  have h : ofValue? " - ,omitempty,string" = some { name := "-", omitEmpty := true } := by
    decide +kernel
  exact ⟨h, (found_text_iff h).mpr (by decide)⟩

/-- Written without a comma behind it, it is read back as an ignored field. -/
theorem found_text_dash_alone :
    ofValue? "-," = some { name := "-" } ∧
      find "json".toList (text { name := "-" }).toList = .found "-" ∧
      ofValue? "-" = some { ignored := true } ∧
      ¬ ∃ v, find "json".toList (text { name := "-" }).toList = .found v ∧
        ofValue? v = some { name := "-" } := by
  have hread : ofValue? "-" = some { ignored := true } := by decide +kernel
  have hfind : find "json".toList (text { name := "-" }).toList = .found "-" :=
    find_text_of_plain (by decide)
  refine ⟨by decide +kernel, hfind, hread, ?_⟩
  rintro ⟨v, hfound, hv⟩
  rw [hfind] at hfound
  obtain rfl := Lookup.found.inj hfound
  rw [hread] at hv
  exact absurd hv (by decide)

end Encoding

end ServiceTypes.Tag
