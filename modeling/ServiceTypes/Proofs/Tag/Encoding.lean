import ServiceTypes.Proofs.Text.Blank
import ServiceTypes.Proofs.Text.Lines
import ServiceTypes.Tag.Encoding

/-!
# `ServiceTypes.Proofs.Tag.Encoding`: well-formed encodings

An encoding that is read from the value of an entry has been cut at commas and
trimmed, and only its first option counts. The theorems:

* `Encoding.wellFormed_of_ofValue?`: what an entry holds is well formed.
-/

set_option autoImplicit false

namespace ServiceTypes.Tag

namespace Encoding

/-- An encoding says at most one thing about its field beside the name, and a field that is
never serialized has no name. A name stands between commas, without blanks around it. -/
structure WellFormed (a : Encoding) : Prop where
  atMostOne : [a.ignored, a.omitEmpty, a.asString].count true ≤ 1
  ignored : a.ignored = true → a.name = ""
  noComma : ',' ∉ a.name.toList
  trimmed : Text.Trimmed a.name.toList

/-- A name alone. -/
theorem wellFormed_ofName {name : List Char} (hcomma : ',' ∉ name)
    (htrimmed : Text.Trimmed name) : WellFormed { name := String.ofList name } where
  atMostOne := Nat.zero_le 1
  ignored h := absurd h Bool.false_ne_true
  noComma := by
    rw [String.toList_ofList]
    exact hcomma
  trimmed := by
    rw [String.toList_ofList]
    exact htrimmed

/-- An option leaves the name as it is. -/
theorem name_addOption (a : Encoding) (option : List Char) :
    (a.addOption option).name = a.name := by
  unfold addOption
  split
  · rfl
  · split <;> rfl

/-- No option takes the field out of the serialization. -/
theorem ignored_addOption (a : Encoding) (option : List Char) :
    (a.addOption option).ignored = a.ignored := by
  unfold addOption
  split
  · rfl
  · split <;> rfl

/-- A name with a first option, which sets at most one flag. -/
theorem wellFormed_addOption {name : List Char}
    (h : WellFormed { name := String.ofList name }) (option : List Char) :
    WellFormed (addOption { name := String.ofList name } option) where
  atMostOne := by
    -- The option sets one of the two flags, or none.
    unfold addOption
    split
    · exact Nat.le_refl 1
    · split
      · exact Nat.le_refl 1
      · exact Nat.zero_le 1
  ignored hignored := by
    rw [ignored_addOption] at hignored
    exact absurd hignored Bool.false_ne_true
  noComma := by
    rw [name_addOption]
    exact h.noComma
  trimmed := by
    rw [name_addOption]
    exact h.trimmed

/-- A field that is never serialized. -/
theorem wellFormed_ignored : WellFormed { ignored := true } where
  atMostOne := Nat.le_refl 1
  ignored _ := rfl
  noComma := List.not_mem_nil
  trimmed := Text.trimmed_nil

/-- What a name says with its first option is well-formed if no part has commas or outer blanks. -/
theorem wellFormed_ofParts? {parts : List (List Char)}
    (hparts : ∀ part ∈ parts, ',' ∉ part ∧ Text.Trimmed part) {a : Encoding}
    (h : ofParts? parts = some a) : a.WellFormed := by
  -- There is a dash alone, a name alone, or a name with its first option.
  unfold ofParts? at h
  split at h
  case h_1 => cases h
  case h_2 name =>
    split at h
    case isTrue =>
      obtain rfl := Option.some.inj h
      exact wellFormed_ignored
    case isFalse =>
      obtain rfl := Option.some.inj h
      obtain ⟨hcomma, htrimmed⟩ := hparts name List.mem_cons_self
      exact wellFormed_ofName hcomma htrimmed
  case h_3 name option rest =>
    obtain rfl := Option.some.inj h
    obtain ⟨hcomma, htrimmed⟩ := hparts name List.mem_cons_self
    exact wellFormed_addOption (wellFormed_ofName hcomma htrimmed) option

/-- The encoding that an entry holds is well formed, whatever the value of the entry is. -/
theorem wellFormed_of_ofValue? {value : String} {a : Encoding} (h : ofValue? value = some a) :
    a.WellFormed := by
  unfold ofValue? at h
  split at h
  case isTrue => cases h
  case isFalse =>
    refine wellFormed_ofParts? ?_ h
    intro part hpart
    obtain ⟨cut, hcut, rfl⟩ := List.mem_map.mp hpart
    exact ⟨fun hmem => Text.not_mem_of_mem_splitOn hcut (Text.mem_of_mem_trim hmem),
      Text.trimmed_trim cut⟩

end Encoding

end ServiceTypes.Tag
