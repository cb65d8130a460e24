import ServiceTypes.Typing

/-!
# `ServiceTypes.Proofs.Typing.Lines`: the lines of a struct one by one

A line gives its fields and reports its diagnostics without regard to the
lines around it. The theorems:

* `eq_reference_of_typeOfSelector`: what a selector stands for.
* `result_fieldsOf_append` / `events_fieldsOf_append`: lines in a row give
  their fields in a row, and their diagnostics too.
* `fieldsOf_singleton`: a line alone.
* `fieldsOfLine_of_exported`: what a line with exported names gives.
* `exists_of_mem_fieldsOfLine`: what a field comes from.
* `result_encodingOf`: the encoding that a tag holds.
-/

set_option autoImplicit false

namespace ServiceTypes.Scope

open Model (Field FieldType)
open Source (FieldLine TypeExpr isExported)
open Tag (Encoding)

variable (scope : Scope) (owner : String)

/-- Lines in a row give their fields in a row. -/
theorem result_fieldsOf_append (lines more : List FieldLine) :
    (scope.fieldsOf owner (lines ++ more)).result
      = (scope.fieldsOf owner lines).result ++ (scope.fieldsOf owner more).result := by
  induction lines with
  | nil => rfl
  | cons line lines ih =>
    rw [List.cons_append, fieldsOf, fieldsOf]
    simp only [Reported.result_bind, Reported.result_pure, ih, List.append_assoc]

/-- Lines in a row give their diagnostics in a row. -/
theorem events_fieldsOf_append (lines more : List FieldLine) :
    (scope.fieldsOf owner (lines ++ more)).events
      = (scope.fieldsOf owner lines).events ++ (scope.fieldsOf owner more).events := by
  induction lines with
  | nil => rfl
  | cons line lines ih =>
    rw [List.cons_append, fieldsOf, fieldsOf]
    simp only [Reported.events_bind, Reported.events_pure, List.append_nil, ih, List.append_assoc]

/-- A line alone gives what it gives among others. -/
theorem fieldsOf_singleton (line : FieldLine) :
    scope.fieldsOf owner [line] = scope.fieldsOfLine owner line := by
  simp [fieldsOf]

/-- A line with exported names is read under the first of them, and its tag is looked at only
if its type has a model. -/
theorem fieldsOfLine_of_exported {names others : List String} {first : String}
    (h : names.filter isExported = first :: others) (type : TypeExpr) (tag : Option String) :
    scope.fieldsOfLine owner ⟨names, type, tag⟩ = do
      match ← scope.typeOf first type with
      | none => return []
      | some fieldType =>
        let encoding ← scope.encodingOfTag first tag
        return (first :: others).map fun name => ⟨name, fieldType, encoding⟩ := by
  have hne : names.isEmpty = false := by
    cases names with
    | nil => cases h
    | cons => rfl
  rw [fieldsOfLine, hne, h]
  rfl

/-- Every field of a line has an exported name, and the type and the encoding that the line has
under the first of its names. -/
theorem exists_of_mem_fieldsOfLine {line : FieldLine} {field : Field}
    (h : field ∈ (scope.fieldsOfLine owner line).result) :
    isExported field.name ∧ ∃ first, (scope.typeOf first line.type).result = some field.type ∧
      (scope.encodingOfTag first line.tag).result = field.encoding := by
  obtain ⟨names, type, tag⟩ := line
  cases hfilter : names.filter isExported with
  | nil =>
    -- Without exported names there is no field.
    rw [fieldsOfLine, hfilter] at h
    split at h <;> cases h
  | cons first others =>
    rw [scope.fieldsOfLine_of_exported owner hfilter, Reported.result_bind] at h
    cases htype : (scope.typeOf first type).result with
    | none =>
      rw [htype] at h
      cases h
    | some fieldType =>
      rw [htype] at h
      -- All fields of the line share what is read under its first exported name.
      obtain ⟨name, hname, rfl⟩ := List.mem_map.mp h
      rw [← hfilter] at hname
      exact ⟨(List.mem_filter.mp hname).2, first, htype, rfl⟩

/-- A selector that has a type has the name of a package in front, and refers to what is selected
from the package. -/
theorem eq_reference_of_typeOfSelector {field name : String} {qualifier : TypeExpr} {t : FieldType}
    (h : (scope.typeOfSelector field qualifier name).result = some t) :
    ∃ localName, qualifier = .ident localName ∧
      t = .reference (scope.imports.pathOrSelf localName) name := by
  cases qualifier with
  | ident localName =>
    -- Whether or not the qualifier is reported, it gives a reference.
    simp only [typeOfSelector] at h
    split at h <;> exact ⟨localName, rfl, (Option.some.inj h).symm⟩
  | _ => cases h

/-- The encoding comes from the value that the text of the tag has under the tag key. -/
theorem result_encodingOf (field literal : String) :
    (scope.encodingOf field literal).result
      = (Tag.tagText literal).toOption.bind fun tag =>
          (Tag.find scope.tagKey.toList tag.toList).value?.bind Encoding.ofValue? := by
  unfold encodingOf
  cases Tag.tagText literal with
  | error cause => rfl
  | ok tag =>
    simp only [Except.toOption, Option.bind_some]
    cases Tag.find scope.tagKey.toList tag.toList <;> rfl

end ServiceTypes.Scope
