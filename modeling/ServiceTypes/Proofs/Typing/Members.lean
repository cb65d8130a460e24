import ServiceTypes.Proofs.Source.Trimming

/-!
# `ServiceTypes.Proofs.Typing.Members`: what the type of an expression depends on

A type expression is read from its exported members and from the imports
that its selectors name. Nothing else counts. The theorems:

* `fieldsOfLine_of_unexported`: a line of names that are not exported gives
  no field and no diagnostic, whatever its type and its tag are.
* `typeOf_trims` / `fieldsOf_trims`: expressions and lines that lose members
  that are not exported keep their types, fields and diagnostics.
* `typeOf_congr` / `fieldsOf_congr`: so do expressions and lines that are
  read in a scope with the same paths for their qualifiers.
-/

set_option autoImplicit false

namespace ServiceTypes

open Model (Field)
open Source (FieldLine LinesTrim TrimsNames TypeExpr isExported lineQualifiers linesQualifiers)

/-! ### Trimmed names -/

/-- What goes away without passing a test is not missed by it. -/
theorem Without.filter_eq {α : Type} {test : α → Bool} {xs ys : List α}
    (h : Without (fun x => test x = false) (· = ·) xs ys) : ys.filter test = xs.filter test := by
  induction h with
  | nil => rfl
  | keep head _ ih => rw [head, List.filter_cons, List.filter_cons, ih]
  | drop head _ ih => rw [ih, List.filter_cons_of_neg (by rw [head]; exact Bool.false_ne_true)]

/-- The exported names stay, in their order. -/
theorem Source.TrimsNames.filter_eq {names fewer : List String} (h : TrimsNames names fewer) :
    fewer.filter isExported = names.filter isExported := by
  cases h with
  | inl heq => rw [heq]
  | inr h => exact h.2.filter_eq

/-- No line becomes an embedded field. -/
theorem Source.TrimsNames.isEmpty_eq {names fewer : List String} (h : TrimsNames names fewer) :
    fewer.isEmpty = names.isEmpty := by
  have hfilter := h.filter_eq
  cases h with
  | inl heq => rw [heq]
  | inr h =>
    -- An exported name stands in both lists.
    obtain ⟨⟨name, hmem, hname⟩, -⟩ := h
    have hin : name ∈ names.filter isExported := List.mem_filter.mpr ⟨hmem, hname⟩
    have hnames : names ≠ [] := List.ne_nil_of_mem hmem
    have hfewer : fewer ≠ [] := by
      rw [← hfilter] at hin
      exact List.ne_nil_of_mem (List.mem_filter.mp hin).1
    rw [List.isEmpty_eq_false_iff.mpr hnames, List.isEmpty_eq_false_iff.mpr hfewer]

namespace Scope

variable (scope : Scope)

/-- A line of names that are not exported is passed over, with its type and its tag. -/
theorem fieldsOfLine_of_unexported (owner : String) {line : FieldLine} (hne : line.names ≠ [])
    (hline : ∀ name ∈ line.names, isExported name = false) :
    scope.fieldsOfLine owner line = pure [] := by
  obtain ⟨names, type, tag⟩ := line
  have hfilter : names.filter isExported = [] := by
    rw [List.filter_eq_nil_iff]
    intro name hmem
    rw [hline name hmem]
    exact Bool.false_ne_true
  rw [fieldsOfLine, List.isEmpty_eq_false_iff.mpr hne, hfilter]
  rfl

/-! ### Members that are not exported -/

/-- A key shows its form only, which stays as it is. -/
theorem keyOf_trims (field : String) {key key' : TypeExpr} (h : key.Trims key') :
    keyOf field key = keyOf field key' := by
  match h with
  | .refl _ => rfl
  | .paren h => rw [keyOf, keyOf, keyOf_trims field h]
  | .pointer _ | .map _ _ | .selector _ _ | .struct _ => rfl
  | .array length _ => cases length <;> rfl

/-- A qualifier is looked at only where it is a name, which stays as it is. -/
theorem typeOfSelector_trims (field name : String) {qualifier qualifier' : TypeExpr}
    (h : qualifier.Trims qualifier') :
    scope.typeOfSelector field qualifier name = scope.typeOfSelector field qualifier' name := by
  cases h <;> rfl

mutual

/-- The type of an expression does not depend on members that are not exported. -/
theorem typeOf_trims (field : String) {type type' : TypeExpr} (h : type.Trims type') :
    scope.typeOf field type = scope.typeOf field type' := by
  match h with
  | .refl _ => rfl
  | .pointer h => rw [typeOf, typeOf, typeOf_trims field h]
  | .array _ h => rw [typeOf, typeOf, typeOf_trims field h]
  | .map hkey hvalue =>
    rw [typeOf, typeOf, keyOf_trims field hkey, typeOf_trims field hvalue]
  | .selector h name => rw [typeOf, typeOf, typeOfSelector_trims scope field name h]
  | .struct h => rw [typeOf, typeOf, fieldsOf_trims "" h]
  | .paren h => rw [typeOf, typeOf, typeOf_trims field h]

/-- The fields of a struct type do not depend on members that are not exported. -/
theorem fieldsOf_trims (owner : String) {lines lines' : List FieldLine}
    (h : LinesTrim lines lines') : scope.fieldsOf owner lines = scope.fieldsOf owner lines' := by
  match h with
  | .refl _ => rfl
  | .keep tag hnames htype tail =>
    -- The type is read under the first exported name, which the line has kept.
    have hline : ∀ field, scope.typeOf field _ = scope.typeOf field _ :=
      fun field => typeOf_trims field htype
    rw [fieldsOf, fieldsOf, fieldsOf_trims owner tail, fieldsOfLine, fieldsOfLine,
      hnames.isEmpty_eq, hnames.filter_eq]
    simp only [hline]
  | .drop hne hline tail =>
    rw [fieldsOf, fieldsOfLine_of_unexported scope owner hne hline, fieldsOf_trims owner tail]
    simp

end

/-! ### Imports that are not referred to -/

/-- Two scopes with the same tag key and the same own package, in which the given local names
stand for the same paths. -/
structure AgreeOn (names : List String) (s t : Scope) : Prop where
  ownPath : s.imports.ownPath = t.imports.ownPath
  tagKey : s.tagKey = t.tagKey
  path : ∀ name ∈ names, s.imports.path? name = t.imports.path? name

/-- Scopes that agree on some names agree on fewer. -/
theorem AgreeOn.mono {names fewer : List String} {s t : Scope} (h : AgreeOn names s t)
    (hsub : fewer ⊆ names) : AgreeOn fewer s t where
  ownPath := h.ownPath
  tagKey := h.tagKey
  path name hname := h.path name (hsub hname)

/-- Of a scope the encoding of a tag depends on the tag key alone. -/
theorem AgreeOn.encodingOfTag {names : List String} {s t : Scope} (h : AgreeOn names s t)
    (field : String) (tag : Option String) :
    s.encodingOfTag field tag = t.encodingOfTag field tag := by
  cases tag with
  | none => rfl
  | some literal =>
    unfold Scope.encodingOfTag Scope.encodingOf
    rw [h.tagKey]

mutual

/-- The type of an expression depends on the imports only through its qualifiers. -/
theorem typeOf_congr {s t : Scope} (field : String) {type : TypeExpr}
    (h : AgreeOn type.qualifiers s t) : s.typeOf field type = t.typeOf field type := by
  match type with
  | .ident name => rw [typeOf, typeOf, typeOfName, typeOfName, h.ownPath]
  | .pointer target =>
    rw [TypeExpr.qualifiers] at h
    rw [typeOf, typeOf, typeOf_congr field h]
  | .array _ elem =>
    rw [TypeExpr.qualifiers] at h
    rw [typeOf, typeOf, typeOf_congr field h]
  | .map key value =>
    rw [TypeExpr.qualifiers] at h
    rw [typeOf, typeOf, typeOf_congr field (h.mono (List.subset_append_right _ _))]
  | .selector qualifier name =>
    rw [typeOf, typeOf]
    -- Only a plain name is looked up; any other qualifier is refused.
    cases qualifier with
    | ident localName =>
      have hpath := h.path localName (by rw [TypeExpr.qualifiers]; exact List.mem_singleton_self _)
      simp only [typeOfSelector, ImportTable.pathOrSelf, hpath]
    | _ => rfl
  | .struct lines =>
    rw [TypeExpr.qualifiers] at h
    rw [typeOf, typeOf, fieldsOf_congr "" h]
  | .paren inner =>
    rw [TypeExpr.qualifiers] at h
    rw [typeOf, typeOf, typeOf_congr field h]
  | .func | .interface | .chan => rw [typeOf, typeOf]
termination_by structural type

/-- The fields of lines depend on the imports only through their qualifiers. -/
theorem fieldsOf_congr {s t : Scope} (owner : String) {lines : List FieldLine}
    (h : AgreeOn (linesQualifiers lines) s t) :
    s.fieldsOf owner lines = t.fieldsOf owner lines := by
  match lines with
  | [] => rw [fieldsOf, fieldsOf]
  | line :: rest =>
    rw [linesQualifiers] at h
    rw [fieldsOf, fieldsOf, fieldsOfLine_congr owner (h.mono (List.subset_append_left _ _)),
      fieldsOf_congr owner (h.mono (List.subset_append_right _ _))]
termination_by structural lines

/-- The fields of a line depend on the imports only through its qualifiers. -/
theorem fieldsOfLine_congr {s t : Scope} (owner : String) {line : FieldLine}
    (h : AgreeOn (lineQualifiers line) s t) :
    s.fieldsOfLine owner line = t.fieldsOfLine owner line := by
  match line with
  | ⟨names, type, tag⟩ =>
    rw [lineQualifiers] at h
    have htype : ∀ field, s.typeOf field type = t.typeOf field type :=
      fun field => typeOf_congr field h
    rw [fieldsOfLine, fieldsOfLine]
    simp only [htype, h.encodingOfTag]
termination_by structural line

end

end Scope

end ServiceTypes
