import ServiceTypes.Proofs.Typing.Lines
import ServiceTypes.Proofs.Typing.Members

/-!
# `ServiceTypes.Proofs.Typing.Naming`: what the name of a field counts for

The type and the tag of a line are read once, under the first of its exported
names, and all its fields share what was read. A line for each name gives the
same fields, because the name of a field counts for nothing but the reports
about it. The theorems:

* `result_typeOf_congr`: the type of an expression is the same under all names.
* `events_typeOf`: so are its diagnostics, but for the name in the reports that
  are not about a struct type inside.
* `result_fieldsOfLine`: what a line gives, without regard to the name that it
  is read under.
* `fieldsOf_names`: a line with several names gives what a line for each of them
  gives.
-/

set_option autoImplicit false

namespace ServiceTypes

open Source (FieldLine Form TypeExpr isExported)

/-! ### Reports without the name -/

/-- What a report about a field says besides the name of the field. -/
inductive Remark where
  | unsupportedExpr (form : Form)
  | unsupportedSelector (name : String)
  | unsupportedMapKey (form : Form)
  | unknownImport (localName : String)
  /-- An event about the members of a struct type inside, which have names of their own. -/
  | inside (event : Diagnostic)

/-- The report about a field of a name. -/
def Remark.about (field : String) : Remark → Diagnostic
  | .unsupportedExpr form => .unsupportedExpr field form
  | .unsupportedSelector name => .unsupportedSelector field name
  | .unsupportedMapKey form => .unsupportedMapKey field form
  | .unknownImport localName => .unknownImport field localName
  | .inside event => event

/-- Events from inside carry names of their own, and take on no other. -/
theorem map_about_inside (field : String) (events : List Diagnostic) :
    (events.map Remark.inside).map (Remark.about field) = events := by
  rw [List.map_map]
  exact List.map_id events

/-- What there is to say about a map key. -/
def keyRemarks : TypeExpr → List Remark
  | .ident _ | .selector _ _ => []
  | .paren inner => keyRemarks inner
  | key => [.unsupportedMapKey key.form]

namespace Scope

/-- What there is to say about an expression, whatever the name of its field is. -/
def remarks (scope : Scope) : TypeExpr → List Remark
  | .ident _ => []
  | .pointer target => scope.remarks target
  | .array _ elem => scope.remarks elem
  | .map key value => keyRemarks key ++ scope.remarks value
  | .selector (.ident localName) _ =>
    if (scope.imports.path? localName).isNone then [.unknownImport localName] else []
  | .selector _ name => [.unsupportedSelector name]
  | .struct lines => (scope.fieldsOf "" lines).events.map .inside
  | .paren inner => scope.remarks inner
  | .func => [.unsupportedExpr .func]
  | .interface => [.unsupportedExpr .interface]
  | .chan => [.unsupportedExpr .chan]
termination_by structural type => type

/-! ### Expressions -/

/-- A map key is read under a name as it is under none, with the name in the report. -/
theorem keyOf_eq (field : String) (key : TypeExpr) :
    keyOf field key = ⟨(keyOf "" key).result, (keyRemarks key).map (Remark.about field)⟩ := by
  match key with
  | .ident _ | .selector _ _ => rfl
  | .paren inner =>
    rw [keyOf, keyRemarks, keyOf, keyOf_eq field inner]
  | .pointer _ | .array _ _ | .map _ _ | .struct _ | .func | .interface | .chan => rfl

variable (scope : Scope)

/-- A selector is read under a name as it is under none, with the name in the report. -/
theorem typeOfSelector_eq (field : String) (qualifier : TypeExpr) (name : String) :
    scope.typeOfSelector field qualifier name
      = ⟨(scope.typeOfSelector "" qualifier name).result,
          (scope.remarks (.selector qualifier name)).map (Remark.about field)⟩ := by
  cases qualifier with
  | ident localName =>
    simp only [typeOfSelector, remarks]
    split <;> rfl
  | _ => rfl

/-- An expression is read under a name as it is under none, with the name in the reports. -/
theorem typeOf_eq (field : String) (type : TypeExpr) :
    scope.typeOf field type
      = ⟨(scope.typeOf "" type).result, (scope.remarks type).map (Remark.about field)⟩ := by
  match type with
  | .ident _ => rfl
  | .paren inner =>
    rw [typeOf, typeOf_eq field inner, remarks, typeOf]
  | .pointer target | .array _ target =>
    rw [typeOf, typeOf_eq field target, remarks, typeOf]
    ext1 <;> simp
  | .map key value =>
    rw [typeOf, keyOf_eq, typeOf_eq field value, remarks, typeOf]
    ext1 <;> simp
  | .selector qualifier name =>
    rw [typeOf, typeOf, typeOfSelector_eq]
  | .struct lines =>
    -- The lines inside are read without the name.
    rw [typeOf, remarks, map_about_inside, typeOf]
    ext1 <;> simp
  | .func | .interface | .chan => rfl
termination_by structural type

/-- The name of a field does not count for its type. -/
theorem result_typeOf_congr (field other : String) (type : TypeExpr) :
    (scope.typeOf field type).result = (scope.typeOf other type).result := by
  rw [typeOf_eq, scope.typeOf_eq other]

/-- The reports about an expression are its remarks, with the name put in. -/
theorem events_typeOf (field : String) (type : TypeExpr) :
    (scope.typeOf field type).events = (scope.remarks type).map (Remark.about field) := by
  rw [typeOf_eq]

/-! ### Lines -/

/-- The name of a field does not count for its encoding. -/
theorem result_encodingOfTag_congr (field other : String) (tag : Option String) :
    (scope.encodingOfTag field tag).result = (scope.encodingOfTag other tag).result := by
  cases tag with
  | none => rfl
  | some literal =>
    rw [encodingOfTag, encodingOfTag, result_encodingOf, result_encodingOf]

variable (owner : String)

/-- A line gives a field for each of its exported names if its type has a model. What they share
is what it has under any name. -/
theorem result_fieldsOfLine (names : List String) (type : TypeExpr) (tag : Option String)
    (field : String) :
    (scope.fieldsOfLine owner ⟨names, type, tag⟩).result
      = match (scope.typeOf field type).result with
        | none => []
        | some fieldType => (names.filter isExported).map fun name =>
            ⟨name, fieldType, (scope.encodingOfTag field tag).result⟩ := by
  cases hnames : names.filter isExported with
  | nil =>
    -- No name is exported, and the type is not looked at.
    have hnone : (scope.fieldsOfLine owner ⟨names, type, tag⟩).result = [] := by
      rw [fieldsOfLine, hnames]
      split <;> rfl
    rw [hnone]
    cases (scope.typeOf field type).result <;> rfl
  | cons first others =>
    rw [scope.fieldsOfLine_of_exported owner hnames, Reported.result_bind,
      scope.result_typeOf_congr first field, scope.result_encodingOfTag_congr field first]
    cases (scope.typeOf field type).result <;> rfl

/-- Lines of one name each give the fields of a line of all the names. -/
theorem result_fieldsOf_names (names : List String) (type : TypeExpr) (tag : Option String) :
    (scope.fieldsOf owner (names.map fun name => ⟨[name], type, tag⟩)).result
      = (scope.fieldsOfLine owner ⟨names, type, tag⟩).result := by
  induction names with
  | nil => rfl
  | cons name names ih =>
    rw [List.map_cons, fieldsOf, Reported.result_bind, Reported.result_bind, Reported.result_pure,
      ih, scope.result_fieldsOfLine owner [name] type tag "",
      scope.result_fieldsOfLine owner names type tag "",
      scope.result_fieldsOfLine owner (name :: names) type tag ""]
    cases (scope.typeOf "" type).result with
    | none => rfl
    | some fieldType =>
      rw [← List.map_append, ← List.filter_append]
      rfl

/-- A line is reported under the first of its exported names, and not at all without one. -/
theorem events_fieldsOf_names {names : List String} (hne : names ≠ []) (type : TypeExpr)
    (tag : Option String) :
    (scope.fieldsOf owner [⟨names, type, tag⟩]).events
      = match names.find? isExported with
        | some first => (scope.fieldsOf owner [⟨[first], type, tag⟩]).events
        | none => [] := by
  rw [← List.head?_filter]
  cases hnames : names.filter isExported with
  | nil =>
    have hline : ∀ name ∈ names, isExported name = false := by
      intro name hmem
      exact eq_false_of_ne_true (List.filter_eq_nil_iff.mp hnames name hmem)
    rw [fieldsOf_singleton, fieldsOfLine_of_unexported scope owner hne hline]
    rfl
  | cons first others =>
    have hfirst : [first].filter isExported = [first] := by
      have hmem : first ∈ names.filter isExported := by
        rw [hnames]
        exact List.mem_cons_self
      exact List.filter_cons_of_pos (List.mem_filter.mp hmem).2
    show _ = (scope.fieldsOf owner [⟨[first], type, tag⟩]).events
    rw [fieldsOf_singleton, fieldsOf_singleton, scope.fieldsOfLine_of_exported owner hnames,
      scope.fieldsOfLine_of_exported owner hfirst]
    -- The names behind the first one are in the fields, but in no report.
    simp only [Reported.events_bind]
    cases (scope.typeOf first type).result <;> rfl

/-- A line with several names gives the fields of a line for each of them, and is reported as the
line of its first exported name. The name of a field does not count for its type, and in the
reports it stands only where they are about the field itself. -/
theorem fieldsOf_names {names : List String} (hne : names ≠ []) (type : TypeExpr)
    (tag : Option String) :
    (scope.fieldsOf owner [⟨names, type, tag⟩]).result
        = (scope.fieldsOf owner (names.map fun name => ⟨[name], type, tag⟩)).result ∧
      (scope.fieldsOf owner [⟨names, type, tag⟩]).events
        = (match names.find? isExported with
          | some first => (scope.fieldsOf owner [⟨[first], type, tag⟩]).events
          | none => []) ∧
      (∀ field other, (scope.typeOf field type).result = (scope.typeOf other type).result) ∧
      ∀ field,
        (scope.typeOf field type).events = (scope.remarks type).map (Remark.about field) := by
  refine ⟨?_, scope.events_fieldsOf_names owner hne type tag,
    fun field other => scope.result_typeOf_congr field other type,
    fun field => scope.events_typeOf field type⟩
  rw [fieldsOf_singleton, result_fieldsOf_names]

/-- A map whose key is reported, to a struct type with a member that is reported as well. -/
def rangesType : TypeExpr :=
  .map (.array none (.ident "byte")) (.struct [⟨["Min"], .selector (.ident "time") "Time", none⟩])

/-- The member inside keeps its name, even where it is the name of a field outside. -/
theorem fieldsOf_names_ranges :
    let scope : Scope := ⟨ImportTable.ofImports [] "bank", "json"⟩
    let tag := some "`json:\"r,omitempty\"`"
    let line names : FieldLine := ⟨names, rangesType, tag⟩
    ["id", "Min", "Max"] ≠ [] ∧
      (scope.fieldsOf "bank.Limits" [line ["id", "Min", "Max"]]).result
        = (scope.fieldsOf "bank.Limits" [line ["id"], line ["Min"], line ["Max"]]).result ∧
      (scope.fieldsOf "bank.Limits" [line ["id", "Min", "Max"]]).events
        = (scope.fieldsOf "bank.Limits" [line ["Min"]]).events ∧
      (scope.typeOf "Max" rangesType).events
        = [.unsupportedMapKey "Max" .slice, .unknownImport "Min" "time"] := by
  intro scope tag line
  have hne : ["id", "Min", "Max"] ≠ [] := List.cons_ne_nil _ _
  obtain ⟨hresult, hevents, -, hname⟩ :=
    scope.fieldsOf_names "bank.Limits" hne rangesType tag
  -- The reports are made under the first exported name only.
  have hfirst : ["id", "Min", "Max"].find? isExported = some "Min" := by decide
  rw [hfirst] at hevents
  exact ⟨hne, hresult, hevents, hname "Max"⟩

end Scope

end ServiceTypes
