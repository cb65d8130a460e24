import ServiceTypes.Proofs.Typing.Losses

/-!
# `ServiceTypes.Proofs.Typing.MapKeys`: the keys of the maps in a type

An expression may go through several maps to what it comes to. Each of them is
in its type, with the scalar of its key, whatever the key is. A key that is no
identifier has no scalar, and `Diagnostic.unsupportedMapKey` is there to say so.
A selector is passed over all the same: it loses its scalar without a report, even
if its qualifier is no identifier. The theorems:

* `keyReports_eq_dueReports_iff`: the reports that are made are those that are due
  exactly if no key is a selector.
* `keyOf_eq_bare`: how a key is read, without the parentheses around it.
* `events_typeOf_eq`: the keys are reported one by one, from the outside in.
* `mapKinds_of_typeOf`: each map is in the type with the scalar of its key.
* `mapKeysRead`: all of this in one statement.
* `totalsType_key_unreported`: a selector that is not reported.
-/

set_option autoImplicit false

namespace ServiceTypes

open Model (FieldType Scalar)
open Source (TypeExpr)

/-! ### Maps and their keys -/

namespace Source

/-- An expression without the parentheses around it. -/
def TypeExpr.bare : TypeExpr → TypeExpr
  | .paren inner => inner.bare
  | type => type

/-- The keys of the maps on the way to what an expression comes to, from the outside in and
without the parentheses around them. -/
def TypeExpr.mapKeys : TypeExpr → List TypeExpr
  | .pointer target => target.mapKeys
  | .array _ elem => elem.mapKeys
  | .map key value => key.bare :: value.mapKeys
  | .paren inner => inner.mapKeys
  | .ident _ | .selector _ _ | .struct _ | .func | .interface | .chan => []
termination_by structural type => type

/-- An expression is a name, with or without a qualifier. -/
def TypeExpr.isName : TypeExpr → Bool
  | .ident _ | .selector _ _ => true
  | _ => false

/-- An expression is a name without a qualifier. -/
def TypeExpr.isIdent : TypeExpr → Bool
  | .ident _ => true
  | _ => false

/-- An expression is a name that is selected from something, be it an identifier or not. -/
def TypeExpr.isSelector : TypeExpr → Bool
  | .selector _ _ => true
  | _ => false

/-- What is no name is no identifier and no selector. -/
theorem TypeExpr.not_isName_eq (type : TypeExpr) :
    (!type.isName) = (!type.isSelector && !type.isIdent) := by
  cases type <;> rfl

end Source

namespace Model

/-- The scalar that a map key stands for. Only a name without a qualifier may stand for one. -/
def Scalar.ofKey : TypeExpr → Scalar
  | .ident name => .ofKeyword name
  | _ => .none

mutual

/-- The scalars of the keys of the maps that a type goes through, from the outside in. -/
def FieldType.mapKinds : FieldType → List Scalar
  | ⟨shape, _, _⟩ => shape.mapKinds
termination_by structural t => t

/-- The scalars of the keys of the maps that a shape goes through. -/
def Shape.mapKinds : Shape → List Scalar
  | .array elem => elem.mapKinds
  | .map key elem => key :: elem.mapKinds
  | .scalar _ | .named _ | .inline _ => []
termination_by structural s => s

end

/-- A pointer goes through the maps of its target. -/
theorem FieldType.mapKinds_pointer (t : FieldType) : t.pointer.mapKinds = t.mapKinds := by
  cases t
  rfl

end Model

namespace Scope

/-- The reports about keys under the name of a field: one for each key that is no name. -/
def keyReports (field : String) (keys : List TypeExpr) : List Diagnostic :=
  (keys.filter fun key => !key.isName).map fun key => .unsupportedMapKey field key.form

/-- The reports that are due about keys under the name of a field: one for each key that is no
identifier. -/
def dueReports (field : String) (keys : List TypeExpr) : List Diagnostic :=
  (keys.filter fun key => !key.isIdent).map fun key => .unsupportedMapKey field key.form

/-- The reports about two groups of keys come one group after the other. -/
theorem keyReports_append (field : String) (keys more : List TypeExpr) :
    keyReports field (keys ++ more) = keyReports field keys ++ keyReports field more := by
  simp only [keyReports, List.filter_append, List.map_append]

/-- All reports that are due are made if no key is a selector, and only then. -/
theorem keyReports_eq_dueReports_iff (field : String) (keys : List TypeExpr) :
    keyReports field keys = dueReports field keys ↔ ∀ key ∈ keys, key.isSelector = false := by
  -- The keys that are reported are those that should be, less the selectors.
  have hmade : keyReports field keys
      = ((keys.filter fun key => !key.isIdent).filter fun key => !key.isSelector).map
          fun key => .unsupportedMapKey field key.form := by
    simp only [keyReports, TypeExpr.not_isName_eq, List.filter_filter]
  constructor
  · intro h key hkey
    have hlength := congrArg List.length h
    rw [hmade, dueReports, List.length_map, List.length_map,
      List.length_filter_eq_length_iff] at hlength
    cases key with
    | selector qualifier name =>
      have hdue : TypeExpr.selector qualifier name ∈ keys.filter fun key => !key.isIdent :=
        List.mem_filter.mpr ⟨hkey, rfl⟩
      exact absurd (hlength _ hdue) Bool.false_ne_true
    | _ => rfl
  · intro h
    rw [hmade, dueReports, List.filter_eq_self.mpr]
    intro key hkey
    rw [h key (List.mem_of_mem_filter hkey)]
    rfl

/-! ### Reading them -/

/-- A key is read without the parentheses around it. -/
theorem keyOf_eq_bare (field : String) (key : TypeExpr) :
    keyOf field key = ⟨Scalar.ofKey key.bare, keyReports field [key.bare]⟩ := by
  match key with
  | .paren inner => rw [keyOf, keyOf_eq_bare field inner, TypeExpr.bare]
  | .ident _ | .selector _ _ => rfl
  | .pointer _ | .array _ _ | .map _ _ | .struct _ | .func | .interface | .chan => rfl

variable (scope : Scope) (field : String)

/-- The keys of the maps on the way are reported from the outside in, and behind them what is
reported about what the expression comes to. -/
theorem events_typeOf_eq (type : TypeExpr) :
    (scope.typeOf field type).events
      = keyReports field type.mapKeys ++ (scope.typeOf field type.core).events := by
  match type with
  | .pointer target =>
    have htarget := events_typeOf_eq target
    simpa [typeOf, TypeExpr.mapKeys, TypeExpr.core] using htarget
  | .array _ elem =>
    have helem := events_typeOf_eq elem
    simpa [typeOf, TypeExpr.mapKeys, TypeExpr.core] using helem
  | .map key value =>
    -- The key of the map itself comes first.
    have hvalue := events_typeOf_eq value
    have hkeys := keyReports_append field [key.bare] value.mapKeys
    rw [List.singleton_append] at hkeys
    simp [typeOf, keyOf_eq_bare, TypeExpr.mapKeys, TypeExpr.core, hkeys, hvalue]
  | .paren inner =>
    have hinner := events_typeOf_eq inner
    simpa [typeOf, TypeExpr.mapKeys, TypeExpr.core] using hinner
  | .ident _ | .selector _ _ | .struct _ | .func | .interface | .chan => rfl
termination_by structural type

/-- What an expression comes to goes through no map, so that a key that is reported there is one
of a member of a struct type that is written in place. -/
theorem mem_fieldsOf_of_mem_core {type : TypeExpr} {name : String} {form : Source.Form}
    (h : .unsupportedMapKey name form ∈ (scope.typeOf field type.core).events) :
    ∃ lines, type.core = .struct lines ∧
      .unsupportedMapKey name form ∈ (scope.fieldsOf "" lines).events := by
  rcases type.hasNoModel_core_or with
    hnone | ⟨own, hname⟩ | ⟨localName, own, hname⟩ | ⟨lines, hlines⟩
  · obtain ⟨loss, hloss, hread⟩ := exists_isLoss field hnone
    rw [hread, List.mem_singleton] at h
    rcases hloss with ⟨other, rfl⟩ | ⟨other, rfl⟩ <;> cases h
  · rw [hname, typeOf] at h
    cases h
  · rw [hname, typeOf] at h
    simp only [typeOfSelector] at h
    split at h <;> simp at h
  · rw [hlines, typeOf] at h
    exact ⟨lines, hlines, by simpa using h⟩

/-- Each map is in the type with the scalar of its key. -/
theorem mapKinds_of_typeOf {type : TypeExpr} {t : FieldType}
    (h : (scope.typeOf field type).result = some t) :
    t.mapKinds = type.mapKeys.map Scalar.ofKey := by
  match type with
  | .pointer target =>
    obtain ⟨u, hu, rfl⟩ := Option.map_eq_some_iff.mp h
    have htarget := mapKinds_of_typeOf hu
    rw [FieldType.mapKinds_pointer]
    exact htarget
  | .array _ elem =>
    obtain ⟨u, hu, rfl⟩ := Option.map_eq_some_iff.mp h
    have helem := mapKinds_of_typeOf hu
    exact helem
  | .map key value =>
    obtain ⟨u, hu, rfl⟩ := Option.map_eq_some_iff.mp h
    have hvalue := mapKinds_of_typeOf hu
    -- The key of the map itself comes first, and those of its values behind it.
    rw [keyOf_eq_bare, TypeExpr.mapKeys, List.map_cons, ← hvalue]
    rfl
  | .paren inner =>
    have hread : (scope.typeOf field inner).result = some t := h
    have hinner := mapKinds_of_typeOf hread
    exact hinner
  | .ident name =>
    obtain rfl : scope.typeOfName name = t := Option.some.inj h
    unfold typeOfName
    split <;> rfl
  | .selector qualifier name =>
    obtain ⟨localName, -, rfl⟩ := scope.eq_reference_of_typeOfSelector h
    rfl
  | .struct lines =>
    obtain rfl := Option.some.inj h
    rfl
  | .func | .interface | .chan => cases h
termination_by structural type

/-- How the maps are read that an expression goes through. -/
structure MapKeysRead (type : TypeExpr) : Prop where
  /-- A report is due for each key that is no identifier, under the name of the field and by the
  form of the key, in the order of the maps and before all others. These reports are made exactly
  if no key is a selector. -/
  due : (scope.typeOf field type).events
      = dueReports field type.mapKeys ++ (scope.typeOf field type.core).events
    ↔ ∀ key ∈ type.mapKeys, key.isSelector = false
  /-- In any case each key that is neither an identifier nor a selector is reported so. -/
  reported : (scope.typeOf field type).events
    = keyReports field type.mapKeys ++ (scope.typeOf field type.core).events
  /-- Behind them no key is reported but those of members of a struct type that is written in
  place. -/
  others : ∀ name form, .unsupportedMapKey name form ∈ (scope.typeOf field type.core).events →
    ∃ lines, type.core = .struct lines ∧
      .unsupportedMapKey name form ∈ (scope.fieldsOf "" lines).events
  /-- Each map is in the type with the scalar of its key. -/
  kinds : ∀ t, (scope.typeOf field type).result = some t →
    t.mapKinds = type.mapKeys.map Scalar.ofKey
  /-- A map to the expression is kept if the expression has a type, whatever its key is. -/
  kept : ∀ key t, (scope.typeOf field type).result = some t →
    (scope.typeOf field (.map key type)).result = some (.mapTo (Scalar.ofKey key.bare) t)

/-- All maps that an expression goes through are kept, with the scalars of their keys. A key that
is no identifier has none, and a report about it is due. All these reports are made, and no others,
exactly if none of the keys is a selector: a selector loses its scalar in silence. -/
theorem mapKeysRead (scope : Scope) (field : String) (type : TypeExpr) :
    scope.MapKeysRead field type where
  due := by
    rw [scope.events_typeOf_eq field type, List.append_left_inj, keyReports_eq_dueReports_iff]
  reported := scope.events_typeOf_eq field type
  others _ _ h := scope.mem_fieldsOf_of_mem_core field h
  kinds _ h := scope.mapKinds_of_typeOf field h
  kept key t h := by
    show (scope.typeOf field type).result.map (FieldType.mapTo (keyOf field key).result) = _
    rw [h, keyOf_eq_bare]
    rfl

/-- A map from the months of another package. -/
def totalsType : TypeExpr := .map (.selector (.ident "time") "Month") (.ident "int")

/-- The key is no identifier and has no scalar, and still the report that is due about it is not
made. -/
theorem totalsType_key_unreported :
    let scope : Scope := ⟨ImportTable.ofImports [⟨none, "time"⟩] "bank", "json"⟩
    (∀ key ∈ totalsType.mapKeys, ∀ name, key ≠ .ident name) ∧
      scope.typeOf "Totals" totalsType
        = ⟨some (.mapTo .none (.ofKeyword .number "int")), []⟩ ∧
      (scope.typeOf "Totals" totalsType).events ≠ dueReports "Totals" totalsType.mapKeys := by
  intro scope
  have hread : scope.typeOf "Totals" totalsType
      = ⟨some (.mapTo .none (.ofKeyword .number "int")), []⟩ := rfl
  refine ⟨?_, hread, ?_⟩
  · simp [totalsType, TypeExpr.mapKeys, TypeExpr.bare]
  · rw [hread]
    exact (List.cons_ne_nil _ _).symm

/-- The keys of three maps around a channel, the second of which is in parentheses. The third is
passed over, although its qualifier is no identifier. -/
example (scope : Scope) :
    (scope.typeOf "Feeds" (.map (.ident "Topic") (.pointer (.map (.paren (.array none
      (.ident "byte"))) (.map (.selector (.pointer (.ident "time")) "Month") .chan))))).events
      = [.unsupportedMapKey "Feeds" .slice, .unsupportedExpr "Feeds" .chan] := by
  rfl

end Scope

end ServiceTypes
