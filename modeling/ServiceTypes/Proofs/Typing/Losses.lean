import Mathlib.Logic.Relation
import ServiceTypes.Proofs.Model.Parts
import ServiceTypes.Proofs.Typing.Lines
import ServiceTypes.Proofs.Typing.Members

/-!
# `ServiceTypes.Proofs.Typing.Losses`: no exported member is lost silently

A line of a struct gives a field for each of its exported names or none at all.
It gives none only if its type comes to something without a model, and this is
reported under its first exported name. The theorems:

* `exists_typeOf_eq_core`: an expression is read as what it comes to, behind the
  map keys on the way to it.
* `exists_typeOf_of_hasNoModel` / `exists_typeOf_of_not_hasNoModel`: so it has
  no type, and is reported once, exactly if that is without a model.
* `exists_comesTo_of_core_eq`: a struct type that an expression comes to is in its
  type, with the fields and the diagnostics of its lines.
* `lineTreated`: what a line gives.
* `fieldsOf_treated`: all lines are treated so, and the lines of the struct
  types inside them too, at every depth.
-/

set_option autoImplicit false

namespace ServiceTypes

open Model (FieldType Struct mem_typesOfFields typesOfFields)
open Source (FieldLine TypeExpr isExported)

/-! ### What an expression comes to -/

namespace Source

/-- What an expression comes to through pointers, parentheses, elements of arrays and values
of maps. -/
def TypeExpr.core : TypeExpr → TypeExpr
  | .pointer target => target.core
  | .array _ elem => elem.core
  | .map _ value => value.core
  | .paren inner => inner.core
  | .ident name => .ident name
  | .selector qualifier name => .selector qualifier name
  | .struct lines => .struct lines
  | .func => .func
  | .interface => .interface
  | .chan => .chan
termination_by structural type => type

/-- The expressions without a model: function, interface and channel types, and selectors
whose qualifier is no identifier. -/
inductive HasNoModel : TypeExpr → Prop where
  | func : HasNoModel .func
  | interface : HasNoModel .interface
  | chan : HasNoModel .chan
  | selector {qualifier : TypeExpr} {name : String} :
    (∀ localName, qualifier ≠ .ident localName) → HasNoModel (.selector qualifier name)

/-- An expression comes to something without a model, to a name, or to a struct type. -/
theorem TypeExpr.hasNoModel_core_or (type : TypeExpr) :
    HasNoModel type.core ∨ (∃ name, type.core = .ident name)
      ∨ (∃ localName name, type.core = .selector (.ident localName) name)
      ∨ ∃ lines, type.core = .struct lines := by
  match type with
  | .pointer target => exact target.hasNoModel_core_or
  | .array _ elem => exact elem.hasNoModel_core_or
  | .map _ value => exact value.hasNoModel_core_or
  | .paren inner => exact inner.hasNoModel_core_or
  | .ident name => exact .inr (.inl ⟨name, rfl⟩)
  | .selector qualifier name =>
    cases qualifier with
    | ident localName => exact .inr (.inr (.inl ⟨localName, name, rfl⟩))
    | _ => exact .inl (.selector fun _ => nofun)
  | .struct lines => exact .inr (.inr (.inr ⟨lines, rfl⟩))
  | .func => exact .inl .func
  | .interface => exact .inl .interface
  | .chan => exact .inl .chan

/-- A line with an exported name has a type that comes to a struct type with the given lines. -/
def WritesInPlace (lines inner : List FieldLine) : Prop :=
  ∃ line ∈ lines, (∃ name ∈ line.names, isExported name) ∧ line.type.core = .struct inner

end Source

open Source (HasNoModel WritesInPlace)

/-! ### Reports about a field -/

namespace Diagnostic

/-- A map key without a scalar is reported about the field. -/
def IsKeyReport (field : String) (e : Diagnostic) : Prop :=
  ∃ form, e = .unsupportedMapKey field form

/-- The loss of the field is reported. -/
def IsLoss (field : String) (e : Diagnostic) : Prop :=
  (∃ form, e = .unsupportedExpr field form) ∨ ∃ name, e = .unsupportedSelector field name

end Diagnostic

open Diagnostic (IsKeyReport IsLoss)

/-! ### What a type comes to -/

namespace Model.FieldType

/-- The struct is written in place in the type, and what is inside the struct is inside the
type. -/
structure ComesTo (t : FieldType) (s : Struct) : Prop where
  inline : ∃ u ∈ t.types, u.inline? = some s
  types : s.types ⊆ t.shape.types

/-- A struct that is written in place is in its own type. -/
theorem ComesTo.of_inline (s : Struct) : (ofShape (.inline s)).ComesTo s where
  inline := ⟨_, List.mem_cons_self, rfl⟩
  types := List.Subset.refl _

/-- A pointer keeps the shape. -/
theorem ComesTo.pointer {t : FieldType} {s : Struct} (h : t.ComesTo s) : t.pointer.ComesTo s where
  inline := by
    obtain ⟨shape, isPointer, keyword⟩ := t
    obtain ⟨u, hu, hinline⟩ := h.inline
    rw [FieldType.types, List.mem_cons] at hu
    cases hu with
    | inl heq =>
      rw [heq] at hinline
      exact ⟨_, List.mem_cons_self, hinline⟩
    | inr hshape => exact ⟨u, List.mem_cons_of_mem _ hshape, hinline⟩
  types := h.types

/-- A type whose shape holds all of another comes to what the other comes to. -/
theorem ComesTo.of_elem {t elem : FieldType} {s : Struct} (helem : t.shape.types = elem.types)
    (h : elem.ComesTo s) : t.ComesTo s where
  inline := by
    obtain ⟨shape, isPointer, keyword⟩ := t
    obtain ⟨u, hu, hinline⟩ := h.inline
    rw [← helem] at hu
    exact ⟨u, List.mem_cons_of_mem _ hu, hinline⟩
  types := by
    obtain ⟨shape, isPointer, keyword⟩ := elem
    rw [helem]
    exact List.subset_cons_of_subset _ h.types

end Model.FieldType

namespace Scope

/-! ### Expressions -/

/-- A map key reports nothing but itself. -/
theorem isKeyReport_of_mem_keyOf {field : String} {key : TypeExpr} {e : Diagnostic}
    (h : e ∈ (keyOf field key).events) : IsKeyReport field e := by
  match key with
  | .ident _ | .selector _ _ => cases h
  | .paren inner =>
    have hinner : e ∈ (keyOf field inner).events := h
    exact isKeyReport_of_mem_keyOf hinner
  | .pointer _ | .array _ _ | .map _ _ | .struct _ | .func | .interface | .chan =>
    exact ⟨_, List.mem_singleton.mp h⟩

/-- An expression is read as what it comes to, behind the map keys on the way to it. The type
is built around the one of what it comes to. The scope does not count for either. -/
theorem exists_typeOf_eq_core (field : String) (type : TypeExpr) :
    ∃ (keys : List Diagnostic) (build : FieldType → FieldType),
      (∀ e ∈ keys, IsKeyReport field e) ∧
      (∀ {t : FieldType} {s : Struct}, t.ComesTo s → (build t).ComesTo s) ∧
      ∀ scope : Scope, scope.typeOf field type
        = ⟨(scope.typeOf field type.core).result.map build,
            keys ++ (scope.typeOf field type.core).events⟩ := by
  match type with
  -- A pointer, an array and a map read what is inside first, and build their type around it.
  | .pointer target =>
    obtain ⟨keys, build, hkeys, hbuild, hread⟩ := exists_typeOf_eq_core field target
    refine ⟨keys, FieldType.pointer ∘ build, hkeys, fun h => (hbuild h).pointer, fun scope => ?_⟩
    rw [typeOf, hread]
    ext1 <;> simp [TypeExpr.core]
  | .array _ elem =>
    obtain ⟨keys, build, hkeys, hbuild, hread⟩ := exists_typeOf_eq_core field elem
    refine ⟨keys, FieldType.arrayOf ∘ build, hkeys, fun h => (hbuild h).of_elem rfl,
      fun scope => ?_⟩
    rw [typeOf, hread]
    ext1 <;> simp [TypeExpr.core]
  | .map key value =>
    obtain ⟨keys, build, hkeys, hbuild, hread⟩ := exists_typeOf_eq_core field value
    -- The report about the key of the map comes before those of its value.
    refine ⟨(keyOf field key).events ++ keys, FieldType.mapTo (keyOf field key).result ∘ build,
      ?_, fun h => (hbuild h).of_elem rfl, fun scope => ?_⟩
    · exact List.forall_mem_append.mpr ⟨fun e he => isKeyReport_of_mem_keyOf he, hkeys⟩
    · rw [typeOf, hread]
      ext1 <;> simp [TypeExpr.core]
  | .paren inner =>
    obtain ⟨keys, build, hkeys, hbuild, hread⟩ := exists_typeOf_eq_core field inner
    exact ⟨keys, build, hkeys, hbuild, hread⟩
  | .ident _ | .selector _ _ | .struct _ | .func | .interface | .chan =>
    refine ⟨[], id, List.forall_mem_nil _, id, fun scope => ?_⟩
    ext1 <;> simp [TypeExpr.core]
termination_by structural type

/-- What has no model is reported. -/
theorem exists_isLoss (field : String) {type : TypeExpr} (h : HasNoModel type) :
    ∃ loss, IsLoss field loss ∧ ∀ scope : Scope, scope.typeOf field type = ⟨none, [loss]⟩ := by
  cases h with
  | func => exact ⟨_, .inl ⟨.func, rfl⟩, fun _ => rfl⟩
  | interface => exact ⟨_, .inl ⟨.interface, rfl⟩, fun _ => rfl⟩
  | chan => exact ⟨_, .inl ⟨.chan, rfl⟩, fun _ => rfl⟩
  | @selector qualifier name hqualifier =>
    cases qualifier with
    | ident localName => exact absurd rfl (hqualifier localName)
    | _ => exact ⟨_, .inr ⟨name, rfl⟩, fun _ => rfl⟩

/-- An expression that comes to something without a model is reported once, behind the map
keys on the way to it. -/
theorem exists_typeOf_of_hasNoModel (field : String) {type : TypeExpr} (h : HasNoModel type.core) :
    ∃ keys loss, (∀ e ∈ keys, IsKeyReport field e) ∧ IsLoss field loss ∧
      ∀ scope : Scope, scope.typeOf field type = ⟨none, keys ++ [loss]⟩ := by
  obtain ⟨keys, build, hkeys, -, hread⟩ := exists_typeOf_eq_core field type
  obtain ⟨loss, hloss, hcore⟩ := exists_isLoss field h
  refine ⟨keys, loss, hkeys, hloss, fun scope => ?_⟩
  rw [hread, hcore]
  rfl

variable (scope : Scope)

/-- Every other expression has a type. -/
theorem exists_typeOf_of_not_hasNoModel (field : String) {type : TypeExpr}
    (h : ¬ HasNoModel type.core) : ∃ t, (scope.typeOf field type).result = some t := by
  have hcore : ∃ t, (scope.typeOf field type.core).result = some t := by
    -- Names, known or not, and struct types always have a type.
    rcases type.hasNoModel_core_or with
      hnone | ⟨name, hname⟩ | ⟨localName, name, hname⟩ | ⟨lines, hlines⟩
    · exact absurd hnone h
    · rw [hname]
      exact ⟨_, rfl⟩
    · rw [hname, typeOf]
      simp only [typeOfSelector]
      split <;> exact ⟨_, rfl⟩
    · rw [hlines]
      exact ⟨_, rfl⟩
  obtain ⟨keys, build, -, -, hread⟩ := exists_typeOf_eq_core field type
  obtain ⟨t, ht⟩ := hcore
  refine ⟨build t, ?_⟩
  rw [hread, ht]
  rfl

/-- A struct type that an expression comes to is in its type with the fields of its lines, and
their diagnostics are reported in a row. -/
theorem exists_comesTo_of_core_eq (field : String) {type : TypeExpr} {lines : List FieldLine}
    (h : type.core = .struct lines) :
    ∃ t, (scope.typeOf field type).result = some t ∧
      t.ComesTo (.anonymous (scope.fieldsOf "" lines).result) ∧
      (scope.fieldsOf "" lines).events <:+: (scope.typeOf field type).events := by
  obtain ⟨keys, build, -, hbuild, hread⟩ := exists_typeOf_eq_core field type
  have hstruct := hread scope
  rw [h, typeOf] at hstruct
  refine ⟨_, congrArg Reported.result hstruct, hbuild (.of_inline _), ?_⟩
  rw [hstruct, Reported.events_bind, ← List.append_assoc]
  exact List.infix_append _ _ _

/-! ### Lines -/

/-- The line gives a field for each of its exported names, in order. All have the type and the
encoding that the line has under the first of them. -/
def Keeps (owner : String) (line : FieldLine) (first : String) (others : List String) : Prop :=
  ∃ type, (scope.typeOf first line.type).result = some type ∧
    (scope.fieldsOf owner [line]).result = (first :: others).map fun name =>
      ⟨name, type, (scope.encodingOfTag first line.tag).result⟩

/-- The line gives no field. Its diagnostics are map keys and behind them the loss, all
reported about one field, and they do not depend on the tag or the tag key. -/
structure Loses (owner : String) (line : FieldLine) (field : String) : Prop where
  result : (scope.fieldsOf owner [line]).result = []
  events : ∃ keys loss, (scope.fieldsOf owner [line]).events = keys ++ [loss] ∧
    (∀ e ∈ keys, IsKeyReport field e) ∧ IsLoss field loss
  tag : ∀ tagKey tag, fieldsOf ⟨scope.imports, tagKey⟩ owner [{ line with tag }]
    = scope.fieldsOf owner [line]

/-- A line is all or nothing. -/
structure LineTreated (owner : String) (line : FieldLine) : Prop where
  embedded : line.names = [] → scope.fieldsOf owner [line] = ⟨[], [.embeddedField owner]⟩
  unexported : line.names ≠ [] → (∀ name ∈ line.names, isExported name = false) →
    scope.fieldsOf owner [line] = ⟨[], []⟩
  exported : ∀ first others, line.names.filter isExported = first :: others →
    scope.Keeps owner line first others ∨ scope.Loses owner line first
  /-- It is lost exactly if its type comes to something without a model. -/
  lost_iff : ∀ name ∈ line.names, isExported name →
    ((scope.fieldsOf owner [line]).result = [] ↔ HasNoModel line.type.core)

variable {scope} {owner : String}

/-- A line is lost if its type comes to something without a model. -/
theorem loses_of_hasNoModel {line : FieldLine} {first : String} {others : List String}
    (hnames : line.names.filter isExported = first :: others) (h : HasNoModel line.type.core) :
    scope.Loses owner line first := by
  obtain ⟨names, type, tag⟩ := line
  obtain ⟨keys, loss, hkeys, hloss, hread⟩ := exists_typeOf_of_hasNoModel first h
  -- No tag and no scope is named on the right.
  have hline : ∀ (scope : Scope) (tag : Option String),
      scope.fieldsOf owner [⟨names, type, tag⟩] = ⟨[], keys ++ [loss]⟩ := by
    intro scope tag
    rw [fieldsOf_singleton, fieldsOfLine_of_exported scope owner hnames, hread]
    ext1 <;> simp
  exact {
    result := by rw [hline]
    events := ⟨keys, loss, by rw [hline], hkeys, hloss⟩
    tag := fun tagKey tag' => by rw [hline, hline] }

/-- A line is kept if its type comes to anything else. -/
theorem keeps_of_not_hasNoModel {line : FieldLine} {first : String} {others : List String}
    (hnames : line.names.filter isExported = first :: others) (h : ¬ HasNoModel line.type.core) :
    scope.Keeps owner line first others := by
  obtain ⟨names, type, tag⟩ := line
  obtain ⟨t, ht⟩ := scope.exists_typeOf_of_not_hasNoModel first h
  refine ⟨t, ht, ?_⟩
  rw [fieldsOf_singleton, fieldsOfLine_of_exported scope owner hnames, Reported.result_bind, ht]
  rfl

/-- Where a name is exported there is a first one. -/
theorem exists_filter_eq_cons {names : List String} {name : String} (hmem : name ∈ names)
    (hname : isExported name) : ∃ first others, names.filter isExported = first :: others :=
  List.exists_cons_of_ne_nil (List.ne_nil_of_mem (List.mem_filter.mpr ⟨hmem, hname⟩))

variable (scope owner)

/-- Every line is all or nothing, in any scope and any struct. -/
theorem lineTreated (line : FieldLine) : scope.LineTreated owner line where
  embedded := by
    intro hnames
    obtain ⟨names, type, tag⟩ := line
    obtain rfl : names = [] := hnames
    rw [fieldsOf_singleton]
    rfl
  unexported := by
    intro hne hline
    rw [fieldsOf_singleton, fieldsOfLine_of_unexported scope owner hne hline]
    rfl
  exported := by
    intro first others hnames
    by_cases h : HasNoModel line.type.core
    · exact .inr (loses_of_hasNoModel hnames h)
    · exact .inl (keeps_of_not_hasNoModel hnames h)
  lost_iff := by
    intro name hmem hname
    obtain ⟨first, others, hnames⟩ := exists_filter_eq_cons hmem hname
    constructor
    · intro hlost
      refine Classical.byContradiction fun h => ?_
      -- A line that is kept has at least the field of its first name.
      obtain ⟨type, -, hkept⟩ := keeps_of_not_hasNoModel hnames h
      rw [hlost] at hkept
      cases hkept
    · intro h
      exact (loses_of_hasNoModel hnames h).result

/-! ### All lines, at every depth -/

/-- Lines give the fields and the diagnostics of each line in turn. -/
structure LinesTreated (lines : List FieldLine) : Prop where
  result : (scope.fieldsOf owner lines).result
    = lines.flatMap fun line => (scope.fieldsOf owner [line]).result
  events : (scope.fieldsOf owner lines).events
    = lines.flatMap fun line => (scope.fieldsOf owner [line]).events
  each : ∀ line ∈ lines, scope.LineTreated owner line

/-- The lines of a struct are treated one by one. -/
theorem linesTreated (lines : List FieldLine) : scope.LinesTreated owner lines where
  result := by
    induction lines with
    | nil => rfl
    | cons line rest ih => rw [← List.singleton_append, result_fieldsOf_append, ih]; rfl
  events := by
    induction lines with
    | nil => rfl
    | cons line rest ih => rw [← List.singleton_append, events_fieldsOf_append, ih]; rfl
  each line _ := scope.lineTreated owner line

/-- What is read from the lines inside is handed on by the outer lines: the struct, the types in
it, and the diagnostics in a row. -/
structure HandsOn (lines nested : List FieldLine) : Prop where
  struct : ∃ t ∈ typesOfFields (scope.fieldsOf owner lines).result,
    t.inline? = some (.anonymous (scope.fieldsOf "" nested).result)
  types : typesOfFields (scope.fieldsOf "" nested).result
    ⊆ typesOfFields (scope.fieldsOf owner lines).result
  events : (scope.fieldsOf "" nested).events <:+: (scope.fieldsOf owner lines).events

variable {scope owner}

/-- What is handed on is handed on further out. -/
theorem HandsOn.trans {lines inner nested : List FieldLine} (h : scope.HandsOn owner lines inner)
    (hinner : scope.HandsOn "" inner nested) : scope.HandsOn owner lines nested where
  struct := by
    obtain ⟨t, ht, hinline⟩ := hinner.struct
    exact ⟨t, h.types ht, hinline⟩
  types := List.Subset.trans hinner.types h.types
  events := hinner.events.trans h.events

/-- A line hands on the struct type that its own type comes to. -/
theorem handsOn_singleton {line : FieldLine} {inner : List FieldLine} {name : String}
    (hmem : name ∈ line.names) (hname : isExported name) (h : line.type.core = .struct inner) :
    scope.HandsOn owner [line] inner := by
  obtain ⟨names, type, tag⟩ := line
  obtain ⟨first, others, hnames⟩ := exists_filter_eq_cons hmem hname
  obtain ⟨t, ht, hcomes, hevents⟩ := scope.exists_comesTo_of_core_eq first h
  have hline := fieldsOfLine_of_exported scope owner hnames type tag
  -- The field of the first name has the type that comes to the struct.
  have htypes : t.types ⊆ typesOfFields (scope.fieldsOf owner [⟨names, type, tag⟩]).result := by
    rw [fieldsOf_singleton, hline, Reported.result_bind, ht]
    exact List.subset_append_left _ _
  refine ⟨?_, ?_, ?_⟩
  · obtain ⟨u, hu, hinline⟩ := hcomes.inline
    exact ⟨u, htypes hu, hinline⟩
  · refine List.Subset.trans hcomes.types (List.Subset.trans ?_ htypes)
    obtain ⟨shape, isPointer, keyword⟩ := t
    exact List.subset_cons_self _ _
  · rw [fieldsOf_singleton, hline, Reported.events_bind]
    exact hevents.trans (List.infix_append' [] _ _)

/-- What one line hands on, the struct hands on. -/
theorem HandsOn.of_mem {lines nested : List FieldLine} {line : FieldLine} (hline : line ∈ lines)
    (h : scope.HandsOn owner [line] nested) : scope.HandsOn owner lines nested := by
  -- The lines before and after it only add fields and diagnostics around its own.
  obtain ⟨before, after, hlines⟩ := List.append_of_mem hline
  obtain rfl : lines = before ++ [line] ++ after := by rw [hlines, List.append_cons]
  have hresult : (scope.fieldsOf owner [line]).result
      ⊆ (scope.fieldsOf owner (before ++ [line] ++ after)).result := by
    rw [result_fieldsOf_append, result_fieldsOf_append]
    exact List.subset_append_of_subset_left _ (List.subset_append_right _ _)
  have htypes : typesOfFields (scope.fieldsOf owner [line]).result
      ⊆ typesOfFields (scope.fieldsOf owner (before ++ [line] ++ after)).result := by
    intro t ht
    obtain ⟨field, hfield, hinside⟩ := mem_typesOfFields.mp ht
    exact mem_typesOfFields.mpr ⟨field, hresult hfield, hinside⟩
  refine ⟨?_, List.Subset.trans h.types htypes, h.events.trans ?_⟩
  · obtain ⟨t, ht, hinline⟩ := h.struct
    exact ⟨t, htypes ht, hinline⟩
  · rw [events_fieldsOf_append, events_fieldsOf_append]
    exact List.infix_append _ _ _

/-- Lines hand on each struct type that is written in place among them. -/
theorem handsOn_of_writesInPlace {lines inner : List FieldLine} (h : WritesInPlace lines inner) :
    scope.HandsOn owner lines inner := by
  obtain ⟨line, hline, ⟨name, hmem, hname⟩, hcore⟩ := h
  exact (handsOn_singleton hmem hname hcore).of_mem hline

/-- No exported member is lost silently: each line gives a field for each of its exported names,
or it is reported under the first of them. This is so for the lines of struct types inside, at
every depth, and what is read from those is handed on. -/
theorem fieldsOf_treated (scope : Scope) (owner : String) (lines : List FieldLine) :
    scope.LinesTreated owner lines ∧
      ∀ nested, Relation.TransGen WritesInPlace lines nested →
        scope.LinesTreated "" nested ∧ scope.HandsOn owner lines nested := by
  refine ⟨scope.linesTreated owner lines, fun nested hinside => ?_⟩
  refine ⟨scope.linesTreated "" nested, ?_⟩
  induction hinside with
  | single h => exact handsOn_of_writesInPlace h
  | tail _ h ih => exact ih.trans (handsOn_of_writesInPlace h)

/-- The key of the map does not cost the line its fields, but the channel does. -/
example (scope : Scope) : scope.fieldsOf "bank.Account"
    [⟨["id", "Limits", "Holds"], .map (.array none (.ident "byte")) .chan, none⟩]
      = ⟨[], [.unsupportedMapKey "Limits" .slice, .unsupportedExpr "Limits" .chan]⟩ := by
  rfl

end Scope

end ServiceTypes
