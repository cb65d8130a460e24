import ServiceTypes.Proofs.Model.Parts
import ServiceTypes.Proofs.Typing.Lines

/-!
# `ServiceTypes.Proofs.Typing.References`: where references come from

A type refers to other types by qualified names. The name in a reference
always stands in the expression that the type was read from, as an identifier
or behind a qualifier. The theorems:

* `Struct.mem_references`: the references inside a struct are those of its
  fields.
* `Scope.typeOf_refersWithin` / `Scope.fieldsOf_refersWithin`: the names of all
  references inside a type, or inside the fields of a struct, stand in the
  expression, or in the lines.
-/

set_option autoImplicit false

namespace ServiceTypes

/-! ### Names in expressions -/

namespace Source

mutual

/-- The names by which an expression refers to types, at every depth: its identifiers, and the
selected names. Qualifiers and map keys refer to no type. -/
def TypeExpr.names : TypeExpr → List String
  | .ident name | .selector _ name => [name]
  | .func | .interface | .chan => []
  | .pointer target => target.names
  | .array _ elem => elem.names
  | .map _ value => value.names
  | .struct lines => linesNames lines
  | .paren inner => inner.names
termination_by structural type => type

/-- The names by which the lines of a struct refer to types. -/
def linesNames : List FieldLine → List String
  | [] => []
  | line :: rest => lineNames line ++ linesNames rest
termination_by structural lines => lines

/-- The names by which a line refers to types. -/
def lineNames : FieldLine → List String
  | ⟨_, type, _⟩ => type.names
termination_by structural line => line

end

end Source

/-! ### References in types -/

namespace Model

/-- All references of a type, and of the types inside it, have one of the given names. -/
def FieldType.RefersWithin (names : List String) (t : FieldType) : Prop :=
  ∀ u ∈ t.types, ∀ target, u.target? = some target → target.name ∈ names

/-- The references inside a struct, at every depth. -/
def Struct.references (s : Struct) : List QualifiedName :=
  s.types.filterMap FieldType.target?

/-- A reference inside a struct stands in the type of one of its fields. -/
theorem Struct.mem_references {s : Struct} {target : QualifiedName} (h : target ∈ s.references) :
    ∃ field ∈ s.fields, ∃ t ∈ field.type.types, t.target? = some target := by
  obtain ⟨t, ht, htarget⟩ := List.mem_filterMap.mp h
  -- What is said of each type inside the struct is said of those inside its fields.
  have hfields : ∀ u ∈ s.types, u.target? = some target →
      ∃ field ∈ s.fields, ∃ t ∈ field.type.types, t.target? = some target := by
    rw [Struct.forall_types]
    intro field hfield u hu heq
    exact ⟨field, hfield, u, hu, heq⟩
  exact hfields t ht htarget

namespace FieldType

variable {names : List String}

/-- More names may be given than are referred to. -/
theorem RefersWithin.mono {t : FieldType} (h : t.RefersWithin names) {more : List String}
    (hsub : names ⊆ more) : t.RefersWithin more := by
  intro u hu target htarget
  exact hsub (h u hu target htarget)

/-- A type that is no reference itself refers to what the types inside it refer to. -/
theorem refersWithin_of_target?_eq_none {t : FieldType} (hself : t.target? = none)
    (hinside : ∀ u ∈ t.shape.types, ∀ target, u.target? = some target → target.name ∈ names) :
    t.RefersWithin names := by
  refine forall_types.mpr ⟨?_, hinside⟩
  intro target htarget
  rw [hself] at htarget
  cases htarget

/-- A reference refers to its own name. -/
theorem refersWithin_reference (package : String) {name : String} (h : name ∈ names) :
    (reference package name).RefersWithin names := by
  refine forall_types_reference.mpr ?_
  intro target htarget
  obtain rfl : QualifiedName.mk package name = target := Option.some.inj htarget
  exact h

/-- A pointer refers to what its target refers to. -/
theorem RefersWithin.pointer {t : FieldType} (h : t.RefersWithin names) :
    t.pointer.RefersWithin names := by
  obtain ⟨hself, hinside⟩ := forall_types.mp h
  exact forall_types.mpr ⟨hself, hinside⟩

end FieldType

end Model

/-! ### References and the expressions they are read from -/

namespace Scope

open Model (Field FieldType Struct)
open Source (FieldLine TypeExpr lineNames linesNames)

variable (scope : Scope)

/-- A name that is not built in refers to itself in the package of the file. -/
theorem typeOfName_refersWithin (name : String) :
    (scope.typeOfName name).RefersWithin [name] := by
  unfold typeOfName
  split
  case h_1 => exact FieldType.refersWithin_reference _ (List.mem_singleton_self name)
  case h_2 => exact FieldType.refersWithin_of_target?_eq_none rfl (List.forall_mem_nil _)

/-- A selector refers to the name behind its qualifier. -/
theorem typeOfSelector_refersWithin {field name : String} {qualifier : TypeExpr} {t : FieldType}
    (h : (scope.typeOfSelector field qualifier name).result = some t) :
    t.RefersWithin [name] := by
  obtain ⟨localName, -, rfl⟩ := scope.eq_reference_of_typeOfSelector h
  exact FieldType.refersWithin_reference _ (List.mem_singleton_self name)

mutual

/-- The references inside the type of an expression have names that stand in the expression. -/
theorem typeOf_refersWithin (field : String) {type : TypeExpr} {t : FieldType}
    (h : (scope.typeOf field type).result = some t) : t.RefersWithin type.names := by
  match type with
  | .ident name =>
    obtain rfl : scope.typeOfName name = t := Option.some.inj h
    exact scope.typeOfName_refersWithin name
  | .pointer target =>
    obtain ⟨u, hu, rfl⟩ := Option.map_eq_some_iff.mp h
    exact (typeOf_refersWithin field hu).pointer
  | .array _ elem =>
    obtain ⟨u, hu, rfl⟩ := Option.map_eq_some_iff.mp h
    have hinside := typeOf_refersWithin field hu
    exact FieldType.refersWithin_of_target?_eq_none rfl hinside
  | .map _ value =>
    obtain ⟨u, hu, rfl⟩ := Option.map_eq_some_iff.mp h
    have hinside := typeOf_refersWithin field hu
    exact FieldType.refersWithin_of_target?_eq_none rfl hinside
  | .selector _ name => exact scope.typeOfSelector_refersWithin h
  | .struct lines =>
    obtain rfl := Option.some.inj h
    -- A struct that is written in place is no reference itself, but its fields may hold some.
    have hfields := fieldsOf_refersWithin "" lines
    exact FieldType.refersWithin_of_target?_eq_none rfl (Struct.forall_types.mpr hfields)
  | .paren inner =>
    have hinner : (scope.typeOf field inner).result = some t := h
    have hinside : t.RefersWithin inner.names := typeOf_refersWithin field hinner
    exact hinside
  | .func | .interface | .chan => cases h
termination_by structural type

/-- The references inside the fields of a struct have names that stand in its lines. -/
theorem fieldsOf_refersWithin (owner : String) (lines : List FieldLine) :
    ∀ field ∈ (scope.fieldsOf owner lines).result,
      field.type.RefersWithin (linesNames lines) := by
  match lines with
  | [] => exact List.forall_mem_nil _
  | line :: rest =>
    have hline := fieldsOfLine_refersWithin owner line
    have hrest := fieldsOf_refersWithin owner rest
    rw [fieldsOf]
    refine List.forall_mem_append.mpr ⟨?_, ?_⟩
    · intro field hfield
      exact (hline field hfield).mono (List.subset_append_left _ _)
    · intro field hfield
      exact (hrest field hfield).mono (List.subset_append_right _ _)
termination_by structural lines

/-- The fields of a line refer to names that stand in the line. -/
theorem fieldsOfLine_refersWithin (owner : String) (line : FieldLine) :
    ∀ field ∈ (scope.fieldsOfLine owner line).result,
      field.type.RefersWithin (lineNames line) := by
  intro field hfield
  obtain ⟨-, first, htype, -⟩ := scope.exists_of_mem_fieldsOfLine owner hfield
  match line with
  | ⟨names, type, tag⟩ => exact typeOf_refersWithin first htype
termination_by structural line

end

end Scope

end ServiceTypes
