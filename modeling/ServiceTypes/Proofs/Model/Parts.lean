import ServiceTypes.Model.FieldType

/-!
# `ServiceTypes.Proofs.Model.Parts`: the types inside a type

A type holds other types as elements, and as the types of fields of structs
that are written in place. `FieldType.types` and `Struct.types` list them at
every depth; references are not followed. The theorems:

* `FieldType.forall_types` and its companions: what the types inside a type
  are that is built from others.
* `Struct.forall_types`: what the types inside a struct are.
* `Struct.mem_members`: a field inside a struct is its own, or one of a struct
  that is written in place somewhere inside.
-/

set_option autoImplicit false

namespace ServiceTypes.Model

mutual

/-- The type itself and the types inside it. -/
def FieldType.types : FieldType → List FieldType
  | ⟨shape, isPointer, keyword⟩ => ⟨shape, isPointer, keyword⟩ :: shape.types
termination_by structural t => t

/-- The types inside a shape. -/
def Shape.types : Shape → List FieldType
  | .scalar _ | .named _ => []
  | .inline struct => struct.types
  | .array elem => elem.types
  | .map _ elem => elem.types
termination_by structural s => s

/-- The types inside a struct. -/
def Struct.types : Struct → List FieldType
  | ⟨_, _, fields⟩ => typesOfFields fields
termination_by structural s => s

/-- The types inside fields. -/
def typesOfFields : List Field → List FieldType
  | [] => []
  | field :: rest => field.types ++ typesOfFields rest
termination_by structural fs => fs

/-- The types inside a field. -/
def Field.types : Field → List FieldType
  | ⟨_, type, _⟩ => type.types
termination_by structural f => f

end

/-- The fields of a struct, and those of the structs that are written in place inside it. -/
def Struct.members (s : Struct) : List Field :=
  (s :: s.types.filterMap FieldType.inline?).flatMap Struct.fields

/-- A type inside fields is inside the type of one of them. -/
theorem mem_typesOfFields {fields : List Field} {t : FieldType} :
    t ∈ typesOfFields fields ↔ ∃ field ∈ fields, t ∈ field.type.types := by
  induction fields with
  | nil => simp [typesOfFields]
  | cons field rest ih =>
    obtain ⟨name, type, encoding⟩ := field
    rw [typesOfFields, Field.types, List.mem_append, ih]
    simp

section

variable {P : FieldType → Prop}

/-- All types inside fields are such if all inside each of them are. -/
theorem forall_typesOfFields {fields : List Field} :
    (∀ t ∈ typesOfFields fields, P t) ↔ ∀ field ∈ fields, ∀ t ∈ field.type.types, P t := by
  induction fields with
  | nil => exact iff_of_true (List.forall_mem_nil _) (List.forall_mem_nil _)
  | cons field rest ih =>
    obtain ⟨name, type, encoding⟩ := field
    rw [typesOfFields, Field.types, List.forall_mem_append, ih, List.forall_mem_cons]

/-- The types inside a struct are those of its fields. -/
theorem Struct.forall_types {s : Struct} :
    (∀ t ∈ s.types, P t) ↔ ∀ field ∈ s.fields, ∀ t ∈ field.type.types, P t := by
  obtain ⟨name, package, fields⟩ := s
  rw [Struct.types]
  exact forall_typesOfFields

namespace FieldType

/-- A type has itself inside. -/
theorem forall_types {t : FieldType} :
    (∀ u ∈ t.types, P u) ↔ P t ∧ ∀ u ∈ t.shape.types, P u := by
  obtain ⟨shape, isPointer, keyword⟩ := t
  rw [types, List.forall_mem_cons]

/-- A reference has no type inside but itself. -/
theorem forall_types_reference {package name : String} :
    (∀ u ∈ (reference package name).types, P u) ↔ P (reference package name) := by
  rw [forall_types]
  exact and_iff_left (List.forall_mem_nil _)

/-- A scalar has no type inside but itself. -/
theorem forall_types_ofKeyword {kind : Scalar} {keyword : String} :
    (∀ u ∈ (ofKeyword kind keyword).types, P u) ↔ P (ofKeyword kind keyword) := by
  rw [forall_types]
  exact and_iff_left (List.forall_mem_nil _)

/-- An array has itself and the types of its elements inside. -/
theorem forall_types_arrayOf {elem : FieldType} :
    (∀ u ∈ elem.arrayOf.types, P u) ↔ P elem.arrayOf ∧ ∀ u ∈ elem.types, P u := by
  rw [forall_types]
  rfl

/-- A map has itself and the types of its elements inside. -/
theorem forall_types_mapTo {key : Scalar} {elem : FieldType} :
    (∀ u ∈ (mapTo key elem).types, P u) ↔ P (mapTo key elem) ∧ ∀ u ∈ elem.types, P u := by
  rw [forall_types]
  rfl

/-- A struct in place has itself and the types of its fields inside. -/
theorem forall_types_inline {s : Struct} :
    (∀ u ∈ (ofShape (.inline s)).types, P u)
      ↔ P (ofShape (.inline s)) ∧ ∀ u ∈ s.types, P u := by
  rw [forall_types]
  rfl

end FieldType

end

/-- A member of a struct is one of its fields, or one of a struct in place at some depth. -/
theorem Struct.mem_members {s : Struct} {field : Field} :
    field ∈ s.members ↔
      field ∈ s.fields ∨ ∃ t ∈ s.types, ∃ inner, t.inline? = some inner ∧ field ∈ inner.fields := by
  unfold Struct.members
  rw [List.flatMap_cons, List.mem_append, List.mem_flatMap]
  simp only [List.mem_filterMap]
  refine or_congr_right ⟨?_, ?_⟩
  · rintro ⟨inner, ⟨t, ht, hinner⟩, hfield⟩
    exact ⟨t, ht, inner, hinner, hfield⟩
  · rintro ⟨t, ht, inner, hinner, hfield⟩
    exact ⟨inner, ⟨t, ht, hinner⟩, hfield⟩

end ServiceTypes.Model
