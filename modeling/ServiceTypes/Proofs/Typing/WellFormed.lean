import ServiceTypes.Proofs.Model.Parts
import ServiceTypes.Proofs.Tag.Encoding
import ServiceTypes.Proofs.Typing.Lines

/-!
# `ServiceTypes.Proofs.Typing.WellFormed`: well-formed types and fields

Whatever expression a type is read from, it is built from well-formed parts:
keywords stand at scalars and nowhere else, structs that are written in place
have no name, and their fields are exported. The theorems:

* `FieldType.wellFormed_pointer` and its companions: each way of building a
  type gives a well-formed one.
* `Scope.typeOf_wellFormed` / `Scope.fieldsOf_wellFormed`: all types that are
  read, and all fields, at every depth.
-/

set_option autoImplicit false

namespace ServiceTypes

open Source (FieldLine TypeExpr isExported)

namespace Model

/-! ### Well-formedness -/

/-- An exported field with a well-formed encoding. -/
structure Field.WellFormed (field : Field) : Prop where
  exported : isExported field.name
  encoding : ∀ a ∈ field.encoding, a.WellFormed

/-- A type whose own parts fit together. The types inside it are not looked at. -/
structure FieldType.WellFormed (t : FieldType) : Prop where
  /-- A type has a keyword exactly if it is a scalar, and then one that stands for the
  scalar. -/
  keyword : ∀ kind, (∃ k, t.keyword = some k ∧ Scalar.ofKeyword k = kind) ↔
    t.shape = .scalar kind ∧ kind ≠ .none
  /-- A struct that is written in place has neither name nor package. -/
  unnamed : ∀ s, t.inline? = some s → s.name = "" ∧ s.package = ""
  /-- The fields of a struct that is written in place are well formed. -/
  fields : ∀ s, t.inline? = some s → ∀ field ∈ s.fields, field.WellFormed

/-- A struct all of whose parts are well formed, at every depth. -/
structure Struct.WellFormed (s : Struct) : Prop where
  types : ∀ t ∈ s.types, t.WellFormed
  members : ∀ field ∈ s.members, field.WellFormed

namespace FieldType

/-- A keyword of a scalar. -/
theorem wellFormed_ofKeyword {name : String} (h : Scalar.ofKeyword name ≠ .none) :
    (ofKeyword (Scalar.ofKeyword name) name).WellFormed where
  keyword kind := by
    constructor
    · rintro ⟨k, hk, rfl⟩
      obtain rfl : name = k := Option.some.inj hk
      exact ⟨rfl, h⟩
    · rintro ⟨hshape, -⟩
      exact ⟨name, rfl, Shape.scalar.inj hshape⟩
  unnamed s hs := by cases hs
  fields s hs := by cases hs

/-- A pointer changes neither the keyword nor the shape. -/
theorem wellFormed_pointer {t : FieldType} (h : t.WellFormed) : t.pointer.WellFormed where
  keyword := h.keyword
  unnamed := h.unnamed
  fields := h.fields

/-- A type that is no scalar is built without a keyword. -/
theorem wellFormed_ofShape {shape : Shape} (hscalar : ∀ kind, shape ≠ .scalar kind)
    (hinline : ∀ s, shape = .inline s →
      s.name = "" ∧ s.package = "" ∧ ∀ field ∈ s.fields, field.WellFormed) :
    (ofShape shape).WellFormed := by
  -- Only a shape that is written in place holds a struct.
  have hshape : ∀ s, (ofShape shape).inline? = some s → shape = .inline s := by
    intro s hs
    cases shape with
    | inline struct => rw [Option.some.inj hs]
    | _ => cases hs
  refine ⟨fun kind => iff_of_false ?_ ?_, fun s hs => ?_, fun s hs => ?_⟩
  · rintro ⟨k, hk, -⟩
    cases hk
  · rintro ⟨hkind, -⟩
    exact hscalar kind hkind
  · obtain ⟨hname, hpackage, -⟩ := hinline s (hshape s hs)
    exact ⟨hname, hpackage⟩
  · obtain ⟨-, -, hfields⟩ := hinline s (hshape s hs)
    exact hfields

/-- A reference is built without keyword and without fields. -/
theorem wellFormed_reference (package name : String) : (reference package name).WellFormed :=
  wellFormed_ofShape (fun _ => Shape.noConfusion) (fun _ => Shape.noConfusion)

/-- An array is well formed by itself, whatever its elements are. -/
theorem wellFormed_arrayOf (elem : FieldType) : elem.arrayOf.WellFormed :=
  wellFormed_ofShape (fun _ => Shape.noConfusion) (fun _ => Shape.noConfusion)

/-- A map is well formed by itself, whatever its key and its values are. -/
theorem wellFormed_mapTo (key : Scalar) (elem : FieldType) : (mapTo key elem).WellFormed :=
  wellFormed_ofShape (fun _ => Shape.noConfusion) (fun _ => Shape.noConfusion)

/-- A struct is written in place with its fields only. -/
theorem wellFormed_anonymous {fields : List Field} (h : ∀ field ∈ fields, field.WellFormed) :
    (ofShape (.inline (.anonymous fields))).WellFormed := by
  refine wellFormed_ofShape (fun _ => Shape.noConfusion) ?_
  intro s hs
  obtain rfl := Shape.inline.inj hs
  exact ⟨rfl, rfl, h⟩

end FieldType

/-- A struct with well-formed fields of types that are well formed at every depth. -/
theorem Struct.wellFormed_of_fields {s : Struct}
    (h : ∀ field ∈ s.fields, field.WellFormed ∧ ∀ t ∈ field.type.types, t.WellFormed) :
    s.WellFormed := by
  have htypes : ∀ t ∈ s.types, t.WellFormed :=
    Struct.forall_types.mpr fun field hfield => (h field hfield).2
  refine ⟨htypes, fun field hfield => ?_⟩
  -- A field further inside belongs to a struct that is one of the types.
  rcases Struct.mem_members.mp hfield with hown | ⟨t, ht, inner, hinner, hmem⟩
  · exact (h field hown).1
  · exact (htypes t ht).fields inner hinner field hmem

end Model

namespace Scope

open Model (Field FieldType Scalar Struct)
open Tag (Encoding)

variable (scope : Scope)

/-! ### Parts of an expression -/

/-- A built-in name is a scalar with its keyword, and any other name a reference. -/
theorem typeOfName_wellFormed (name : String) :
    ∀ t ∈ (scope.typeOfName name).types, t.WellFormed := by
  unfold typeOfName
  split
  case h_1 =>
    exact FieldType.forall_types_reference.mpr (FieldType.wellFormed_reference _ _)
  case h_2 hkind =>
    exact FieldType.forall_types_ofKeyword.mpr (FieldType.wellFormed_ofKeyword hkind)

/-- A selector is a reference, if it is read at all. -/
theorem typeOfSelector_wellFormed {field name : String} {qualifier : TypeExpr} {t : FieldType}
    (h : (scope.typeOfSelector field qualifier name).result = some t) :
    ∀ u ∈ t.types, u.WellFormed := by
  obtain ⟨localName, -, rfl⟩ := scope.eq_reference_of_typeOfSelector h
  exact FieldType.forall_types_reference.mpr (FieldType.wellFormed_reference _ _)

/-- The encoding of a line is one that an entry holds. -/
theorem encodingOfTag_wellFormed {field : String} {tag : Option String} {a : Encoding}
    (h : (scope.encodingOfTag field tag).result = some a) : a.WellFormed := by
  cases tag with
  | none => cases h
  | some literal =>
    rw [encodingOfTag, result_encodingOf] at h
    obtain ⟨text, -, hvalue⟩ := Option.bind_eq_some_iff.mp h
    obtain ⟨value, -, hencoding⟩ := Option.bind_eq_some_iff.mp hvalue
    exact Encoding.wellFormed_of_ofValue? hencoding

/-! ### Expressions and lines -/

mutual

/-- The type of an expression is well formed, and so are the types inside it. -/
theorem typeOf_wellFormed (field : String) {type : TypeExpr} {t : FieldType}
    (h : (scope.typeOf field type).result = some t) : ∀ u ∈ t.types, u.WellFormed := by
  match type with
  | .ident name =>
    obtain rfl : scope.typeOfName name = t := Option.some.inj h
    exact scope.typeOfName_wellFormed name
  | .pointer target =>
    obtain ⟨u, hu, rfl⟩ := Option.map_eq_some_iff.mp h
    -- The pointer replaces the type itself and leaves the types inside it alone.
    obtain ⟨hself, hinside⟩ := FieldType.forall_types.mp (typeOf_wellFormed field hu)
    exact FieldType.forall_types.mpr ⟨FieldType.wellFormed_pointer hself, hinside⟩
  | .array _ elem =>
    obtain ⟨u, hu, rfl⟩ := Option.map_eq_some_iff.mp h
    exact FieldType.forall_types_arrayOf.mpr
      ⟨FieldType.wellFormed_arrayOf u, typeOf_wellFormed field hu⟩
  | .map key value =>
    obtain ⟨u, hu, rfl⟩ := Option.map_eq_some_iff.mp h
    exact FieldType.forall_types_mapTo.mpr
      ⟨FieldType.wellFormed_mapTo _ u, typeOf_wellFormed field hu⟩
  | .selector qualifier name => exact scope.typeOfSelector_wellFormed h
  | .struct lines =>
    obtain rfl := Option.some.inj h
    have hfields := fieldsOf_wellFormed "" lines
    exact FieldType.forall_types_inline.mpr
      ⟨FieldType.wellFormed_anonymous fun f hf => (hfields f hf).1,
        Struct.forall_types.mpr fun f hf => (hfields f hf).2⟩
  | .paren inner =>
    have hinner : (scope.typeOf field inner).result = some t := h
    exact typeOf_wellFormed field hinner
  | .func | .interface | .chan => cases h
termination_by structural type

/-- The fields of lines are well formed, and so are their types at every depth. -/
theorem fieldsOf_wellFormed (owner : String) (lines : List FieldLine) :
    ∀ field ∈ (scope.fieldsOf owner lines).result,
      field.WellFormed ∧ ∀ t ∈ field.type.types, t.WellFormed := by
  match lines with
  | [] => exact List.forall_mem_nil _
  | line :: rest =>
    rw [fieldsOf]
    exact List.forall_mem_append.mpr
      ⟨fieldsOfLine_wellFormed owner line, fieldsOf_wellFormed owner rest⟩
termination_by structural lines

/-- The fields of a line are well formed, and so are their types at every depth. -/
theorem fieldsOfLine_wellFormed (owner : String) (line : FieldLine) :
    ∀ field ∈ (scope.fieldsOfLine owner line).result,
      field.WellFormed ∧ ∀ t ∈ field.type.types, t.WellFormed := by
  intro field hfield
  obtain ⟨hexported, first, htype, hencoding⟩ := scope.exists_of_mem_fieldsOfLine owner hfield
  match line with
  | ⟨names, type, tag⟩ =>
    exact ⟨⟨hexported, fun a ha => scope.encodingOfTag_wellFormed (hencoding.trans ha)⟩,
      typeOf_wellFormed first htype⟩
termination_by structural line

end

end Scope

end ServiceTypes
