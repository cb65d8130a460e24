import ServiceTypes.Model.Reading
import ServiceTypes.Proofs.Json.Tree

/-!
# `ServiceTypes.Proofs.Model.Reading`: the model survives its JSON

The JSON of the model says everything about it, pointers, keywords and
encodings included. All of it is read back, in whatever order the members of
the objects stand. The theorems:

* `Shape.ofJson?_sorted`: a shape is read from the member that is named for it,
  whatever members that are named for no shape stand beside it.
* `FieldType.ofJson?_toJson`, `Struct.ofJson?_toJson`, `Field.ofJson?_toJson`:
  what is written is read back, at every depth.
* `structsOfJson?_toJson`: so are structs under ascending keys.
-/

set_option autoImplicit false

namespace ServiceTypes.Model

open Json (Value sortedItems)
open Tag (Encoding)

/-! ### Parts without types -/

/-- A scalar is read back from its tree. -/
theorem Scalar.ofJson?_toJson (kind : Scalar) :
    Scalar.ofJson? kind.toJson.sorted = some kind := by
  cases kind <;> decide

/-- A qualified name is read back, in whatever order its members stand. -/
theorem QualifiedName.ofJson?_toJson (q : QualifiedName) :
    QualifiedName.ofJson? q.toJson.sorted = some q := by
  have hdistinct : q.toJson.Distinct := by
    show ["name", "package"].Nodup
    decide
  simp only [QualifiedName.ofJson?, Value.required_sorted hdistinct]
  rfl

/-- An encoding is read back with all of its marks. -/
theorem encodingOfJson?_encodingToJson (a : Encoding) :
    encodingOfJson? (encodingToJson a).sorted = some a := by
  have hdistinct : (encodingToJson a).Distinct := by
    show ["name", "omit_empty", "ignore", "force_string_type"].Nodup
    decide
  simp only [encodingOfJson?, Value.required_sorted hdistinct]
  rfl

/-! ### The members of types and fields -/

/-- The names of the members that stand for shapes. -/
def shapeNames : List String := ["scalar", "struct_ref", "inline_struct", "array", "map"]

/-- Of the members that stand for shapes, a value has that of the given shape only. -/
structure WritesShape (v : Value) (shape : Shape) : Prop where
  distinct : v.Distinct
  lookup : ∀ name ∈ shapeNames, v.members.lookup name
    = if name = shape.toMember.1 then some shape.toMember.2 else none

/-- A shape is written under one of the names for shapes. -/
theorem Shape.fst_toMember_mem (shape : Shape) : shape.toMember.1 ∈ shapeNames := by
  cases shape <;> simp [toMember, shapeNames]

/-- A type is written as its shape, the mark of a pointer and the keyword, if it has one. -/
theorem FieldType.members_toJson (t : FieldType) :
    t.toJson.members
      = t.shape.toMember :: ("is_ptr", .bool t.isPointer) :: keywordMember t.keyword := by
  cases t
  rfl

/-- No member beside that of the shape stands for a shape. -/
theorem notMem_shapeNames {isPointer : Value} {keyword : Option String} {name : String}
    (h : name ∈ (("is_ptr", isPointer) :: keywordMember keyword).map Prod.fst) :
    name ∉ shapeNames := by
  have hbeside : ∀ other ∈ ["is_ptr", "go_type"], other ∉ shapeNames := by decide
  refine hbeside name ?_
  cases keyword with
  | none => exact List.mem_cons.mpr (.inl (List.mem_singleton.mp h))
  | some k => exact h

/-- No two members of a written type have one name. -/
theorem FieldType.distinct_toJson (t : FieldType) : t.toJson.Distinct := by
  unfold Value.Distinct
  rw [members_toJson, List.map_cons, List.nodup_cons]
  refine ⟨fun hmem => notMem_shapeNames hmem t.shape.fst_toMember_mem, ?_⟩
  cases t.keyword with
  | none => exact List.nodup_singleton _
  | some k =>
    show ["is_ptr", "go_type"].Nodup
    decide

/-- A written type shows its own shape and no other. -/
theorem FieldType.writesShape_toJson (t : FieldType) : WritesShape t.toJson t.shape where
  distinct := t.distinct_toJson
  lookup name hname := by
    rw [members_toJson]
    by_cases hself : name = t.shape.toMember.1
    · rw [if_pos hself, hself]
      exact List.lookup_cons_self
    · have hmiss : (name == t.shape.toMember.1) = false := beq_eq_false_iff_ne.mpr hself
      rw [if_neg hself, List.lookup_cons, hmiss]
      exact lookup_eq_none_iff_notMem.mpr fun hmem => notMem_shapeNames hmem hname

/-- The mark of a pointer is found in a written type. -/
theorem FieldType.lookup_isPointer (t : FieldType) :
    t.toJson.members.lookup "is_ptr" = some (.bool t.isPointer) := by
  rw [members_toJson]
  cases t.shape <;> rfl

/-- The keyword is found in a written type, or is missing from both. -/
theorem FieldType.lookup_keyword (t : FieldType) :
    t.toJson.members.lookup "go_type" = t.keyword.map .text := by
  rw [members_toJson]
  cases t.shape <;> cases t.keyword <;> rfl

/-- No two members of a written field have one name. -/
theorem Field.distinct_toJson (field : Field) : field.toJson.Distinct := by
  obtain ⟨name, type, encoding⟩ := field
  cases encoding with
  | none =>
    show ["name", "value"].Nodup
    decide
  | some a =>
    show ["name", "value", "json_info"].Nodup
    decide

/-- The encoding is found in a written field, or is missing from both. -/
theorem Field.lookup_encoding (field : Field) :
    field.toJson.members.lookup "json_info" = field.encoding.map encodingToJson := by
  obtain ⟨name, type, encoding⟩ := field
  cases encoding <;> rfl

/-! ### Reading back -/

mutual

/-- A type is read back, with its pointer and its keyword. -/
theorem FieldType.ofJson?_toJson (t : FieldType) :
    FieldType.ofJson? t.toJson.sorted = some t := by
  match t with
  | ⟨shape, isPointer, keyword⟩ =>
    have hwrites := FieldType.writesShape_toJson ⟨shape, isPointer, keyword⟩
    have hshape := Shape.ofJson?_sorted shape hwrites
    have hpointer := FieldType.lookup_isPointer ⟨shape, isPointer, keyword⟩
    have hkeyword := FieldType.lookup_keyword ⟨shape, isPointer, keyword⟩
    rw [FieldType.ofJson?, hshape]
    simp only [Value.required_sorted hwrites.distinct, Value.optional_sorted hwrites.distinct,
      hpointer, hkeyword]
    -- An absent keyword is no member, and a present one is a text.
    cases keyword <;> rfl
termination_by structural t

/-- A shape is read from the one member that stands for a shape. -/
theorem Shape.ofJson?_sorted (shape : Shape) {v : Value} (h : WritesShape v shape) :
    Shape.ofJson? v.sorted = some shape := by
  -- Each name is looked up in turn, and only that of the shape is there.
  have hscalar := h.lookup "scalar" (by decide)
  have hnamed := h.lookup "struct_ref" (by decide)
  have hinline := h.lookup "inline_struct" (by decide)
  have harray := h.lookup "array" (by decide)
  have hmap := h.lookup "map" (by decide)
  simp only [Shape.ofJson?, Value.required_sorted h.distinct, hscalar, hnamed, hinline, harray,
    hmap]
  match shape with
  | .scalar kind => simp [Shape.toMember, Scalar.ofJson?_toJson]
  | .named target => simp [Shape.toMember, QualifiedName.ofJson?_toJson]
  | .inline struct =>
    have hstruct := Struct.ofJson?_toJson struct
    simp [Shape.toMember, hstruct]
  | .array elem =>
    have helem := FieldType.ofJson?_toJson elem
    simp [Shape.toMember, helem]
  | .map key elem =>
    have helem := FieldType.ofJson?_toJson elem
    have hdistinct : (Value.object [("key", key.toJson), ("value", elem.toJson)]).Distinct := by
      show ["key", "value"].Nodup
      decide
    simp [Shape.toMember, Value.required_sorted hdistinct, Value.members, List.lookup_cons,
      Scalar.ofJson?_toJson, helem]
termination_by structural shape

/-- A struct is read back with all its fields. -/
theorem Struct.ofJson?_toJson (s : Struct) : Struct.ofJson? s.toJson.sorted = some s := by
  match s with
  | ⟨name, package, fields⟩ =>
    have hfields := fieldsOfItems?_fieldsToJson fields
    have hdistinct : (Struct.toJson ⟨name, package, fields⟩).Distinct := by
      show ["name", "package", "fields"].Nodup
      decide
    simp only [Struct.ofJson?, Value.required_sorted hdistinct]
    simp [Struct.toJson, Value.members, List.lookup_cons, Value.sorted, Value.text?, fieldsOfJson?,
      hfields]
termination_by structural s

/-- The fields of a struct are read back in order. -/
theorem fieldsOfItems?_fieldsToJson (fields : List Field) :
    fieldsOfItems? (sortedItems (fieldsToJson fields)) = some fields := by
  match fields with
  | [] => rw [fieldsToJson, sortedItems, fieldsOfItems?]
  | field :: rest =>
    have hfield := Field.ofJson?_toJson field
    have hrest := fieldsOfItems?_fieldsToJson rest
    rw [fieldsToJson, sortedItems, fieldsOfItems?, hfield, hrest]
    rfl
termination_by structural fields

/-- A field is read back, with its encoding. -/
theorem Field.ofJson?_toJson (field : Field) : Field.ofJson? field.toJson.sorted = some field := by
  match field with
  | ⟨name, type, encoding⟩ =>
    have htype := FieldType.ofJson?_toJson type
    have hdistinct := Field.distinct_toJson ⟨name, type, encoding⟩
    have hencoding : (Field.toJson ⟨name, type, encoding⟩).sorted.optional "json_info"
        encodingOfJson? = some encoding := by
      rw [Value.optional_sorted hdistinct, Field.lookup_encoding]
      cases encoding with
      | none => rfl
      | some a => simp only [Option.map_some, encodingOfJson?_encodingToJson]
    simp only [Field.ofJson?, Value.required_sorted hdistinct, hencoding]
    simp [Field.toJson, Value.members, List.lookup_cons, Value.sorted, Value.text?, htype]
termination_by structural field

end

/-! ### Structs under keys -/

/-- Structs are read back one by one, under their keys. -/
theorem mapM_ofJson?_sorted (structs : List (String × Struct)) :
    (structs.map fun pair => (pair.1, pair.2.toJson.sorted)).mapM
        (fun pair => (Struct.ofJson? pair.2).map fun s => (pair.1, s))
      = some structs := by
  induction structs with
  | nil => rfl
  | cons pair rest ih =>
    rw [List.map_cons, List.mapM_cons, ih, Struct.ofJson?_toJson]
    rfl

/-- Structs under ascending keys are read back with their keys. -/
theorem structsOfJson?_toJson {structs : List (String × Struct)} (h : Ascending structs) :
    structsOfJson? (Value.object (structs.map fun pair => (pair.1, pair.2.toJson))).sorted
      = some structs := by
  have hascending : Ascending (structs.map fun pair => (pair.1, pair.2.toJson.sorted)) :=
    List.pairwise_map.mpr h
  rw [Value.sorted, Value.sortedMembers_eq_map, List.map_map]
  show structsOfJson? (.object (ofEntries (structs.map fun pair => (pair.1, pair.2.toJson.sorted))))
    = some structs
  rw [ofEntries_of_ascending hascending]
  exact mapM_ofJson?_sorted structs

end ServiceTypes.Model
