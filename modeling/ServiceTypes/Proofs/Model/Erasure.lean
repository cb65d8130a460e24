import Mathlib.Logic.Function.Basic
import ServiceTypes.Model.FieldType

/-!
# `ServiceTypes.Proofs.Model.Erasure`: types without pointers and keywords

Types are compared up to their pointers and keywords, at every depth. This is
equality of the types that are left when both are erased. The theorems:

* `FieldType.same_iff` / `sameFields_iff`: types are the same, and fields, if
  they are equal once erased.
* `FieldType.same_equivalence`: comparison is an equivalence.
* `FieldType.erased_pointer` and its companions: what is left of a type that is
  built from others.
* `FieldType.erased_ofKeyword`: the keyword of a scalar is not left of it.
-/

set_option autoImplicit false

namespace ServiceTypes.Model

mutual

/-- A type without its pointers and keywords, and without those of the types inside it. -/
def FieldType.erased : FieldType → FieldType
  | ⟨shape, _, _⟩ => ⟨shape.erased, false, none⟩
termination_by structural t => t

/-- A shape without the pointers and keywords inside. -/
def Shape.erased : Shape → Shape
  | .scalar kind => .scalar kind
  | .named target => .named target
  | .inline struct => .inline struct.erased
  | .array elem => .array elem.erased
  | .map key elem => .map key elem.erased
termination_by structural s => s

/-- A struct without the pointers and keywords of its fields. -/
def Struct.erased : Struct → Struct
  | ⟨name, package, fields⟩ => ⟨name, package, erasedFields fields⟩
termination_by structural s => s

/-- Fields without the pointers and keywords of their types. -/
def erasedFields : List Field → List Field
  | [] => []
  | field :: rest => field.erased :: erasedFields rest
termination_by structural fs => fs

/-- A field without the pointers and keywords of its type. -/
def Field.erased : Field → Field
  | ⟨name, type, encoding⟩ => ⟨name, type.erased, encoding⟩
termination_by structural f => f

end

/-- The fields of a struct are erased one by one. -/
theorem erasedFields_eq_map (fields : List Field) :
    erasedFields fields = fields.map Field.erased := by
  induction fields with
  | nil => rfl
  | cons field rest ih => rw [erasedFields, ih, List.map_cons]

/-! ### Comparison -/

mutual

/-- Types are the same exactly if nothing but pointers and keywords tells them apart. -/
theorem FieldType.same_iff (a b : FieldType) : a.same b ↔ a.erased = b.erased := by
  match a, b with
  | ⟨shape, _, _⟩, ⟨shape', _, _⟩ =>
    rw [FieldType.same, Shape.same_iff, FieldType.erased, FieldType.erased]
    simp
termination_by structural a

/-- Shapes are the same exactly if they are erased to one shape. -/
theorem Shape.same_iff (a b : Shape) : a.same b ↔ a.erased = b.erased := by
  match a with
  | .scalar kind => cases b <;> simp [Shape.same, Shape.erased]
  | .named target => cases b <;> simp [Shape.same, Shape.erased]
  | .inline struct => cases b <;> simp [Shape.same, Shape.erased, Struct.same_iff]
  | .array elem => cases b <;> simp [Shape.same, Shape.erased, FieldType.same_iff]
  | .map key elem => cases b <;> simp [Shape.same, Shape.erased, FieldType.same_iff]
termination_by structural a

/-- Structs are the same exactly if they are erased to one struct. -/
theorem Struct.same_iff (a b : Struct) : a.same b ↔ a.erased = b.erased := by
  match a, b with
  | ⟨name, package, fields⟩, ⟨name', package', fields'⟩ =>
    rw [Struct.same, Struct.erased, Struct.erased]
    simp [sameFields_iff, and_assoc]
termination_by structural a

/-- Fields are the same exactly if nothing but the pointers and keywords of their types tells
them apart. -/
theorem sameFields_iff (as bs : List Field) :
    sameFields as bs ↔ erasedFields as = erasedFields bs := by
  match as with
  | [] => cases bs <;> simp [sameFields, erasedFields]
  | a :: as => cases bs <;> simp [sameFields, erasedFields, Field.same_iff, sameFields_iff]
termination_by structural as

/-- Fields are the same exactly if they are erased to one field. -/
theorem Field.same_iff (a b : Field) : a.same b ↔ a.erased = b.erased := by
  match a, b with
  | ⟨name, type, encoding⟩, ⟨name', type', encoding'⟩ =>
    rw [Field.same, Field.erased, Field.erased]
    simp [FieldType.same_iff, and_assoc]
termination_by structural a

end

namespace FieldType

/-- Comparison is an equivalence, because equality of what is left is one. -/
theorem same_equivalence : Equivalence fun a b : FieldType => a.same b = true := by
  have h : (fun a b : FieldType => a.same b = true) = InvImage (· = ·) erased := by
    funext a b
    exact propext (same_iff a b)
  rw [h]
  exact InvImage.equivalence _ _ eq_equivalence

/-! ### What is left of a type that is built from others -/

/-- The mark of a pointer is erased. -/
theorem erased_pointer (t : FieldType) : t.pointer.erased = t.erased := by
  cases t
  rfl

/-- An array keeps what is left of its elements. -/
theorem erased_arrayOf (elem : FieldType) : (arrayOf elem).erased = arrayOf elem.erased := rfl

/-- A map keeps its key and what is left of its elements. -/
theorem erased_mapTo (elem : FieldType) (key : Scalar) :
    (mapTo key elem).erased = mapTo key elem.erased := rfl

/-- A struct in place keeps what is left of its fields. -/
theorem erased_inline (fields : List Field) :
    (ofShape (.inline (.anonymous fields))).erased
      = ofShape (.inline (.anonymous (fields.map Field.erased))) := by
  rw [← erasedFields_eq_map]
  rfl

/-- The keyword of a scalar is erased. -/
theorem erased_ofKeyword (kind : Scalar) (keyword : String) :
    (ofKeyword kind keyword).erased = ofShape (.scalar kind) := rfl

end FieldType

end ServiceTypes.Model
