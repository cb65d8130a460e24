import ServiceTypes.Tag.Encoding

/-!
# `ServiceTypes.Model.FieldType`: structs and the types of their fields

The model of a package: structs of exported fields, whose types have a
canonical form. A named type is a reference by package path and name
and is never expanded, so a struct may refer to itself.

* `FieldType`, `Shape`, `Struct` and `Field` are the model;
* `FieldType.ofShape` and its companions build types;
* `FieldType.scalar?`, `FieldType.target?`, `FieldType.inline?` and
  `FieldType.elem?` take them apart;
* `FieldType.same` compares types up to pointers and keywords.
-/

set_option autoImplicit false

namespace ServiceTypes.Model

open Tag (Encoding)

/-- A primitive kind of value. -/
inductive Scalar where
  | string
  | bool
  /-- Integers and floats of all sizes. -/
  | number
  /-- No scalar. -/
  | none
  deriving DecidableEq, Repr

/-- The scalar that a built-in name stands for; every other name stands for none. -/
def Scalar.ofKeyword (name : String) : Scalar :=
  if name = "string" then .string
  else if name = "bool" then .bool
  else if name ∈ ["int", "int8", "int16", "int32", "int64", "uint", "uint8", "uint16", "uint32",
      "uint64", "uintptr", "byte", "rune", "float", "float32", "float64"] then .number
  else .none

/-- The key of a name in a package. -/
def qualifiedKey (package name : String) : String :=
  package ++ "." ++ name

/-- A name with the path of its package. -/
structure QualifiedName where
  package : String
  name : String
  deriving DecidableEq, Repr

/-- The key of a qualified name. -/
def QualifiedName.key (q : QualifiedName) : String :=
  qualifiedKey q.package q.name

mutual

/-- The type of a field. Whether it goes through a pointer, and with which keyword a
scalar was declared, stand beside the shape. -/
structure FieldType where
  shape : Shape
  isPointer : Bool
  keyword : Option String

/-- The shape of a type. -/
inductive Shape where
  | scalar (kind : Scalar)
  | named (target : QualifiedName)
  | inline (struct : Struct)
  /-- An array or a slice. -/
  | array (elem : FieldType)
  /-- A map; a key that is no scalar has the kind `none`. -/
  | map (key : Scalar) (elem : FieldType)

/-- A struct with its exported fields in source order. A struct type that is written
where it is used has neither name nor package. -/
structure Struct where
  name : String
  package : String
  fields : List Field

/-- An exported field. -/
structure Field where
  name : String
  type : FieldType
  encoding : Option Encoding

end

/-! ### Structs -/

/-- A declared struct before its fields are known. -/
def Struct.empty (package name : String) : Struct := ⟨name, package, []⟩

/-- A struct type that is written where it is used. -/
def Struct.anonymous (fields : List Field) : Struct := ⟨"", "", fields⟩

/-- The key of a struct. -/
def Struct.key (s : Struct) : String := qualifiedKey s.package s.name

/-- Whether a struct has no name of its own. -/
def Struct.isAnonymous (s : Struct) : Bool := s.name.isEmpty

/-- The first field of a name. -/
def Struct.field? (s : Struct) (name : String) : Option Field :=
  s.fields.find? fun field => field.name = name

/-- A struct without package, name and fields. -/
instance : Inhabited Struct := ⟨Struct.empty "" ""⟩

/-! ### Building types -/

namespace FieldType

/-- A type that goes through no pointer and has no keyword. -/
def ofShape (shape : Shape) : FieldType := ⟨shape, false, none⟩

/-- A scalar with the keyword that it was declared with. -/
def ofKeyword (kind : Scalar) (keyword : String) : FieldType :=
  ⟨.scalar kind, false, some keyword⟩

/-- A reference to a named type. -/
def reference (package name : String) : FieldType := ofShape (.named ⟨package, name⟩)

/-- An array of a type. -/
def arrayOf (elem : FieldType) : FieldType := ofShape (.array elem)

/-- A map to a type. -/
def mapTo (key : Scalar) (elem : FieldType) : FieldType := ofShape (.map key elem)

/-- The type through a pointer. A second pointer changes nothing. -/
def pointer (t : FieldType) : FieldType := { t with isPointer := true }

/-! ### Taking types apart -/

/-- The kind of a scalar. -/
def scalar? (t : FieldType) : Option Scalar :=
  match t.shape with
  | .scalar kind => some kind
  | _ => none

/-- The target of a reference. -/
def target? (t : FieldType) : Option QualifiedName :=
  match t.shape with
  | .named target => some target
  | _ => none

/-- The struct that is written in place. -/
def inline? (t : FieldType) : Option Struct :=
  match t.shape with
  | .inline struct => some struct
  | _ => none

/-- The type of the elements of an array or a map. -/
def elem? (t : FieldType) : Option FieldType :=
  match t.shape with
  | .array elem => some elem
  | .map _ elem => some elem
  | _ => none

end FieldType

/-! ### Comparison -/

mutual

/-- Whether two types have the same shape, whatever their pointers and keywords are. -/
def FieldType.same : FieldType → FieldType → Bool
  | ⟨shape, _, _⟩, other => shape.same other.shape
termination_by structural t => t

/-- Whether two shapes are equal up to the pointers and keywords inside. -/
def Shape.same : Shape → Shape → Bool
  | .scalar a, .scalar b => a == b
  | .named a, .named b => a == b
  | .inline a, .inline b => a.same b
  | .array a, .array b => a.same b
  | .map k a, .map l b => k == l && a.same b
  | _, _ => false
termination_by structural s => s

/-- Whether two structs have the same names and the same fields. -/
def Struct.same : Struct → Struct → Bool
  | ⟨name, package, fields⟩, other =>
    name == other.name && package == other.package && sameFields fields other.fields
termination_by structural s => s

/-- Whether two lists of fields agree one by one. -/
def sameFields : List Field → List Field → Bool
  | [], [] => true
  | a :: as, b :: bs => a.same b && sameFields as bs
  | _, _ => false
termination_by structural fs => fs

/-- Whether two fields have the same name and encoding and types of the same shape. -/
def Field.same : Field → Field → Bool
  | ⟨name, type, encoding⟩, other =>
    name == other.name && type.same other.type && encoding == other.encoding
termination_by structural f => f

end

end ServiceTypes.Model
