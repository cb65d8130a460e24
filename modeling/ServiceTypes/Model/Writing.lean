import ServiceTypes.Json.Value
import ServiceTypes.Model.FieldType

/-!
# `ServiceTypes.Model.Writing`: the model as JSON and as text

* `FieldType.toJson`, `Struct.toJson` and `Field.toJson` hand the model
  over as JSON: the shape of a type is one member, named for its kind,
  and the keyword and the encoding are there only if there is one;
* `FieldType.text` writes a type as a declaration would.
-/

set_option autoImplicit false

namespace ServiceTypes.Model

open Json (Value)
open Tag (Encoding)

/-! ### JSON -/

/-- The word for a scalar. -/
def Scalar.label : Scalar → String
  | .string => "string"
  | .bool => "bool"
  | .number => "number"
  | .none => "none"

/-- Writes a scalar. -/
def Scalar.toJson (kind : Scalar) : Value := .text kind.label

/-- Writes a qualified name. -/
def QualifiedName.toJson (q : QualifiedName) : Value :=
  .object [("name", .text q.name), ("package", .text q.package)]

/-- Writes an encoding. -/
def encodingToJson (a : Encoding) : Value :=
  .object [("name", .text a.name), ("omit_empty", .bool a.omitEmpty),
    ("ignore", .bool a.ignored), ("force_string_type", .bool a.asString)]

/-- The member for a keyword, if there is one. -/
def keywordMember : Option String → List (String × Value)
  | none => []
  | some keyword => [("go_type", .text keyword)]

/-- The member for an encoding, if there is one. -/
def encodingMember : Option Encoding → List (String × Value)
  | none => []
  | some a => [("json_info", encodingToJson a)]

mutual

/-- Writes a type. -/
def FieldType.toJson : FieldType → Value
  | ⟨shape, isPointer, keyword⟩ =>
    .object (shape.toMember :: ("is_ptr", .bool isPointer) :: keywordMember keyword)
termination_by structural t => t

/-- The member for a shape. -/
def Shape.toMember : Shape → String × Value
  | .scalar kind => ("scalar", kind.toJson)
  | .named target => ("struct_ref", target.toJson)
  | .inline struct => ("inline_struct", struct.toJson)
  | .array elem => ("array", elem.toJson)
  | .map key elem => ("map", .object [("key", key.toJson), ("value", elem.toJson)])
termination_by structural s => s

/-- Writes a struct. -/
def Struct.toJson : Struct → Value
  | ⟨name, package, fields⟩ =>
    .object [("name", .text name), ("package", .text package),
      ("fields", .array (fieldsToJson fields))]
termination_by structural s => s

/-- Writes a list of fields. -/
def fieldsToJson : List Field → List Value
  | [] => []
  | field :: rest => field.toJson :: fieldsToJson rest
termination_by structural fs => fs

/-- Writes a field. -/
def Field.toJson : Field → Value
  | ⟨name, type, encoding⟩ =>
    .object (("name", .text name) :: ("value", type.toJson) :: encodingMember encoding)
termination_by structural f => f

end

/-! ### Text -/

/-- A scalar in a declaration that does not know its keyword. -/
def Scalar.text : Scalar → String
  | .string => "string"
  | .bool => "bool"
  | .number => "number"
  | .none => "?"

/-- A type behind its star, if it goes through a pointer. -/
def starred (isPointer : Bool) (text : String) : String :=
  if isPointer then "*" ++ text else text

mutual

/-- A type as a declaration writes it. -/
def FieldType.text : FieldType → String
  | ⟨.scalar kind, isPointer, keyword⟩ => starred isPointer (keyword.getD kind.text)
  | ⟨.named target, isPointer, _⟩ => starred isPointer target.key
  | ⟨.inline struct, isPointer, _⟩ => starred isPointer struct.text
  | ⟨.array elem, isPointer, _⟩ => starred isPointer ("[]" ++ elem.text)
  | ⟨.map key elem, isPointer, _⟩ =>
    starred isPointer ("map[" ++ key.text ++ "]" ++ elem.text)
termination_by structural t => t

/-- A struct type with its fields on one line. -/
def Struct.text : Struct → String
  | ⟨_, _, fields⟩ => "struct \x7b " ++ "; ".intercalate (fieldTexts fields) ++ " \x7d"
termination_by structural s => s

/-- Fields with their types. -/
def fieldTexts : List Field → List String
  | [] => []
  | ⟨name, type, _⟩ :: rest => (name ++ " " ++ type.text) :: fieldTexts rest
termination_by structural fs => fs

end

end ServiceTypes.Model
