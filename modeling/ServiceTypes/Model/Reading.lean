import ServiceTypes.Json.Tree
import ServiceTypes.Model.Writing

/-!
# `ServiceTypes.Model.Reading`: the model read back from JSON

What `ServiceTypes.Model.Writing` hands over as JSON is taken out of it
again. Members are found by their names. The member for a keyword or for
an encoding may be absent, and only then there is none.

* `FieldType.ofJson?`, `Struct.ofJson?` and `Field.ofJson?` read the
  model;
* `structsOfJson?` reads the structs of a registry with their keys.
-/

set_option autoImplicit false

namespace ServiceTypes.Model

open Json (Value)
open Tag (Encoding)

/-- The scalar that a word stands for. -/
def Scalar.ofLabel? (label : String) : Option Scalar :=
  [Scalar.string, .bool, .number, .none].find? fun kind => kind.label = label

/-- Reads a scalar. -/
def Scalar.ofJson? (v : Value) : Option Scalar :=
  v.text?.bind Scalar.ofLabel?

/-- Reads a qualified name. -/
def QualifiedName.ofJson? (v : Value) : Option QualifiedName := do
  let name ← v.required "name" fun w _ => w.text?
  let package ← v.required "package" fun w _ => w.text?
  return ⟨package, name⟩

/-- Reads an encoding. -/
def encodingOfJson? (v : Value) : Option Encoding := do
  let name ← v.required "name" fun w _ => w.text?
  let omitEmpty ← v.required "omit_empty" fun w _ => w.bool?
  let ignored ← v.required "ignore" fun w _ => w.bool?
  let asString ← v.required "force_string_type" fun w _ => w.bool?
  return { name, omitEmpty, ignored, asString }

mutual

/-- Reads a type. -/
def FieldType.ofJson? (v : Value) : Option FieldType := do
  let shape ← Shape.ofJson? v
  let isPointer ← v.required "is_ptr" fun w _ => w.bool?
  let keyword ← v.optional "go_type" Value.text?
  return ⟨shape, isPointer, keyword⟩
termination_by (sizeOf v, 1)

/-- Reads the shape of a type, which one of the members of the type is named for. -/
def Shape.ofJson? (v : Value) : Option Shape :=
  (v.required "scalar" fun w _ => (Scalar.ofJson? w).map .scalar)
    <|> (v.required "struct_ref" fun w _ => (QualifiedName.ofJson? w).map .named)
    <|> (v.required "inline_struct" fun w _ => (Struct.ofJson? w).map .inline)
    <|> (v.required "array" fun w _ => (FieldType.ofJson? w).map .array)
    <|> v.required "map" fun w _ => do
      let key ← w.required "key" fun x _ => Scalar.ofJson? x
      let elem ← w.required "value" fun x _ => FieldType.ofJson? x
      return .map key elem
termination_by (sizeOf v, 0)

/-- Reads a struct. -/
def Struct.ofJson? (v : Value) : Option Struct := do
  let name ← v.required "name" fun w _ => w.text?
  let package ← v.required "package" fun w _ => w.text?
  let fields ← v.required "fields" fun w _ => fieldsOfJson? w
  return ⟨name, package, fields⟩
termination_by (sizeOf v, 0)

/-- Reads an array of fields. -/
def fieldsOfJson? : Value → Option (List Field)
  | .array items => fieldsOfItems? items
  | _ => none
termination_by v => (sizeOf v, 0)

/-- Reads fields one by one. -/
def fieldsOfItems? : List Value → Option (List Field)
  | [] => some []
  | item :: rest => do
    let field ← Field.ofJson? item
    let fields ← fieldsOfItems? rest
    return field :: fields
termination_by items => (sizeOf items, 0)

/-- Reads a field. -/
def Field.ofJson? (v : Value) : Option Field := do
  let name ← v.required "name" fun w _ => w.text?
  let type ← v.required "value" fun w _ => FieldType.ofJson? w
  let encoding ← v.optional "json_info" encodingOfJson?
  return ⟨name, type, encoding⟩
termination_by (sizeOf v, 0)

end

/-- Reads structs under their keys. -/
def structsOfJson? : Value → Option (List (String × Struct))
  | .object members => members.mapM fun (key, v) => (Struct.ofJson? v).map (key, ·)
  | _ => none

end ServiceTypes.Model
