import ServiceTypes.Diagnostic
import ServiceTypes.Imports
import ServiceTypes.Model.FieldType
import ServiceTypes.Tag.Entry

/-!
# `ServiceTypes.Typing`: the model of a type expression

A type expression is read in the scope of a file: its imports, and the
key under which tags hold encodings. Named types become references,
so reading follows the nesting of the expression and nothing else.

* `Scope.typeOf` is the type of an expression, or nothing if the
  expression has no model, which is then reported under the name of the
  field;
* `Scope.fieldsOf` are the exported fields of the lines of a struct. A
  line gives a field for each of its exported names, all of one type,
  or none at all; names that are not exported are dropped before the
  type or the tag is looked at.
-/

set_option autoImplicit false

namespace ServiceTypes

open Model (Field FieldType Scalar Struct)
open Reported (report)
open Source (FieldLine TypeExpr isExported)
open Tag (Encoding)

/-- Where type expressions are read. -/
structure Scope where
  /-- The imports of the file. -/
  imports : ImportTable
  /-- The key of the tag entry that holds the encoding. -/
  tagKey : String

namespace Scope

/-- The type that a name without qualifier stands for: a scalar if it is built in,
otherwise a type of the same package. -/
def typeOfName (scope : Scope) (name : String) : FieldType :=
  match Scalar.ofKeyword name with
  | .none => .reference scope.imports.ownPath name
  | kind => .ofKeyword kind name

/-- The scalar of a map key. A key that is neither an identifier nor a selector is
reported; parentheses around a key do not count. -/
def keyOf (field : String) : TypeExpr → Reported Scalar
  | .ident name => pure (Scalar.ofKeyword name)
  | .paren inner => keyOf field inner
  | .selector _ _ => pure .none
  | key => do
    report (.unsupportedMapKey field key.form)
    return .none

/-- The type of a qualified name. A qualifier that no import declares stands for
itself. -/
def typeOfSelector (scope : Scope) (field : String) (qualifier : TypeExpr) (name : String) :
    Reported (Option FieldType) :=
  match qualifier with
  | .ident localName => do
    if (scope.imports.path? localName).isNone then
      report (.unknownImport field localName)
    return some (.reference (scope.imports.pathOrSelf localName) name)
  | _ => do
    report (.unsupportedSelector field name)
    return none

/-- The encoding that a tag literal holds. -/
def encodingOf (scope : Scope) (field literal : String) : Reported (Option Encoding) := do
  let undecodable : Reported (Option Encoding) := do
    report (.undecodableTag field literal)
    return none
  match Tag.tagText literal with
  | .error _ => undecodable
  | .ok tag =>
    match Tag.find scope.tagKey.toList tag.toList with
    | .found value => return Encoding.ofValue? value
    | .missing => return none
    | .undecodable _ => undecodable

/-- The encoding of a line, which may have no tag. -/
def encodingOfTag (scope : Scope) (field : String) : Option String →
    Reported (Option Encoding)
  | none => pure none
  | some literal => scope.encodingOf field literal

mutual

/-- The type of an expression that the named field has. -/
def typeOf (scope : Scope) (field : String) : TypeExpr → Reported (Option FieldType)
  | .ident name => pure (some (scope.typeOfName name))
  | .pointer target => do return (← typeOf scope field target).map .pointer
  | .array _ elem => do return (← typeOf scope field elem).map .arrayOf
  | .map key value => do
    let kind ← keyOf field key
    return (← typeOf scope field value).map (.mapTo kind)
  | .selector qualifier name => scope.typeOfSelector field qualifier name
  | .struct lines => do
    return some (.ofShape (.inline (.anonymous (← fieldsOf scope "" lines))))
  | .paren inner => typeOf scope field inner
  | .func => do
    report (.unsupportedExpr field .func)
    return none
  | .interface => do
    report (.unsupportedExpr field .interface)
    return none
  | .chan => do
    report (.unsupportedExpr field .chan)
    return none
termination_by structural e => e

/-- The exported fields of the lines of a struct with the given key. -/
def fieldsOf (scope : Scope) (owner : String) : List FieldLine → Reported (List Field)
  | [] => pure []
  | line :: rest => do
    let fields ← fieldsOfLine scope owner line
    return fields ++ (← fieldsOf scope owner rest)
termination_by structural lines => lines

/-- The exported fields of one line. Diagnostics name the first of them. -/
def fieldsOfLine (scope : Scope) (owner : String) : FieldLine → Reported (List Field)
  | ⟨names, type, tag⟩ =>
    if names.isEmpty then do
      report (.embeddedField owner)
      return []
    else
      match names.filter isExported with
      | [] => pure []
      | first :: others => do
        match ← typeOf scope first type with
        | none => return []
        | some fieldType =>
          let encoding ← scope.encodingOfTag first tag
          return (first :: others).map fun name => ⟨name, fieldType, encoding⟩
termination_by structural line => line

end

end Scope

end ServiceTypes
