import ServiceTypes.Json.Value
import ServiceTypes.Source.Document

/-!
# `ServiceTypes.Source.Writing`: documents as JSON

The full spelling of a document: every member of every record is
written, in the order of the record, with null for an absent text and
an empty array for an empty list.
-/

set_option autoImplicit false

namespace ServiceTypes.Source

open Json (Value)

/-- A text or null. -/
def writeOptional : Option String → Value
  | none => .null
  | some s => .text s

/-- A list of texts. -/
def writeTexts (texts : List String) : Value :=
  .array (texts.map .text)

mutual

/-- Writes a type expression. -/
def TypeExpr.toJson : TypeExpr → Value
  | .ident name => .object [("ident", .text name)]
  | .pointer target => .object [("star", target.toJson)]
  | .array length elem =>
    .object [("array", .object [("len", writeOptional length), ("elem", elem.toJson)])]
  | .map key value => .object [("map", .object [("key", key.toJson), ("value", value.toJson)])]
  | .selector qualifier name =>
    .object [("selector", .object [("x", qualifier.toJson), ("sel", .text name)])]
  | .struct lines => .object [("struct", .object [("fields", .array (linesToJson lines))])]
  | .paren inner => .object [("paren", inner.toJson)]
  | .func => .text "func"
  | .interface => .text "interface"
  | .chan => .text "chan"
termination_by structural e => e

/-- Writes the field lines of a struct type. -/
def linesToJson : List FieldLine → List Value
  | [] => []
  | ⟨names, type, tag⟩ :: rest =>
    .object [("names", writeTexts names), ("type", type.toJson), ("tag", writeOptional tag)]
      :: linesToJson rest
termination_by structural lines => lines

end

/-- Writes an import. -/
def Import.toJson (i : Import) : Value :=
  .object [("name", writeOptional i.name), ("path", .text i.path)]

/-- Writes a declaration. -/
def Declaration.toJson : Declaration → Value
  | .type name underlying =>
    .object [("kind", .text "type"), ("name", .text name), ("type", underlying.toJson)]
  | .func name => .object [("kind", .text "func"), ("name", .text name)]
  | .value names => .object [("kind", .text "value"), ("names", writeTexts names)]

/-- Writes a file. -/
def File.toJson (file : File) : Value :=
  .object [("name", .text file.name), ("imports", .array (file.imports.map Import.toJson)),
    ("decls", .array (file.declarations.map Declaration.toJson))]

/-- Writes a package. -/
def Package.toJson (package : Package) : Value :=
  .object [("name", .text package.name), ("files", .array (package.files.map File.toJson))]

/-- Writes a document. -/
def Document.toJson (document : Document) : Value :=
  .object [("packages", .array (document.packages.map Package.toJson))]

end ServiceTypes.Source
