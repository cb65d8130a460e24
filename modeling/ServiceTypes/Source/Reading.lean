import ServiceTypes.Json.Record
import ServiceTypes.Source.Document

/-!
# `ServiceTypes.Source.Reading`: documents from JSON

Each type of the source tree is read from a JSON node in which `depth`
more arrays and objects may be opened; opening one counts whether it is
used for a list, a record or a type expression with its one key.

A declaration says by the member `kind` what it is. Because that member
may stand last, all members are interpreted before one is chosen, so in
a declaration even an unknown member must have a value that a reader can
hold.

* `readTypeExpr` and `readFieldLine` read type expressions;
* `readDeclaration`, `readFile`, `readPackage` and `readDocument` read
  the rest of the tree;
* `Document.ofText`, `TypeExpr.ofText` and `FieldLine.listOfText` read
  a whole JSON text.
-/

set_option autoImplicit false

namespace ServiceTypes.Source

open Json (Error Node Record)

/-! ### Type expressions -/

/-- The type expression that one word writes. -/
def bareTypeExpr (word : String) : Except Error TypeExpr :=
  if word = "func" then .ok .func
  else if word = "interface" then .ok .interface
  else if word = "chan" then .ok .chan
  else .error (.unexpected "a type expression")

/-- Checks the value under the key of a type expression without parts: null, or in a
declaration also an empty object. -/
def checkNoParts (inDeclaration : Bool) : Node → Except Error Unit
  | .null => .ok ()
  | .object [] => if inDeclaration then .ok () else .error (.unexpected "null")
  | _ => .error (.unexpected "null")

mutual

/-- Reads a type expression. -/
def readTypeExpr (inDeclaration : Bool) : Nat → Node → Except Error TypeExpr
  | _, .text raw => do bareTypeExpr (← raw.text)
  | depth + 1, .object [⟨key, content⟩] => do
    match ← key.text with
    | "ident" => .ident <$> content.readText
    | "star" => .pointer <$> readTypeExpr inDeclaration depth content
    | "paren" => .paren <$> readTypeExpr inDeclaration depth content
    | "array" => do
      match depth with
      | 0 => .error .tooDeep
      | depth + 1 =>
        let r ← Record.ofNode ["len", "elem"] content
        let length ← r.optional "len" Node.readText
        let elem ← r.required "elem" (readTypeExpr inDeclaration depth)
        return .array length elem
    | "map" => do
      match depth with
      | 0 => .error .tooDeep
      | depth + 1 =>
        let r ← Record.ofNode ["key", "value"] content
        let key ← r.required "key" (readTypeExpr inDeclaration depth)
        let value ← r.required "value" (readTypeExpr inDeclaration depth)
        return .map key value
    | "selector" => do
      match depth with
      | 0 => .error .tooDeep
      | depth + 1 =>
        let r ← Record.ofNode ["x", "sel"] content
        let qualifier ← r.required "x" (readTypeExpr inDeclaration depth)
        let name ← r.required "sel" Node.readText
        return .selector qualifier name
    | "struct" => do
      match depth with
      | 0 => .error .tooDeep
      | depth + 1 =>
        let r ← Record.ofNode ["fields"] content
        let lines ← r.orDefault "fields" [] fun node =>
          match depth with
          | 0 => .error .tooDeep
          | depth + 1 => do (← node.readItems).mapM (readFieldLine inDeclaration depth)
        return .struct lines
    | word => do
      checkNoParts inDeclaration content
      bareTypeExpr word
  | _, _ => .error (.unexpected "a type expression")

/-- Reads a field line. -/
def readFieldLine (inDeclaration : Bool) : Nat → Node → Except Error FieldLine
  | 0, _ => .error .tooDeep
  | depth + 1, node => do
    let r ← Record.ofNode ["names", "type", "tag"] node
    let names ← r.orDefault "names" [] (Node.readTexts depth)
    let type ← r.required "type" (readTypeExpr inDeclaration depth)
    let tag ← r.optional "tag" Node.readText
    return ⟨names, type, tag⟩

end

/-! ### Declarations -/

/-- Reads an import. -/
def readImport : Nat → Node → Except Error Import
  | 0, _ => .error .tooDeep
  | _ + 1, node => do
    let r ← Record.ofNode ["name", "path"] node
    let name ← r.optional "name" Node.readText
    let path ← r.required "path" Node.readText
    return ⟨name, path⟩

/-- The members of a declaration of a kind beside the kind. -/
def declarationMembers (kind : String) : Except Error (List String) :=
  if kind = "type" then .ok ["name", "type"]
  else if kind = "func" then .ok ["name"]
  else if kind = "value" then .ok ["names"]
  else .error (.unexpected "a kind of declaration")

/-- The declaration of a kind with its members. -/
def declarationOf (depth : Nat) (kind : String) (r : Record) : Except Error Declaration :=
  if kind = "type" then do
    let name ← r.required "name" Node.readText
    let type ← r.required "type" (readTypeExpr true depth)
    return .type name type
  else if kind = "func" then do
    let name ← r.required "name" Node.readText
    return .func name
  else do
    let names ← r.orDefault "names" [] (Node.readTexts depth)
    return .value names

/-- Checks that a reader can hold all of some nodes. -/
def checkInterpretable (depth : Nat) (nodes : List Node) : Except Error Unit :=
  nodes.forM fun node => do
    let _ ← Json.Value.ofNode depth node

/-- Reads a declaration. -/
def readDeclaration : Nat → Node → Except Error Declaration
  | 0, _ => .error .tooDeep
  | depth + 1, .object members => do
    let pairs ← Json.Member.named members
    match pairs.filter fun pair => pair.1 = "kind" with
    | [] => .error (.missing "kind")
    | [(_, node)] =>
      let kind ← node.readText
      let others := pairs.filter fun pair => pair.1 ≠ "kind"
      checkInterpretable depth (others.map Prod.snd)
      let names ← declarationMembers kind
      declarationOf depth kind (← Record.ofPairs names others)
    | _ => .error (.repeated "kind")
  | depth + 1, .array (first :: rest) => do
    let kind ← first.readText
    checkInterpretable depth rest
    let names ← declarationMembers kind
    declarationOf depth kind (← Record.ofItems names rest)
  | _, _ => .error (.unexpected "a declaration")

/-! ### Files, packages, documents -/

/-- Reads a file. -/
def readFile : Nat → Node → Except Error File
  | 0, _ => .error .tooDeep
  | depth + 1, node => do
    let r ← Record.ofNode ["name", "imports", "decls"] node
    let name ← r.required "name" Node.readText
    let imports ← r.orDefault "imports" [] (Node.readList readImport depth)
    let declarations ← r.orDefault "decls" [] (Node.readList readDeclaration depth)
    return ⟨name, imports, declarations⟩

/-- Reads a package. -/
def readPackage : Nat → Node → Except Error Package
  | 0, _ => .error .tooDeep
  | depth + 1, node => do
    let r ← Record.ofNode ["name", "files"] node
    let name ← r.required "name" Node.readText
    let files ← r.orDefault "files" [] (Node.readList readFile depth)
    return ⟨name, files⟩

/-- Reads a document. -/
def readDocument : Nat → Node → Except Error Document
  | 0, _ => .error .tooDeep
  | depth + 1, node => do
    let r ← Record.ofNode ["packages"] node
    let packages ← r.orDefault "packages" [] (Node.readList readPackage depth)
    return ⟨packages⟩

/-! ### Whole texts -/

/-- The document that a text spells. -/
def Document.ofText (text : List UInt8) : Except Error Document := do
  readDocument Json.nestingLimit (← Node.ofText text)

/-- The type expression that a text spells. -/
def TypeExpr.ofText (text : List UInt8) : Except Error TypeExpr := do
  readTypeExpr false Json.nestingLimit (← Node.ofText text)

/-- The field lines that a text spells. -/
def FieldLine.listOfText (text : List UInt8) : Except Error (List FieldLine) := do
  Node.readList (readFieldLine false) Json.nestingLimit (← Node.ofText text)

/-- The imports that a text spells. -/
def Import.listOfText (text : List UInt8) : Except Error (List Import) := do
  Node.readList readImport Json.nestingLimit (← Node.ofText text)

end ServiceTypes.Source
