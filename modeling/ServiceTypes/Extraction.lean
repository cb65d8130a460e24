import ServiceTypes.Registry
import ServiceTypes.Typing

/-!
# `ServiceTypes.Extraction`: the structs of a package

All type declarations of a package that pass the visibility option are
entered into one registry, file by file and declaration by declaration.
A later declaration of a name replaces an earlier one. A declaration of
something else than a struct is entered without fields.

* `extractDeclaration` and `extractFile` are the steps;
* `Package.extract` gives the registry of a package with the
  diagnostics, `Document.extract` that of a package of a document.
-/

set_option autoImplicit false

namespace ServiceTypes

open Reported (report)
open Source (Declaration Document File Package isExported)

/-- What to extract. -/
structure Options where
  /-- The key of the tag entry that holds the encoding. -/
  tagKey : String := "json"
  /-- Whether only exported type declarations are entered. -/
  exportedTypesOnly : Bool := true
  deriving DecidableEq, Repr

/-- Whether a type declaration of a name is entered. -/
def Options.admits (options : Options) (name : String) : Bool :=
  !options.exportedTypesOnly || isExported name

/-- Enters one declaration of a file. -/
def extractDeclaration (options : Options) (path : String) (imports : ImportTable)
    (registry : Registry) : Declaration → Reported Registry
  | .type name underlying => do
    if options.admits name then
      let key := Model.qualifiedKey path name
      if registry.contains key then
        report (.duplicateType key)
      let (id, registry) := registry.enter path name
      match underlying with
      | .struct lines => do
        report (.readingStruct key)
        let fields ← Scope.fieldsOf ⟨imports, options.tagKey⟩ key lines
        return registry.fill id fields
      | other => do
        report (.notAStruct key other.form)
        return registry
    else return registry
  | .func _ | .value _ => pure registry

/-- Enters the declarations of a file. -/
def extractFile (options : Options) (path : String) (registry : Registry) (file : File) :
    Reported Registry := do
  report (.readingFile file.name)
  file.declarations.foldlM
    (extractDeclaration options path (ImportTable.ofImports file.imports path)) registry

/-- The registry of a package, whose structs are qualified by the given path. -/
def Source.Package.extract (package : Package) (path : String) (options : Options) :
    Reported Registry := do
  report (.readingPackage path)
  package.files.foldlM (extractFile options path) Registry.empty

/-- Why there is no registry. -/
inductive ExtractionError where
  /-- The text of the document is refused. -/
  | document (cause : Json.Error)
  /-- The document has no package of the name. -/
  | packageNotFound (name : String)
  deriving DecidableEq, Repr

/-- What is wrong, in words. -/
def ExtractionError.message : ExtractionError → String
  | .document cause => "invalid parsed package document: " ++ cause.message
  | .packageNotFound name => "package not found: " ++ name

/-- The registry of the first package of a name. -/
def Source.Document.extract (document : Document) (name path : String) (options : Options) :
    Except ExtractionError (Reported Registry) :=
  match document.package? name with
  | some package => .ok (package.extract path options)
  | none => .error (.packageNotFound name)

end ServiceTypes
