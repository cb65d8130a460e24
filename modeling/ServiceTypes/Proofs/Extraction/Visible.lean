import ServiceTypes.Extraction

/-!
# `ServiceTypes.Proofs.Extraction.Visible`: extraction as a fold

Extraction walks over files and declarations, but only the type
declarations that pass the visibility option do anything. `File.visible`
and `Package.visible` list them in order, each with the imports of its
file. The theorems:

* `extractFile_eq_foldlM`: a file is extracted by extracting its visible
  declarations one by one, with all diagnostics.
* `result_extract`: the registry of a package is the fold of
  `registerVisible` over the visible declarations of the package.
* `registerVisible_eq`: one declaration enters its key, and fills the slot
  if it declares a struct.
-/

set_option autoImplicit false

namespace ServiceTypes

open Model (Field Struct qualifiedKey)
open Source (Declaration File Import Package TypeExpr)

/-! ### The result of a fold -/

namespace Reported

variable {α β : Type}

/-- The result of a fold is the fold of the results. -/
theorem result_foldlM (f : β → α → Reported β) (xs : List α) (init : β) :
    (xs.foldlM f init).result = xs.foldl (fun b a => (f b a).result) init := by
  induction xs generalizing init with
  | nil => rfl
  | cons x xs ih =>
    rw [List.foldlM_cons, result_bind, ih, List.foldl_cons]

end Reported

/-! ### Visible declarations -/

/-- A type declaration with the imports of the file it stands in. -/
structure TypeDeclaration where
  name : String
  underlying : TypeExpr
  imports : List Import

/-- The type declaration that a declaration is, if it passes the visibility option. -/
def Source.Declaration.visible? (options : Options) (imports : List Import) :
    Declaration → Option TypeDeclaration
  | .type name underlying =>
    if options.admits name then some ⟨name, underlying, imports⟩ else none
  | .func _ | .value _ => none

/-- The type declarations of a file that pass the visibility option, in order. -/
def Source.File.visible (options : Options) (file : File) : List TypeDeclaration :=
  file.declarations.filterMap (Declaration.visible? options file.imports)

/-- The type declarations of a package that pass the visibility option, in file order and
then in declaration order. -/
def Source.Package.visible (options : Options) (package : Package) : List TypeDeclaration :=
  package.files.flatMap (File.visible options)

namespace TypeDeclaration

/-- The scope in which the declaration is read. -/
def scope (options : Options) (path : String) (d : TypeDeclaration) : Scope :=
  ⟨ImportTable.ofImports d.imports path, options.tagKey⟩

/-- The fields that the declaration gives its struct: those of a struct type, and none
for any other type. -/
def fields (options : Options) (path : String) (d : TypeDeclaration) : List Field :=
  match d.underlying with
  | .struct lines =>
    ((d.scope options path).fieldsOf (qualifiedKey path d.name) lines).result
  | _ => []

end TypeDeclaration

/-- Extracts one visible declaration. -/
def extractVisible (options : Options) (path : String) (registry : Registry)
    (d : TypeDeclaration) : Reported Registry :=
  extractDeclaration options path (ImportTable.ofImports d.imports path) registry
    (.type d.name d.underlying)

/-- The registry after one visible declaration. -/
def registerVisible (options : Options) (path : String) (registry : Registry)
    (d : TypeDeclaration) : Registry :=
  (extractVisible options path registry d).result

/-! ### Extraction reads the visible declarations -/

/-- A declaration that is not visible does nothing. -/
theorem extractDeclaration_eq (options : Options) (path : String) (imports : List Import)
    (registry : Registry) (declaration : Declaration) :
    extractDeclaration options path (ImportTable.ofImports imports path) registry declaration
      = match declaration.visible? options imports with
        | some d => extractVisible options path registry d
        | none => pure registry := by
  cases declaration with
  | type name underlying =>
    by_cases h : options.admits name
    · rw [Declaration.visible?, if_pos h]
      rfl
    · rw [Declaration.visible?, if_neg h]
      exact if_neg h
  | func name => rfl
  | value names => rfl

/-- A file is extracted by its visible declarations, one after another. -/
theorem extractFile_eq_foldlM (options : Options) (path : String) (registry : Registry)
    (file : File) :
    extractFile options path registry file
      = Reported.report (.readingFile file.name) >>= fun _ =>
          (file.visible options).foldlM (extractVisible options path) registry := by
  unfold extractFile Source.File.visible
  rw [List.foldlM_filterMap]
  congr 1
  funext _
  congr 1
  funext registry declaration
  rw [extractDeclaration_eq]
  cases declaration.visible? options file.imports <;> rfl

/-- The registry of a package is built from its visible declarations alone. -/
theorem result_extract (package : Package) (path : String) (options : Options) :
    (package.extract path options).result
      = (package.visible options).foldl (registerVisible options path) Registry.empty := by
  unfold Source.Package.extract Source.Package.visible
  rw [Reported.result_bind, Reported.result_foldlM, List.foldl_flatMap]
  simp only [extractFile_eq_foldlM, Reported.result_bind, Reported.result_foldlM]
  rfl

/-- A visible declaration enters its key. A struct type fills the slot with its fields,
and any other type leaves it empty. -/
theorem registerVisible_eq {options : Options} (path : String) (registry : Registry)
    {d : TypeDeclaration} (h : options.admits d.name) :
    registerVisible options path registry d
      = match d.underlying with
        | .struct _ =>
          (registry.enter path d.name).2.fill (registry.enter path d.name).1
            (d.fields options path)
        | _ => (registry.enter path d.name).2 := by
  obtain ⟨name, underlying, imports⟩ := d
  unfold registerVisible extractVisible extractDeclaration TypeDeclaration.fields
  simp only [if_pos h]
  -- The duplicate report does not touch the registry.
  split <;> cases underlying <;> rfl

end ServiceTypes
