import Mathlib.Data.List.Forall2
import ServiceTypes.Extraction

/-!
# `ServiceTypes.Proofs.Source.Trimming`: documents without invisible parts

What other packages cannot see may be taken out of a source document. This
module says what that means, part by part, and independently of the code
that reads documents.

* `Without gone kept`: a list loses the items that are `gone`, and each
  other item becomes one that is `kept` for it.
* `TypeExpr.Trims`: struct types lose names that are not exported, at every
  depth, and the lines that declare no other names.
* `File.Trims`: a file loses declarations and imports as well.
* `Document.Trims`: packages that are not asked for may change at will.
* `TypeExpr.qualifiers`: the local names that an expression refers to.
-/

set_option autoImplicit false

namespace ServiceTypes

/-! ### Shorter lists -/

/-- The second list is the first without items that are `gone`; the items that stay are
`kept` as they are or in a changed form. -/
inductive Without {α : Type} (gone : α → Prop) (kept : α → α → Prop) : List α → List α → Prop
  | nil : Without gone kept [] []
  | keep {a b : α} {as bs : List α} (head : kept a b) (tail : Without gone kept as bs) :
      Without gone kept (a :: as) (b :: bs)
  | drop {a : α} {as bs : List α} (head : gone a) (tail : Without gone kept as bs) :
      Without gone kept (a :: as) bs

namespace Source

/-! ### Type expressions -/

/-- The names of a field line without some that are not exported. A line that declares an
exported name keeps it, and no other line changes, for a line without names embeds a field. -/
def TrimsNames (names fewer : List String) : Prop :=
  fewer = names ∨
    (∃ name ∈ names, isExported name) ∧
      Without (fun name => isExported name = false) (· = ·) names fewer

mutual

/-- The second expression is the first without members that are not exported. -/
inductive TypeExpr.Trims : TypeExpr → TypeExpr → Prop
  | refl (type : TypeExpr) : TypeExpr.Trims type type
  | pointer {target target' : TypeExpr} (h : TypeExpr.Trims target target') :
      TypeExpr.Trims (.pointer target) (.pointer target')
  | array (length : Option String) {elem elem' : TypeExpr} (h : TypeExpr.Trims elem elem') :
      TypeExpr.Trims (.array length elem) (.array length elem')
  | map {key key' value value' : TypeExpr} (hkey : TypeExpr.Trims key key')
      (hvalue : TypeExpr.Trims value value') : TypeExpr.Trims (.map key value) (.map key' value')
  | selector {qualifier qualifier' : TypeExpr} (h : TypeExpr.Trims qualifier qualifier')
      (name : String) : TypeExpr.Trims (.selector qualifier name) (.selector qualifier' name)
  | struct {lines lines' : List FieldLine} (h : LinesTrim lines lines') :
      TypeExpr.Trims (.struct lines) (.struct lines')
  | paren {inner inner' : TypeExpr} (h : TypeExpr.Trims inner inner') :
      TypeExpr.Trims (.paren inner) (.paren inner')

/-- The lines of a struct type without members that are not exported. A line goes away if it
declares names and none of them is exported. -/
inductive LinesTrim : List FieldLine → List FieldLine → Prop
  | refl (lines : List FieldLine) : LinesTrim lines lines
  | keep {names names' : List String} {type type' : TypeExpr} (tag : Option String)
      {lines lines' : List FieldLine} (hnames : TrimsNames names names')
      (htype : TypeExpr.Trims type type') (tail : LinesTrim lines lines') :
      LinesTrim (⟨names, type, tag⟩ :: lines) (⟨names', type', tag⟩ :: lines')
  | drop {line : FieldLine} {lines lines' : List FieldLine} (hne : line.names ≠ [])
      (hline : ∀ name ∈ line.names, isExported name = false) (tail : LinesTrim lines lines') :
      LinesTrim (line :: lines) lines'

end

/-! ### Qualifiers -/

mutual

/-- The local names that qualify the selectors of an expression, at every depth. -/
def TypeExpr.qualifiers : TypeExpr → List String
  | .ident _ | .func | .interface | .chan => []
  | .pointer target => target.qualifiers
  | .array _ elem => elem.qualifiers
  | .map key value => key.qualifiers ++ value.qualifiers
  | .selector (.ident name) _ => [name]
  | .selector qualifier _ => qualifier.qualifiers
  | .struct lines => linesQualifiers lines
  | .paren inner => inner.qualifiers
termination_by structural type => type

/-- The local names that qualify the selectors in the lines of a struct. -/
def linesQualifiers : List FieldLine → List String
  | [] => []
  | line :: rest => lineQualifiers line ++ linesQualifiers rest
termination_by structural lines => lines

/-- The local names that qualify the selectors of a line. -/
def lineQualifiers : FieldLine → List String
  | ⟨_, type, _⟩ => type.qualifiers
termination_by structural line => line

end

/-- The local names that qualify the selectors of a declaration. -/
def Declaration.qualifiers : Declaration → List String
  | .type _ underlying => underlying.qualifiers
  | .func _ | .value _ => []

/-! ### Files and documents -/

/-- The declarations that extraction may not look at: functions, variables and constants,
and types that are not exported if only exported types are wanted. -/
inductive Declaration.Invisible (options : Options) : Declaration → Prop
  | func (name : String) : Declaration.Invisible options (.func name)
  | value (names : List String) : Declaration.Invisible options (.value names)
  | type {name : String} (underlying : TypeExpr) (hoption : options.exportedTypesOnly = true)
      (hname : isExported name = false) : Declaration.Invisible options (.type name underlying)

/-- A declaration whose type loses members that are not exported. -/
inductive Declaration.Trims : Declaration → Declaration → Prop
  | refl (declaration : Declaration) : Declaration.Trims declaration declaration
  | type (name : String) {type type' : TypeExpr} (h : TypeExpr.Trims type type') :
      Declaration.Trims (.type name type) (.type name type')

/-- The imports that declare nothing for the given declarations: those named `_`, and those
named `.` unless a selector is qualified by that text. -/
def Import.Unused (declarations : List Declaration) (i : Import) : Prop :=
  i.name = some "_" ∨
    i.name = some "." ∧ ∀ declaration ∈ declarations, "." ∉ declaration.qualifiers

/-- A file without invisible declarations, members and imports. -/
structure File.Trims (options : Options) (file file' : File) : Prop where
  name : file'.name = file.name
  imports : Without (Import.Unused file'.declarations) (· = ·) file.imports file'.imports
  declarations : Without (Declaration.Invisible options) Declaration.Trims
    file.declarations file'.declarations

/-- A document with only the first package of the given name trimmed. All that is asked of the
other packages is that the first of the name stays the first. -/
inductive Document.Trims (options : Options) (name : String) : Document → Document → Prop
  | found {before before' after after' : List Package} {files files' : List File}
      (hbefore : ∀ package ∈ before, package.name ≠ name)
      (hbefore' : ∀ package ∈ before', package.name ≠ name)
      (hfiles : List.Forall₂ (File.Trims options) files files') :
      Document.Trims options name ⟨before ++ ⟨name, files⟩ :: after⟩
        ⟨before' ++ ⟨name, files'⟩ :: after'⟩
  | absent {packages packages' : List Package}
      (h : ∀ package ∈ packages, package.name ≠ name)
      (h' : ∀ package ∈ packages', package.name ≠ name) :
      Document.Trims options name ⟨packages⟩ ⟨packages'⟩

end Source

end ServiceTypes
