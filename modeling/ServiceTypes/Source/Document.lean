import ServiceTypes.Source.TypeExpr

/-!
# `ServiceTypes.Source.Document`: parsed source directories

A document holds what a parser found in one source directory: packages
of files of imports and declarations. `Document.package?` looks a
package up by the name in its package clause.
-/

set_option autoImplicit false

namespace ServiceTypes.Source

/-- An import: its explicit local name, if it has one, and the path of the package. -/
structure Import where
  name : Option String
  path : String
  deriving DecidableEq, Repr

/-- A declaration at the top level of a file. -/
inductive Declaration where
  /-- A type declaration. -/
  | type (name : String) (underlying : TypeExpr)
  /-- A function or method. -/
  | func (name : String)
  /-- Variables or constants. -/
  | value (names : List String)

/-- A source file, with imports and declarations in source order. -/
structure File where
  name : String
  imports : List Import
  declarations : List Declaration

/-- A package by the name of its package clause. -/
structure Package where
  name : String
  files : List File

/-- What a parser found in one source directory. -/
structure Document where
  packages : List Package

/-- The first package of a name. -/
def Document.package? (document : Document) (name : String) : Option Package :=
  document.packages.find? fun package => package.name = name

end ServiceTypes.Source
