import ServiceTypes.Keyed
import ServiceTypes.Source.Document

/-!
# `ServiceTypes.Imports`: the imports of a file

A file refers to other packages by local names. An import may give its
local name itself; otherwise the name is guessed from the last segment
of the path that is not a major version.

* `defaultName` is the guess;
* `ImportTable` maps the local names of one file to package paths, and
  the empty name to the path of the package that the file belongs to;
* `ImportTable.ofImports` enters the imports in source order, so that a
  later import takes a name from an earlier one.
-/

set_option autoImplicit false

namespace ServiceTypes

open Source (Import)

/-! ### Guessed names -/

/-- A segment such as `v2`: the letter and at least one digit. -/
def isMajorVersion : List Char → Bool
  | 'v' :: digits => !digits.isEmpty && digits.all Char.isDigit
  | _ => false

/-- A segment without a suffix such as `.v2`. A segment that consists of nothing else
keeps it. -/
def dropVersionSuffix (segment : List Char) : List Char :=
  let backwards := segment.reverse
  match backwards.takeWhile Char.isDigit, backwards.dropWhile Char.isDigit with
  | _ :: _, 'v' :: '.' :: head => if head.isEmpty then segment else head.reverse
  | _, _ => segment

/-- The last segment of a path that names the package: a major version does not, if
another segment stands before it. -/
def namingSegment (path : List Char) : List Char :=
  match (path.splitOn '/').reverse with
  | last :: previous :: _ => if isMajorVersion last then previous else last
  | [last] => last
  | [] => path

/-- The local name of an import that does not give one. Slashes at the end of its path do
not count. -/
def defaultName (path : String) : String :=
  let path := (path.toList.reverse.dropWhile (· = '/')).reverse
  String.ofList (dropVersionSuffix (namingSegment path))

/-! ### The table of a file -/

/-- The local names of a file. -/
structure ImportTable where
  /-- The path of the package that the file belongs to. -/
  ownPath : String
  /-- The paths of the imported packages by local name. -/
  paths : Keyed String

namespace ImportTable

/-- The local name that an import declares, if it declares one. -/
def localName? (i : Import) : Option String :=
  match i.name with
  | some "_" => none
  | some name => if name.isEmpty then none else some name
  | none =>
    let name := defaultName i.path
    if name.isEmpty then none else some name

/-- Enters one import. -/
def add (table : ImportTable) (i : Import) : ImportTable :=
  match localName? i with
  | some name => { table with paths := table.paths.insert name i.path }
  | none => table

/-- The table of a file's imports. -/
def ofImports (imports : List Import) (ownPath : String) : ImportTable :=
  imports.foldl add ⟨ownPath, Keyed.empty⟩

/-- The path that a local name stands for; the empty name is the file's own package. -/
def path? (table : ImportTable) (name : String) : Option String :=
  if name.isEmpty then some table.ownPath else table.paths.get? name

/-- The path that a local name stands for; a name that stands for nothing is its own
path. -/
def pathOrSelf (table : ImportTable) (name : String) : String :=
  (table.path? name).getD name

end ImportTable

end ServiceTypes
