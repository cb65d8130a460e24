import ServiceTypes.Proofs.Imports
import ServiceTypes.Proofs.Model.Text
import ServiceTypes.Proofs.Typing.Naming

/-!
# `ServiceTypes.Proofs.Typing.Legible`: types read from plain names

Names in source are plain, and so are the paths of packages. A type that is read
from them is known from its text, whatever file it was read in. The theorems:

* `ImportTable.plain_ofImports`: the table of a file holds the paths of its
  imports and its own.
* `Scope.typeOf_legible` / `Scope.fieldsOf_legible`: types that are read from
  plain expressions are legible, and so are the types of fields.
* `Scope.typeOf_text_eq_iff`: such types have the same text exactly if they
  differ in encodings only.
-/

set_option autoImplicit false

namespace ServiceTypes

open Model (Field FieldType IsPath IsWord Scalar)
open Source (FieldLine Import TypeExpr isExported)

/-! ### Plain expressions -/

namespace Source

mutual

/-- All names in an expression are plain: those of fields, those of types, and the ones that are
selected. The names in front of these are plain paths. Map keys refer to no type. -/
def TypeExpr.Plain : TypeExpr → Prop
  | .ident name => IsWord name
  | .pointer target => target.Plain
  | .array _ elem => elem.Plain
  | .map _ value => value.Plain
  | .selector (.ident localName) name => IsPath localName ∧ IsWord name
  | .selector _ name => IsWord name
  | .struct lines => LinesPlain lines
  | .paren inner => inner.Plain
  | .func | .interface | .chan => True
termination_by structural type => type

/-- All names in the lines of a struct are plain. -/
def LinesPlain : List FieldLine → Prop
  | [] => True
  | line :: rest => line.Plain ∧ LinesPlain rest
termination_by structural lines => lines

/-- All names in a line are plain. -/
def FieldLine.Plain : FieldLine → Prop
  | ⟨names, type, _⟩ => (∀ name ∈ names, IsWord name) ∧ type.Plain
termination_by structural line => line

end

end Source

/-! ### Plain paths -/

namespace ImportTable

/-- All paths that local names stand for are plain, and so is the path of the package itself. -/
def Plain (table : ImportTable) : Prop :=
  ∀ name path, table.path? name = some path → IsPath path

/-- The table of a file holds the paths of its imports and the one of its package, and no others. -/
theorem plain_ofImports {imports : List Import} {ownPath : String} (hown : IsPath ownPath)
    (h : ∀ i ∈ imports, IsPath i.path) : (ofImports imports ownPath).Plain := by
  intro name path hpath
  by_cases hname : name = ""
  · -- The empty name stands for the package itself.
    have hself : some (ofImports imports ownPath).ownPath = some path := by
      rw [hname] at hpath
      exact hpath
    rw [ownPath_ofImports] at hself
    rw [← Option.some.inj hself]
    exact hown
  · rw [path?_ofImports imports ownPath hname] at hpath
    obtain ⟨i, hlast, rfl⟩ := Option.map_eq_some_iff.mp hpath
    exact h i (List.mem_filter.mp (List.mem_of_getLast? hlast)).1

/-- The package itself is one of the paths. -/
theorem Plain.ownPath {table : ImportTable} (h : table.Plain) : IsPath table.ownPath :=
  h "" table.ownPath rfl

/-- A local name that stands for no path is plain itself. -/
theorem Plain.pathOrSelf {table : ImportTable} (h : table.Plain) {localName : String}
    (hname : IsPath localName) : IsPath (table.pathOrSelf localName) := by
  unfold ImportTable.pathOrSelf
  cases hpath : table.path? localName with
  | none => exact hname
  | some path => exact h localName path hpath

end ImportTable

/-! ### Types of plain expressions -/

namespace Scope

variable {scope : Scope}

/-- A plain name gives a keyword or a reference into the package of the file. -/
theorem typeOfName_legible (hpaths : scope.imports.Plain) {name : String} (h : IsWord name) :
    (scope.typeOfName name).Legible := by
  unfold typeOfName
  split
  case h_1 => exact .named false hpaths.ownPath h
  case h_2 hkind => exact .scalar false hkind

/-- A plain selector gives a reference to a plain path. -/
theorem typeOfSelector_legible (hpaths : scope.imports.Plain) {field name : String}
    {qualifier : TypeExpr} (hplain : (TypeExpr.selector qualifier name).Plain) {t : FieldType}
    (h : (scope.typeOfSelector field qualifier name).result = some t) : t.Legible := by
  obtain ⟨localName, rfl, rfl⟩ := scope.eq_reference_of_typeOfSelector h
  exact .named false (hpaths.pathOrSelf hplain.1) hplain.2

mutual

/-- A type that is read from a plain expression is legible. -/
theorem typeOf_legible (hpaths : scope.imports.Plain) (field : String) {type : TypeExpr}
    (hplain : type.Plain) {t : FieldType} (h : (scope.typeOf field type).result = some t) :
    t.Legible := by
  match type with
  | .ident name =>
    obtain rfl : scope.typeOfName name = t := Option.some.inj h
    exact typeOfName_legible hpaths hplain
  | .pointer target =>
    obtain ⟨u, hu, rfl⟩ := Option.map_eq_some_iff.mp h
    have htarget : target.Plain := hplain
    exact (typeOf_legible hpaths field htarget hu).pointer
  | .array _ elem =>
    obtain ⟨u, hu, rfl⟩ := Option.map_eq_some_iff.mp h
    have helem : elem.Plain := hplain
    exact .array false (typeOf_legible hpaths field helem hu)
  | .map _ value =>
    obtain ⟨u, hu, rfl⟩ := Option.map_eq_some_iff.mp h
    have hvalue : value.Plain := hplain
    exact .map false (typeOf_legible hpaths field hvalue hu)
  | .selector qualifier name => exact typeOfSelector_legible hpaths hplain h
  | .struct lines =>
    obtain rfl := Option.some.inj h
    have hlines : Source.LinesPlain lines := hplain
    have hfields := fieldsOf_legible hpaths "" hlines
    exact .inline false (fun f hf => (hfields f hf).1) fun f hf => (hfields f hf).2
  | .paren inner =>
    have hinner : inner.Plain := hplain
    have hread : (scope.typeOf field inner).result = some t := h
    exact typeOf_legible hpaths field hinner hread
  | .func | .interface | .chan => cases h
termination_by structural type

/-- The fields of plain lines have plain names and legible types. -/
theorem fieldsOf_legible (hpaths : scope.imports.Plain) (owner : String) {lines : List FieldLine}
    (hplain : Source.LinesPlain lines) :
    ∀ field ∈ (scope.fieldsOf owner lines).result, IsWord field.name ∧ field.type.Legible := by
  match lines with
  | [] => exact List.forall_mem_nil _
  | line :: rest =>
    rw [fieldsOf]
    exact List.forall_mem_append.mpr
      ⟨fieldsOfLine_legible hpaths owner hplain.1, fieldsOf_legible hpaths owner hplain.2⟩
termination_by structural lines

/-- A plain line gives fields with plain names and legible types. -/
theorem fieldsOfLine_legible (hpaths : scope.imports.Plain) (owner : String) {line : FieldLine}
    (hplain : line.Plain) :
    ∀ field ∈ (scope.fieldsOfLine owner line).result,
      IsWord field.name ∧ field.type.Legible := by
  match line with
  | ⟨names, type, tag⟩ =>
    -- Under which name the line is read does not count for its type.
    intro field hfield
    rw [scope.result_fieldsOfLine owner names type tag ""] at hfield
    cases htype : (scope.typeOf "" type).result with
    | none =>
      rw [htype] at hfield
      cases hfield
    | some fieldType =>
      rw [htype] at hfield
      obtain ⟨name, hname, rfl⟩ := List.mem_map.mp hfield
      exact ⟨hplain.1 name (List.mem_filter.mp hname).1,
        typeOf_legible hpaths "" hplain.2 htype⟩
termination_by structural line

end

/-! ### Their texts -/

/-- The type is read from an expression with plain names, in a file with plain package paths. -/
structure ReadsPlain (scope : Scope) (field : String) (type : TypeExpr) (t : FieldType) :
    Prop where
  paths : scope.imports.Plain
  plain : type.Plain
  result : (scope.typeOf field type).result = some t

/-- Types that are read from plain expressions have the same text exactly if they are the same up
to the encodings of fields inside them, whatever the files and the expressions are. -/
theorem typeOf_text_eq_iff {scope other : Scope} {field field' : String} {type type' : TypeExpr}
    {a b : FieldType} (ha : scope.ReadsPlain field type a) (hb : other.ReadsPlain field' type' b) :
    a.text = b.text ↔ a.unencoded = b.unencoded :=
  (typeOf_legible ha.paths field ha.plain ha.result).text_eq_iff
    (typeOf_legible hb.paths field' hb.plain hb.result)

/-- Racks by label, with two types from packages and a tag. -/
def racksType (shelf plan : TypeExpr) (tag : Option String) : TypeExpr :=
  .pointer (.map (.ident "string") (.array none (.struct
    [⟨["Free"], .struct [], none⟩, ⟨["Plan"], .pointer plan, none⟩,
      ⟨["Top", "Base"], shelf, none⟩, ⟨["Height"], .ident "uint8", tag⟩])))

/-- In one file the package itself has the shelves, and the plan is from an import. In the other
file an import has the shelves, and no import has the plan. -/
theorem typeOf_text_racksType :
    let inside : Scope :=
      ⟨ImportTable.ofImports [⟨some "map", "go.dev/v1.2/struct"⟩] "depot/v2.1", "json"⟩
    let outside : Scope := ⟨ImportTable.ofImports [⟨some "depot", "depot/v2.1"⟩] "", "json"⟩
    let type := racksType (.ident "Shelf") (.selector (.ident "map") "Plan")
      (some "`json:\"height\"`")
    let type' := racksType (.paren (.selector (.ident "depot") "Shelf"))
      (.pointer (.selector (.ident "go.dev/v1.2/struct") "Plan")) none
    let text := "*map[string][]struct \x7b Free struct \x7b  \x7d; Plan *go.dev/v1.2/struct.Plan; "
      ++ "Top depot/v2.1.Shelf; Base depot/v2.1.Shelf; Height uint8 \x7d"
    ∃ a b, inside.ReadsPlain "Racks" type a ∧ outside.ReadsPlain "Rows" type' b ∧
      a.text = text ∧ b.text = text ∧ a.unencoded = b.unencoded := by
  intro inside outside type type' text
  have hinside : inside.imports.Plain := ImportTable.plain_ofImports (by decide) (by decide)
  have houtside : outside.imports.Plain := ImportTable.plain_ofImports (by decide) (by decide)
  have hplain : type.Plain ∧ type'.Plain := by
    simp only [type, type', racksType, TypeExpr.Plain, Source.LinesPlain, FieldLine.Plain]
    decide
  obtain ⟨a, ha⟩ : ∃ a, (inside.typeOf "Racks" type).result = some a := ⟨_, rfl⟩
  obtain ⟨b, hb⟩ : ∃ b, (outside.typeOf "Rows" type').result = some b := ⟨_, rfl⟩
  -- The texts are computed, and they tell that the types are the same.
  have htexts : (inside.typeOf "Racks" type).result.map FieldType.text = some text ∧
      (outside.typeOf "Rows" type').result.map FieldType.text = some text := by
    decide +kernel
  rw [ha, hb] at htexts
  have htext : a.text = text := Option.some.inj htexts.1
  have htext' : b.text = text := Option.some.inj htexts.2
  have hread : inside.ReadsPlain "Racks" type a := ⟨hinside, hplain.1, ha⟩
  have hread' : outside.ReadsPlain "Rows" type' b := ⟨houtside, hplain.2, hb⟩
  exact ⟨a, b, hread, hread', htext, htext',
    (typeOf_text_eq_iff hread hread').mp (htext.trans htext'.symm)⟩

end Scope

end ServiceTypes
