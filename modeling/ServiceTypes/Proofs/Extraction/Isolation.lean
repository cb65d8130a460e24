import ServiceTypes.Proofs.Extraction.Contents
import ServiceTypes.Proofs.Extraction.Events
import ServiceTypes.Proofs.Typing.Lines

/-!
# `ServiceTypes.Proofs.Extraction.Isolation`: changes that stay local

A broken field line costs its own fields and nothing else, and a broken list
of imports cannot be noticed in other files. To say so, a package is written
with a hole, `LinePlace` for the type and the tag of one field line and
`ImportPlace` for the imports of one file, and two fillings of the hole are
compared. The theorems:

* `steps_fill` / `fields_declaration` / `events_declaration`: where the hole
  stands in the steps of the package, in the fields of its declaration and
  in the diagnostics of its declaration.
* `LinePlace.isolated_line`: what two fillings of a line have in common.
* `ImportPlace.LastElsewhere.lastDeclaration?_eq`: where imports do not matter.
* `isolated_changes`: the two together.
-/

set_option autoImplicit false

namespace ServiceTypes

open Model (Field Struct qualifiedKey)
open Source (Declaration FieldLine File Import Package TypeExpr)

/-! ### A package with a hole for a line -/

/-- The place of a field line in a struct declaration of a package: all of the package but the
type and the tag of the line. -/
structure LinePlace where
  packageName : String
  filesBefore : List File
  fileName : String
  imports : List Import
  declarationsBefore : List Declaration
  typeName : String
  linesBefore : List FieldLine
  names : List String
  linesAfter : List FieldLine
  declarationsAfter : List Declaration
  filesAfter : List File

namespace LinePlace

variable (place : LinePlace) (options : Options) (path : String)
variable (type type' : TypeExpr) (tag tag' : Option String)

/-- The lines of the struct with the hole filled. -/
def lines : List FieldLine :=
  place.linesBefore ++ ⟨place.names, type, tag⟩ :: place.linesAfter

/-- The package with the hole filled. -/
def fill : Package where
  name := place.packageName
  files := place.filesBefore ++
    ⟨place.fileName, place.imports, place.declarationsBefore ++
      .type place.typeName (.struct (place.lines type tag)) :: place.declarationsAfter⟩ ::
    place.filesAfter

/-- The declaration around the hole. -/
def declaration : TypeDeclaration :=
  ⟨place.typeName, .struct (place.lines type tag), place.imports⟩

/-- The scope in which the line is read. -/
def scope : Scope :=
  ⟨ImportTable.ofImports place.imports path, options.tagKey⟩

/-- What lines of the struct give and report. -/
def readLines (lines : List FieldLine) : Reported (List Field) :=
  (place.scope options path).fieldsOf (qualifiedKey path place.typeName) lines

/-- What the line alone gives and reports. The lines of a declaration that is not visible are
not read. -/
def read : Reported (List Field) :=
  if options.admits place.typeName then place.readLines options path [⟨place.names, type, tag⟩]
  else pure []

/-! ### Where the hole stands -/

/-- The steps up to the declaration around the hole. -/
def stepsBefore : List Step :=
  place.filesBefore.flatMap (File.steps options) ++ .file place.fileName ::
    (place.declarationsBefore.filterMap
      (Declaration.visible? options place.imports)).map .declaration

/-- The steps behind the declaration around the hole. -/
def stepsAfter : List Step :=
  (place.declarationsAfter.filterMap
      (Declaration.visible? options place.imports)).map .declaration
    ++ place.filesAfter.flatMap (File.steps options)

/-- The fields of the line that are left in the registry: none if a later declaration of the
same name replaces the struct. -/
def kept : List Field :=
  if place.typeName ∈ stepNames (place.stepsAfter options) then []
  else (place.read options path type tag).result

/-- The filled declaration is one step between the steps before it and those behind it, if it is
visible. -/
theorem steps_fill :
    (place.fill type tag).steps options
      = place.stepsBefore options
        ++ (if options.admits place.typeName then
            [Step.declaration (place.declaration type tag)] else [])
        ++ place.stepsAfter options := by
  unfold fill stepsBefore stepsAfter Source.Package.steps
  rw [List.flatMap_append, List.flatMap_cons]
  show _ ++ (Step.file place.fileName :: List.map _ (List.filterMap _ _) ++ _) = _
  rw [List.filterMap_append, List.filterMap_cons, Declaration.visible?]
  split <;> simp_all [declaration]

/-- What is reported up to the line, if it is read. -/
def eventsBefore : List Diagnostic :=
  .readingPackage path :: eventsFrom options path [] (place.stepsBefore options)
    ++ (if place.typeName ∈ stepNames (place.stepsBefore options) then
        [.duplicateType (qualifiedKey path place.typeName)] else [])
    ++ .readingStruct (qualifiedKey path place.typeName) ::
      (place.readLines options path place.linesBefore).events

/-- What is reported behind the line, if it is read. -/
def eventsAfter : List Diagnostic :=
  (place.readLines options path place.linesAfter).events
    ++ eventsFrom options path (stepNames (place.stepsBefore options) ++ [place.typeName])
      (place.stepsAfter options)

section Filled

variable {place options path type type' tag tag'}

/-- A line that is not read leaves no trace. -/
theorem extract_fill_of_hidden (h : ¬ options.admits place.typeName) :
    (place.fill type tag).extract path options = (place.fill type' tag').extract path options := by
  rw [extract_eq_foldlM, extract_eq_foldlM, steps_fill, steps_fill, if_neg h, if_neg h]

/-- The filled declaration is visible between those before it and those behind it. -/
theorem visible_fill (h : options.admits place.typeName) :
    (place.fill type tag).visible options
      = (place.stepsBefore options).filterMap Step.declaration?
        ++ [place.declaration type tag]
        ++ (place.stepsAfter options).filterMap Step.declaration? := by
  rw [← filterMap_steps, steps_fill, if_pos h, List.filterMap_append, List.filterMap_append]
  rfl

/-- The fields of the line stand between those of the lines before it and behind it. -/
theorem fields_declaration (h : options.admits place.typeName) :
    (place.declaration type tag).fields options path
      = (place.readLines options path place.linesBefore).result
        ++ (place.read options path type tag).result
        ++ (place.readLines options path place.linesAfter).result := by
  unfold read readLines
  rw [if_pos h, List.append_assoc, ← Scope.result_fieldsOf_append,
    ← Scope.result_fieldsOf_append]
  rfl

/-- The diagnostics of the line stand between those of the lines before it and behind it. -/
theorem events_declaration (h : options.admits place.typeName) :
    (place.declaration type tag).events options path
      = .readingStruct (qualifiedKey path place.typeName) ::
          (place.readLines options path place.linesBefore).events
        ++ (place.read options path type tag).events
        ++ (place.readLines options path place.linesAfter).events := by
  unfold read readLines
  rw [if_pos h, List.append_assoc, ← Scope.events_fieldsOf_append, List.cons_append,
    ← Scope.events_fieldsOf_append]
  rfl

/-- Nothing but the diagnostics of the line depends on what it says. -/
theorem events_fill (h : options.admits place.typeName) :
    ((place.fill type tag).extract path options).events
      = place.eventsBefore options path ++ (place.read options path type tag).events
        ++ place.eventsAfter options path := by
  -- The declaration has the same name whatever the line says, so the steps behind it report
  -- the same.
  rw [events_extract, steps_fill, if_pos h, eventsFrom_declaration, events_declaration h,
    List.nil_append, eventsBefore, eventsAfter]
  simp only [List.append_assoc, List.cons_append]
  rfl

/-! ### The registry -/

/-- The declaration around the hole is the last of its name unless the name is declared behind
it, and it is not one of any other name. -/
theorem lastDeclaration?_fill (h : options.admits place.typeName) (name : String) :
    lastDeclaration? ((place.fill type tag).visible options) name
      = (lastDeclaration? ((place.stepsAfter options).filterMap Step.declaration?) name).or
          (if name = place.typeName then some (place.declaration type tag)
          else lastDeclaration? ((place.stepsBefore options).filterMap Step.declaration?) name) := by
  rw [visible_fill h, lastDeclaration?_append, lastDeclaration?_concat]
  rfl

/-- The slots do not depend on the line. -/
theorem idOf?_fill (h : options.admits place.typeName) (key : String) :
    ((place.fill type tag).extract path options).result.idOf? key
      = ((place.fill type' tag').extract path options).result.idOf? key := by
  rw [result_extract, result_extract]
  refine (keepsLast_visible _ path options).idOf?_congr (keepsLast_visible _ path options) ?_ key
  rw [visible_fill h, visible_fill h]
  simp only [List.map_append]
  rfl

/-- What is found under the key of another name does not depend on the line. -/
theorem find?_fill_of_ne (h : options.admits place.typeName) {key : String}
    (hkey : key ≠ qualifiedKey path place.typeName) :
    ((place.fill type tag).extract path options).result.find? key
      = ((place.fill type' tag').extract path options).result.find? key := by
  refine find?_extract_congr fun name hname => ?_
  have hne : name ≠ place.typeName := fun heq => hkey (by rw [← hname, heq])
  rw [lastDeclaration?_fill h, lastDeclaration?_fill h, if_neg hne, if_neg hne]

/-- A later declaration of the name replaces the struct with all its fields. -/
theorem find?_fill_of_later {later : TypeDeclaration}
    (h : options.admits place.typeName)
    (hlast : lastDeclaration? ((place.stepsAfter options).filterMap Step.declaration?)
      place.typeName = some later) :
    ((place.fill type tag).extract path options).result.find? (qualifiedKey path place.typeName)
      = some (later.struct options path) := by
  rw [result_extract, (keepsLast_visible _ path options).find?_eq, lastDeclaration?_fill h, hlast]
  rfl

/-- Without a later declaration of the name, the struct is the one with the line. -/
theorem find?_fill_of_last (h : options.admits place.typeName)
    (hlast : lastDeclaration? ((place.stepsAfter options).filterMap Step.declaration?)
      place.typeName = none) :
    ((place.fill type tag).extract path options).result.find? (qualifiedKey path place.typeName)
      = some ((place.declaration type tag).struct options path) := by
  rw [result_extract, (keepsLast_visible _ path options).find?_eq, lastDeclaration?_fill h, hlast,
    if_pos rfl]
  rfl

end Filled

end LinePlace

/-! ### What two fillings have in common -/

/-- Two extractions are the same but for some fields of the struct under one key and for some
diagnostics. -/
structure IsolatedAt (key : String) (kept kept' : List Field)
    (reported reported' : List Diagnostic) (r r' : Reported Registry) : Prop where
  /-- The same keys have the same slots. -/
  keys : ∀ other, r.result.idOf? other = r'.result.idOf? other
  /-- Under any other key the same struct is found. -/
  others : ∀ other, other ≠ key → r.result.find? other = r'.result.find? other
  /-- Under the key only the given fields differ. -/
  fields : ∀ s s', r.result.find? key = some s → r'.result.find? key = some s' →
    s.name = s'.name ∧ s.package = s'.package ∧
      ∃ before after, s.fields = before ++ kept ++ after ∧ s'.fields = before ++ kept' ++ after
  /-- Only the given diagnostics differ. -/
  events : ∃ before after,
    r.events = before ++ reported ++ after ∧ r'.events = before ++ reported' ++ after

namespace LinePlace

variable (place : LinePlace) (options : Options) (path : String)
variable (type type' : TypeExpr) (tag tag' : Option String)

/-- The fields of the struct under the key of the declaration, with those of the line in their
place. -/
theorem exists_fields_fill (h : options.admits place.typeName) :
    ∃ before after, ∀ type tag, ∃ s,
      ((place.fill type tag).extract path options).result.find?
          (qualifiedKey path place.typeName) = some s ∧
        s.name = place.typeName ∧ s.package = path ∧
        s.fields = before ++ place.kept options path type tag ++ after := by
  cases hlast : lastDeclaration? ((place.stepsAfter options).filterMap Step.declaration?)
      place.typeName with
  | some later =>
    -- A later declaration of the name takes the place of this one, and the line is not in it.
    have hlater : place.typeName ∈ stepNames (place.stepsAfter options) :=
      lastDeclaration?_isSome_iff.mp (Option.isSome_of_eq_some hlast)
    refine ⟨later.fields options path, [], fun type tag =>
      ⟨_, find?_fill_of_later h hlast, (mem_of_lastDeclaration? hlast).2, rfl, ?_⟩⟩
    rw [kept, if_pos hlater, List.append_nil, List.append_nil]
    rfl
  | none =>
    -- The declaration is the last of its name, and the struct has its fields.
    have hlater : place.typeName ∉ stepNames (place.stepsAfter options) := by
      rw [stepNames, ← lastDeclaration?_isSome_iff, hlast]
      exact Bool.false_ne_true
    refine ⟨(place.readLines options path place.linesBefore).result,
      (place.readLines options path place.linesAfter).result, fun type tag =>
      ⟨_, find?_fill_of_last h hlast, rfl, rfl, ?_⟩⟩
    rw [kept, if_neg hlater]
    exact fields_declaration h

/-- What the line says shows in its own fields and diagnostics only. -/
theorem isolated_line :
    IsolatedAt (qualifiedKey path place.typeName)
      (place.kept options path type tag) (place.kept options path type' tag')
      (place.read options path type tag).events (place.read options path type' tag').events
      ((place.fill type tag).extract path options)
      ((place.fill type' tag').extract path options) := by
  by_cases h : options.admits place.typeName
  · obtain ⟨before, after, hfields⟩ := place.exists_fields_fill options path h
    exact {
      keys := idOf?_fill h
      others := fun _ hkey => find?_fill_of_ne h hkey
      fields := fun s s' hs hs' => by
        obtain ⟨t, ht, hname, hpackage, heq⟩ := hfields type tag
        obtain ⟨t', ht', hname', hpackage', heq'⟩ := hfields type' tag'
        obtain rfl := Option.some.inj (hs.symm.trans ht)
        obtain rfl := Option.some.inj (hs'.symm.trans ht')
        exact ⟨hname.trans hname'.symm, hpackage.trans hpackage'.symm, before, after, heq, heq'⟩
      events := ⟨_, _, events_fill h, events_fill h⟩ }
  · -- Nothing differs, and the line contributes nothing to either side.
    have hread : ∀ type tag, place.read options path type tag = pure [] := fun _ _ => if_neg h
    have hkept : ∀ type tag, place.kept options path type tag = [] := fun type tag => by
      rw [kept, hread]
      exact ite_self _
    have hsame : (place.fill type tag).extract path options
        = (place.fill type' tag').extract path options := extract_fill_of_hidden h
    rw [hsame, hkept, hkept, hread, hread]
    generalize (place.fill type' tag').extract path options = r
    exact {
      keys := fun _ => rfl
      others := fun _ _ => rfl
      fields := fun s s' hs hs' => by
        obtain rfl := Option.some.inj (hs.symm.trans hs')
        exact ⟨rfl, rfl, s.fields, [], by simp, by simp⟩
      events := ⟨r.events, [], by simp, by simp⟩ }

end LinePlace

/-! ### A package with a hole for imports -/

/-- Some declaration is a visible type of the name. -/
def Declares (options : Options) (declarations : List Declaration) (name : String) : Prop :=
  options.admits name ∧ ∃ underlying, Declaration.type name underlying ∈ declarations

/-- A file has a visible declaration of each name that it declares, whatever it imports. -/
theorem declares_iff {options : Options} {file : File} {name : String} :
    name ∈ (file.visible options).map TypeDeclaration.name
      ↔ Declares options file.declarations name := by
  rw [List.mem_map]
  constructor
  · rintro ⟨d, hd, rfl⟩
    obtain ⟨declaration, hmem, hvisible⟩ := List.mem_filterMap.mp hd
    -- Only a type declaration is visible, and only if its name is admitted.
    cases declaration with
    | type name underlying =>
      rw [Declaration.visible?] at hvisible
      split at hvisible
      case isTrue hadmits =>
        obtain rfl := Option.some.inj hvisible
        exact ⟨hadmits, underlying, hmem⟩
      case isFalse => cases hvisible
    | func name => cases hvisible
    | value names => cases hvisible
  · rintro ⟨hadmits, underlying, hmem⟩
    exact ⟨⟨name, underlying, file.imports⟩,
      List.mem_filterMap.mpr ⟨_, hmem, if_pos hadmits⟩, rfl⟩

/-- The place of the import list of a file in a package. -/
structure ImportPlace where
  packageName : String
  filesBefore : List File
  fileName : String
  declarations : List Declaration
  filesAfter : List File

namespace ImportPlace

variable (place : ImportPlace) (options : Options) (path : String)

/-- The package with the hole filled. -/
def fill (imports : List Import) : Package where
  name := place.packageName
  files := place.filesBefore ++ ⟨place.fileName, imports, place.declarations⟩ :: place.filesAfter

/-- The last declaration of a name stands in another file: a later file declares the name, or
this file does not. -/
def LastElsewhere (name : String) : Prop :=
  (∃ later ∈ place.filesAfter, Declares options later.declarations name) ∨
    ¬ Declares options place.declarations name

/-- The last declaration of a name is looked for in the later files, then in the file with the
imports, then in the earlier ones. -/
theorem lastDeclaration?_fill (imports : List Import) (name : String) :
    lastDeclaration? ((place.fill imports).visible options) name
      = (lastDeclaration? (place.filesAfter.flatMap (File.visible options)) name).or
          ((lastDeclaration? (File.visible options ⟨place.fileName, imports, place.declarations⟩)
              name).or
            (lastDeclaration? (place.filesBefore.flatMap (File.visible options)) name)) := by
  unfold fill Source.Package.visible
  rw [List.flatMap_append, List.flatMap_cons, lastDeclaration?_append, lastDeclaration?_append,
    Option.or_assoc]

variable {place options}

/-- A declaration that stands in another file hides the file, or the file has none to show. -/
theorem LastElsewhere.lastDeclaration?_eq {name : String} (h : place.LastElsewhere options name)
    (imports imports' : List Import) :
    lastDeclaration? ((place.fill imports).visible options) name
      = lastDeclaration? ((place.fill imports').visible options) name := by
  rw [lastDeclaration?_fill, lastDeclaration?_fill]
  cases h with
  | inl hlater =>
    -- A later file has the last declaration, which the change does not reach.
    obtain ⟨later, hmem, hdeclares⟩ := hlater
    obtain ⟨d, hd, hname⟩ := List.mem_map.mp (declares_iff.mpr hdeclares)
    have hdeclared : name ∈ (place.filesAfter.flatMap (File.visible options)).map
        TypeDeclaration.name :=
      List.mem_map.mpr ⟨d, List.mem_flatMap.mpr ⟨later, hmem, hd⟩, hname⟩
    obtain ⟨last, hlast⟩ := Option.isSome_iff_exists.mp (lastDeclaration?_isSome_iff.mpr hdeclared)
    rw [hlast, Option.some_or, Option.some_or]
  | inr hnot =>
    -- The file does not declare the name, whatever it imports.
    have hnone : ∀ imports, lastDeclaration?
        (File.visible options ⟨place.fileName, imports, place.declarations⟩) name = none := by
      intro imports
      rw [← Option.not_isSome_iff_eq_none, lastDeclaration?_isSome_iff, declares_iff]
      exact hnot
    rw [hnone, hnone]

end ImportPlace

/-! ### Both kinds of change -/

/-- What a field line says shows in its own fields and diagnostics only, and what a file imports
shows only in structs whose last declaration stands in the file. -/
theorem isolated_changes (options : Options) (path : String) :
    (∀ (place : LinePlace) (type type' : TypeExpr) (tag tag' : Option String),
      IsolatedAt (qualifiedKey path place.typeName)
        (place.kept options path type tag) (place.kept options path type' tag')
        (place.read options path type tag).events (place.read options path type' tag').events
        ((place.fill type tag).extract path options)
        ((place.fill type' tag').extract path options))
      ∧ ∀ (place : ImportPlace) (imports imports' : List Import) (name : String),
        place.LastElsewhere options name →
          ((place.fill imports).extract path options).result.find? (qualifiedKey path name)
            = ((place.fill imports').extract path options).result.find?
                (qualifiedKey path name) := by
  constructor
  · intro place type type' tag tag'
    exact place.isolated_line options path type type' tag tag'
  · intro place imports imports' name h
    -- Structs under one key come from declarations of one name.
    refine find?_extract_congr fun other hother => ?_
    rw [qualifiedKey_inj hother]
    exact h.lastDeclaration?_eq imports imports'

/-- A struct with room for the type of its price. -/
def pricePlace : LinePlace where
  packageName := "shop"
  filesBefore := [⟨"old.go", [], [.type "Item" .chan]⟩]
  fileName := "item.go"
  imports := []
  declarationsBefore := [.func "New"]
  typeName := "Item"
  linesBefore := [⟨["Name"], .ident "string", none⟩]
  names := ["Price"]
  linesAfter := [⟨["Weight"], .ident "int", none⟩]
  declarationsAfter := []
  filesAfter := []

/-- A file with room for imports, behind which another file declares one of its types again. -/
def moneyPlace : ImportPlace where
  packageName := "shop"
  filesBefore := []
  fileName := "money.go"
  declarations := [.type "Money" (.struct [⟨["Cents"], .selector (.ident "big") "Int", none⟩])]
  filesAfter := [⟨"new.go", [], [.type "Money" (.struct [⟨["Euros"], .ident "int", none⟩])]⟩]

/-- A price without a model costs the price, and a missing import costs nothing. -/
theorem isolated_price :
    IsolatedAt "shop.Item" [] [⟨"Price", .ofKeyword .number "int", none⟩]
        [.unsupportedExpr "Price" .chan] []
        ((pricePlace.fill .chan none).extract "shop" {})
        ((pricePlace.fill (.ident "int") none).extract "shop" {})
      ∧ moneyPlace.LastElsewhere {} "Money"
      ∧ ((moneyPlace.fill []).extract "shop" {}).result.find? "shop.Money"
        = ((moneyPlace.fill [⟨none, "math/big"⟩]).extract "shop" {}).result.find? "shop.Money" := by
  have hmoney : moneyPlace.LastElsewhere {} "Money" :=
    .inl ⟨_, List.mem_singleton_self _, by decide, _, List.mem_singleton_self _⟩
  exact ⟨(isolated_changes {} "shop").1 pricePlace .chan (.ident "int") none none, hmoney,
    (isolated_changes {} "shop").2 moneyPlace [] [⟨none, "math/big"⟩] "Money" hmoney⟩

end ServiceTypes
