import Mathlib.Logic.Relation
import ServiceTypes.Proofs.Imports
import ServiceTypes.Proofs.Typing.Members

/-!
# `ServiceTypes.Proofs.Extraction.Invisible`: invisible parts do not matter

Extraction gives the same registry, the same diagnostics and the same error
for a document and for the document without its invisible parts. The parts
go through the same stages as extraction does:

* `path?_foldl_add_of_unused`: imports that declare nothing for a file leave
  the qualifiers in it alone.
* `extractDeclaration_of_invisible` / `extractDeclaration_trims`: single
  declarations.
* `extractFile_trims` / `extract_trims`: files and packages.
* `extract_eq_of_eqvGen_trims`: documents, with any number of parts taken
  out, put in or exchanged.
-/

set_option autoImplicit false

namespace ServiceTypes

open Source (Declaration Document File Import Package TypeExpr)

/-- A loop passes over the items that do nothing. -/
theorem Without.foldlM_eq {α σ : Type} {gone : α → Prop} {kept : α → α → Prop}
    {xs ys : List α} (h : Without gone kept xs ys) {f g : σ → α → Reported σ}
    (hgone : ∀ s {a}, gone a → f s a = pure s)
    (hkept : ∀ s {a b}, kept a b → b ∈ ys → f s a = g s b) (s : σ) :
    xs.foldlM f s = ys.foldlM g s := by
  induction h generalizing s with
  | nil => rfl
  | keep head _ ih =>
    rw [List.foldlM_cons, List.foldlM_cons, hkept s head List.mem_cons_self]
    congr 1
    funext next
    exact ih (fun s _ _ hab hb => hkept s hab (List.mem_cons_of_mem _ hb)) next
  | drop head _ ih =>
    rw [List.foldlM_cons, hgone s head, pure_bind]
    exact ih hkept s

/-! ### Imports -/

/-- An unused import declares no local name that the declarations refer to. -/
theorem localName?_ne_of_unused {declarations : List Declaration} {i : Import}
    (h : i.Unused declarations) {declaration : Declaration} (hmem : declaration ∈ declarations)
    {name : String} (hname : name ∈ declaration.qualifiers) :
    ImportTable.localName? i ≠ some name := by
  obtain ⟨own, path⟩ := i
  cases h with
  | inl hblank =>
    cases hblank
    intro heq
    cases heq
  | inr hdot =>
    obtain ⟨hown, hfree⟩ := hdot
    cases hown
    intro heq
    rw [← Option.some.inj heq] at hname
    exact hfree declaration hmem hname

/-- Imports that no qualifier uses do not change what a used qualifier stands for. -/
theorem path?_foldl_add_of_unused {declarations : List Declaration}
    {imports imports' : List Import}
    (h : Without (Import.Unused declarations) (· = ·) imports imports')
    {declaration : Declaration} (hmem : declaration ∈ declarations)
    {name : String} (hname : name ∈ declaration.qualifiers) {table table' : ImportTable}
    (htable : table.path? name = table'.path? name) :
    (imports.foldl ImportTable.add table).path? name
      = (imports'.foldl ImportTable.add table').path? name := by
  -- The two tables differ in unused names only, all the way through the imports.
  induction h generalizing table table' with
  | nil => exact htable
  | keep head _ ih =>
    subst head
    refine ih ?_
    rw [ImportTable.path?_add, ImportTable.path?_add, htable]
  | drop head _ ih =>
    refine ih ?_
    rw [ImportTable.path?_add, if_neg (localName?_ne_of_unused head hmem hname), htable]

/-- Without unused imports, a declaration is read in an equivalent scope. -/
theorem agreeOn_ofImports {declarations : List Declaration} {imports imports' : List Import}
    (h : Without (Import.Unused declarations) (· = ·) imports imports')
    {declaration : Declaration} (hmem : declaration ∈ declarations) (path tagKey : String) :
    Scope.AgreeOn declaration.qualifiers ⟨ImportTable.ofImports imports path, tagKey⟩
      ⟨ImportTable.ofImports imports' path, tagKey⟩ where
  ownPath := by
    show (ImportTable.ofImports imports path).ownPath = (ImportTable.ofImports imports' path).ownPath
    rw [ImportTable.ownPath_ofImports, ImportTable.ownPath_ofImports]
  tagKey := rfl
  path name hname := path?_foldl_add_of_unused h hmem hname rfl

/-! ### Declarations -/

section Declarations

variable {options : Options} (path : String) (imports : ImportTable) (registry : Registry)

/-- An invisible declaration does nothing. -/
theorem extractDeclaration_of_invisible {declaration : Declaration}
    (h : declaration.Invisible options) :
    extractDeclaration options path imports registry declaration = pure registry := by
  cases h with
  | func name => rfl
  | value names => rfl
  | @type name underlying hoption hname =>
    have hadmits : ¬ options.admits name = true := by
      unfold Options.admits
      rw [hoption, hname]
      exact Bool.false_ne_true
    exact if_neg hadmits

/-- Members that are not exported do not count. -/
theorem extractDeclaration_trims {declaration declaration' : Declaration}
    (h : declaration.Trims declaration') :
    extractDeclaration options path imports registry declaration
      = extractDeclaration options path imports registry declaration' := by
  cases h with
  | refl => rfl
  | type name htype =>
    cases htype with
    | struct hlines =>
      simp only [extractDeclaration, Scope.fieldsOf_trims _ _ hlines]
    | array length _ => cases length <;> rfl
    | _ => rfl

/-- Only the imports that the declaration refers to count. -/
theorem extractDeclaration_congr {declaration : Declaration} {imports imports' : ImportTable}
    (h : Scope.AgreeOn declaration.qualifiers ⟨imports, options.tagKey⟩
      ⟨imports', options.tagKey⟩) :
    extractDeclaration options path imports registry declaration
      = extractDeclaration options path imports' registry declaration := by
  cases declaration with
  | type name underlying =>
    cases underlying with
    | struct lines =>
      rw [Declaration.qualifiers, TypeExpr.qualifiers] at h
      simp only [extractDeclaration, Scope.fieldsOf_congr _ h]
    | _ => rfl
  | func name => rfl
  | value names => rfl

end Declarations

/-! ### Files, packages and documents -/

section Documents

variable {options : Options} (path : String)

/-- A file and its trimmed form change the registry alike, with the same events. -/
theorem extractFile_trims {file file' : File} (h : file.Trims options file')
    (registry : Registry) :
    extractFile options path registry file = extractFile options path registry file' := by
  unfold extractFile
  rw [h.name]
  congr 1
  funext _
  refine h.declarations.foldlM_eq ?_ ?_ registry
  · intro registry declaration hgone
    exact extractDeclaration_of_invisible path _ registry hgone
  · intro registry declaration declaration' hkept hmem
    -- First the members go away, then the imports, in the file that is left.
    calc extractDeclaration options path _ registry declaration
        = extractDeclaration options path _ registry declaration' :=
          extractDeclaration_trims path _ registry hkept
      _ = extractDeclaration options path _ registry declaration' :=
          extractDeclaration_congr path registry (agreeOn_ofImports h.imports hmem path _)

/-- A package whose files are trimmed gives the same registry and the same events. -/
theorem extract_trims {package package' : Package}
    (h : List.Forall₂ (File.Trims options) package.files package'.files) :
    package.extract path options = package'.extract path options := by
  unfold Source.Package.extract
  congr 1
  funext _
  generalize package.files = files, package'.files = files' at h
  generalize Registry.empty = registry
  induction h generalizing registry with
  | nil => rfl
  | cons head _ ih =>
    rw [List.foldlM_cons, List.foldlM_cons, extractFile_trims path head]
    congr 1
    funext next
    exact ih next

/-- A package is missing if none has its name. -/
theorem package?_eq_none {name : String} {packages : List Package}
    (h : ∀ package ∈ packages, package.name ≠ name) :
    Document.package? ⟨packages⟩ name = none := by
  unfold Document.package?
  rw [List.find?_eq_none]
  intro package hmem
  rw [decide_eq_true_eq]
  exact h package hmem

/-- The first package of a name is found behind packages of other names. -/
theorem package?_append {name : String} {before : List Package}
    (hbefore : ∀ package ∈ before, package.name ≠ name) (files : List File)
    (after : List Package) :
    Document.package? ⟨before ++ ⟨name, files⟩ :: after⟩ name = some ⟨name, files⟩ := by
  have hnone : before.find? (fun package => package.name = name) = none :=
    package?_eq_none hbefore
  unfold Document.package?
  rw [List.find?_append, hnone, Option.none_or]
  exact List.find?_cons_of_pos (decide_eq_true rfl)

/-- A document and its trimmed form give the same registry, the same events or the same error. -/
theorem documentExtract_trims {name : String} {document document' : Document}
    (h : document.Trims options name document') :
    document.extract name path options = document'.extract name path options := by
  unfold Document.extract
  cases h with
  | found hbefore hbefore' hfiles =>
    rw [package?_append hbefore, package?_append hbefore']
    exact congrArg Except.ok (extract_trims path hfiles)
  | absent h h' => rw [package?_eq_none h, package?_eq_none h']

/-- Documents that become the same document without their invisible parts are extracted
alike: with the same registry and the same diagnostics, or with the same error. -/
theorem extract_eq_of_eqvGen_trims {name : String} {document document' : Document}
    (h : Relation.EqvGen (Document.Trims options name) document document') :
    document.extract name path options = document'.extract name path options := by
  induction h with
  | rel _ _ h => exact documentExtract_trims path h
  | refl _ => rfl
  | symm _ _ _ ih => exact ih.symm
  | trans _ _ _ _ _ ih ih' => exact ih.trans ih'

end Documents

/-! ### An example -/

/-- A file with imports, declarations and members that other packages do not see. -/
def accountFile : File where
  name := "account.go"
  imports := [⟨some "_", "driver"⟩, ⟨some ".", "helpers"⟩, ⟨none, "time"⟩]
  declarations :=
    [.func "Open", .type "state" .chan,
      .type "Account" (.struct
        [⟨["id", "Name"], .ident "string", none⟩, ⟨["secret"], .chan, some "broken"⟩,
          ⟨["Limits"], .pointer (.struct
            [⟨["lock"], .func, some "`"⟩, ⟨["Since"], .selector (.ident "time") "Time", none⟩]),
            none⟩])]

/-- The same file without them. -/
def visibleAccountFile : File where
  name := "account.go"
  imports := [⟨none, "time"⟩]
  declarations :=
    [.type "Account" (.struct
      [⟨["Name"], .ident "string", none⟩,
        ⟨["Limits"], .pointer (.struct
          [⟨["Since"], .selector (.ident "time") "Time", none⟩]), none⟩])]

/-- The file is trimmed to the one that shows no member but the visible ones. -/
theorem accountFile_trims : File.Trims {} accountFile visibleAccountFile where
  name := rfl
  imports :=
    .drop (.inl rfl) (.drop (.inr ⟨rfl, by decide⟩) (.keep rfl .nil))
  declarations := by
    have hname : Source.TrimsNames ["id", "Name"] ["Name"] :=
      .inr ⟨⟨"Name", by decide, by decide⟩, .drop (by decide) (.keep rfl .nil)⟩
    have hlimits : Source.LinesTrim
        [⟨["lock"], .func, some "`"⟩, ⟨["Since"], .selector (.ident "time") "Time", none⟩]
        [⟨["Since"], .selector (.ident "time") "Time", none⟩] :=
      .drop (by decide) (by decide) (.refl _)
    refine .drop (.func _) (.drop (.type _ rfl (by decide)) (.keep (.type _ (.struct ?_)) .nil))
    exact .keep _ hname (.refl _) (.drop (by decide) (by decide)
      (.keep _ (.inl rfl) (.pointer (.struct hlimits)) (.refl _)))

/-- Neither the broken members nor a second package of the name are noticed. -/
theorem extract_account :
    Relation.EqvGen (Document.Trims {} "bank")
        ⟨[⟨"main", []⟩, ⟨"bank", [accountFile]⟩, ⟨"bank", []⟩]⟩ ⟨[⟨"bank", [visibleAccountFile]⟩]⟩
      ∧ Document.extract ⟨[⟨"main", []⟩, ⟨"bank", [accountFile]⟩, ⟨"bank", []⟩]⟩ "bank" "bank" {}
        = Document.extract ⟨[⟨"bank", [visibleAccountFile]⟩]⟩ "bank" "bank" {} := by
  have h : Relation.EqvGen (Document.Trims {} "bank")
      ⟨[⟨"main", []⟩, ⟨"bank", [accountFile]⟩, ⟨"bank", []⟩]⟩
      ⟨[⟨"bank", [visibleAccountFile]⟩]⟩ :=
    .rel _ _ (@Document.Trims.found {} "bank" [⟨"main", []⟩] [] [⟨"bank", []⟩] [] _ _
      (by decide) (by decide) (.cons accountFile_trims .nil))
  exact ⟨h, extract_eq_of_eqvGen_trims "bank" h⟩

end ServiceTypes
