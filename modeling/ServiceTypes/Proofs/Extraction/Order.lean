import Mathlib.Data.List.Forall2
import Mathlib.Data.List.Perm.Basic
import ServiceTypes.Proofs.Extraction.Contents
import ServiceTypes.Proofs.Extraction.Events

/-!
# `ServiceTypes.Proofs.Extraction.Order`: the order of declarations

If a package declares each visible type once, it does not matter in which
order its files stand and in which order the declarations stand in them.
The slots get other numbers and the diagnostics come in another order, but
no look-up and no listing of the registry shows it. The theorems:

* `lastDeclaration?_perm`: with distinct names, the last declaration of a
  name is its only one, wherever it stands.
* `eventsFrom_of_nodup`: with distinct names, each step reports the same
  wherever it stands.
* `sameContents_of_reorders`: reordered packages have registries with the
  same contents, and the same diagnostics in some order.
-/

set_option autoImplicit false

namespace ServiceTypes

open Source (File Package)

/-! ### Reordered packages -/

/-- The second file has the declarations of the first in any order. -/
structure Source.File.Reorders (file file' : File) : Prop where
  name : file'.name = file.name
  imports : file'.imports = file.imports
  declarations : file.declarations.Perm file'.declarations

/-- The second package has the files of the first in any order, and each of them with its
declarations in any order. -/
structure Source.Package.Reorders (package package' : Package) : Prop where
  name : package'.name = package.name
  files : ∃ files, package.files.Perm files ∧ List.Forall₂ File.Reorders files package'.files

/-- A reordered file has the same visible declarations, in some order. -/
theorem Source.File.Reorders.visible_perm {file file' : File} (h : file.Reorders file')
    (options : Options) : (file.visible options).Perm (file'.visible options) := by
  unfold Source.File.visible
  rw [h.imports]
  exact h.declarations.filterMap _

/-- A reordered file takes the same steps, in some order. -/
theorem Source.File.Reorders.steps_perm {file file' : File} (h : file.Reorders file')
    (options : Options) : (file.steps options).Perm (file'.steps options) := by
  unfold Source.File.steps
  rw [h.name]
  exact ((h.visible_perm options).map _).cons _

/-- Files that are reordered one by one take the same steps, in some order. -/
theorem flatMap_steps_perm (options : Options) {files files' : List File}
    (h : List.Forall₂ File.Reorders files files') :
    (files.flatMap (File.steps options)).Perm (files'.flatMap (File.steps options)) := by
  induction h with
  | nil => exact .nil
  | cons head _ ih => exact (head.steps_perm options).append ih

/-- Reordered packages have the same steps, in some order. -/
theorem Source.Package.Reorders.steps_perm {package package' : Package}
    (h : package.Reorders package') (options : Options) :
    (package.steps options).Perm (package'.steps options) := by
  obtain ⟨files, hperm, hfiles⟩ := h.files
  exact (hperm.flatMap_right _).trans (flatMap_steps_perm options hfiles)

/-- Reordered packages have the same visible declarations, in some order. -/
theorem Source.Package.Reorders.visible_perm {package package' : Package}
    (h : package.Reorders package') (options : Options) :
    (package.visible options).Perm (package'.visible options) := by
  rw [← filterMap_steps, ← filterMap_steps]
  exact (h.steps_perm options).filterMap _

/-! ### Distinct names -/

/-- A declaration with a name of its own is the last one of the name. -/
theorem lastDeclaration?_eq_some_iff {ds : List TypeDeclaration}
    (hds : (ds.map TypeDeclaration.name).Nodup) {name : String} {d : TypeDeclaration} :
    lastDeclaration? ds name = some d ↔ d ∈ ds ∧ d.name = name := by
  refine ⟨mem_of_lastDeclaration?, ?_⟩
  rintro ⟨hmem, rfl⟩
  obtain ⟨last, hlast⟩ := Option.isSome_iff_exists.mp
    (lastDeclaration?_isSome_iff.mpr (List.mem_map_of_mem (f := TypeDeclaration.name) hmem))
  obtain ⟨hlastMem, hname⟩ := mem_of_lastDeclaration? hlast
  rw [hlast, List.inj_on_of_nodup_map hds hlastMem hmem hname]

/-- The last declaration of a name is the same in any order. -/
theorem lastDeclaration?_perm {ds es : List TypeDeclaration} (h : ds.Perm es)
    (hds : (ds.map TypeDeclaration.name).Nodup) (name : String) :
    lastDeclaration? ds name = lastDeclaration? es name := by
  have hes : (es.map TypeDeclaration.name).Nodup := (h.map _).nodup_iff.mp hds
  refine Option.ext fun d => ?_
  rw [lastDeclaration?_eq_some_iff hds, lastDeclaration?_eq_some_iff hes, h.mem_iff]

section Nodup

variable (options : Options) (path : String)

/-- What a step reports if the name that it declares is new. -/
def Step.events : Step → List Diagnostic
  | .file name => [.readingFile name]
  | .declaration d => d.events options path

/-- Steps that declare different new names report one after another what each reports. -/
theorem eventsFrom_of_nodup {seen : List String} {steps : List Step}
    (h : (seen ++ stepNames steps).Nodup) :
    eventsFrom options path seen steps = steps.flatMap (Step.events options path) := by
  induction steps generalizing seen with
  | nil => rfl
  | cons step steps ih =>
    cases step with
    | file name =>
      rw [eventsFrom, ih h]
      rfl
    | declaration d =>
      have hnames : (seen ++ [d.name] ++ stepNames steps).Nodup := by
        rw [List.append_assoc]
        exact h
      -- All names differ, so none has been seen before and no duplicate is reported.
      have hnew : d.name ∉ seen := fun hmem =>
        (List.nodup_append.mp h).2.2 d.name hmem d.name List.mem_cons_self rfl
      rw [eventsFrom, if_neg hnew, ih hnames]
      rfl

/-- A package that declares each visible type once has no duplicates to report. -/
theorem events_extract_of_nodup {package : Package}
    (h : ((package.visible options).map TypeDeclaration.name).Nodup) :
    (package.extract path options).events
      = .readingPackage path :: (package.steps options).flatMap (Step.events options path) := by
  rw [events_extract, eventsFrom_of_nodup]
  rw [List.nil_append, stepNames, filterMap_steps]
  exact h

end Nodup

/-! ### The registry and the diagnostics -/

/-- The order of files and declarations shows neither in the contents of the registry nor,
but for their order, in the diagnostics. -/
theorem sameContents_of_reorders {package package' : Package} (h : package.Reorders package')
    {options : Options} (hnames : ((package.visible options).map TypeDeclaration.name).Nodup)
    (path : String) :
    Registry.SameContents (package.extract path options).result
        (package'.extract path options).result
      ∧ (package.extract path options).events.Perm (package'.extract path options).events := by
  have hperm := h.visible_perm options
  have hnames' : ((package'.visible options).map TypeDeclaration.name).Nodup :=
    (hperm.map _).nodup_iff.mp hnames
  constructor
  · rw [result_extract, result_extract]
    have hkeeps := keepsLast_visible package path options
    have hkeeps' := keepsLast_visible package' path options
    -- Under each key both registries hold the struct of the one declaration of its name.
    refine .of_found hkeeps.indexed hkeeps'.indexed fun key => Option.ext fun s => ?_
    simp only [hkeeps.find?_eq_some_iff, hkeeps'.find?_eq_some_iff,
      lastDeclaration?_perm hperm hnames]
  · rw [events_extract_of_nodup options path hnames, events_extract_of_nodup options path hnames']
    exact ((h.steps_perm options).flatMap_right _).cons _

/-- A package of two files, one of which refers to the other. -/
def shopPackage : Package where
  name := "shop"
  files :=
    [⟨"item.go", [], [.func "New", .type "Item" (.struct [⟨["Price"], .ident "Money", none⟩]),
        .type "Colour" .chan]⟩,
      ⟨"money.go", [⟨none, "big"⟩], [.type "Money" (.struct
        [⟨["Cents"], .selector (.ident "big") "Int", none⟩, ⟨[], .func, none⟩])]⟩]

/-- The same package in another order. -/
def reorderedShopPackage : Package where
  name := "shop"
  files :=
    [⟨"money.go", [⟨none, "big"⟩], [.type "Money" (.struct
        [⟨["Cents"], .selector (.ident "big") "Int", none⟩, ⟨[], .func, none⟩])]⟩,
      ⟨"item.go", [], [.type "Colour" .chan, .func "New",
        .type "Item" (.struct [⟨["Price"], .ident "Money", none⟩])]⟩]

/-- The files change places, and so do the declarations in one of them. -/
theorem shopPackage_reorders : shopPackage.Reorders reorderedShopPackage where
  name := rfl
  files := by
    refine ⟨shopPackage.files.reverse, (List.reverse_perm _).symm, .cons ?_ (.cons ?_ .nil)⟩
    · exact ⟨rfl, rfl, .refl _⟩
    · have hmove : ∀ a b c : Source.Declaration, [a, b, c].Perm [c, a, b] := fun a b c =>
        show ([a, b] ++ [c]).Perm ([c] ++ [a, b]) from List.perm_append_comm
      exact ⟨rfl, rfl, hmove _ _ _⟩

/-- Neither order can be told from the other. -/
theorem sameContents_shopPackage :
    (shopPackage.Reorders reorderedShopPackage
        ∧ ((shopPackage.visible {}).map TypeDeclaration.name).Nodup)
      ∧ Registry.SameContents (shopPackage.extract "shop" {}).result
          (reorderedShopPackage.extract "shop" {}).result
      ∧ (shopPackage.extract "shop" {}).events.Perm
          (reorderedShopPackage.extract "shop" {}).events := by
  have hnames : ((shopPackage.visible {}).map TypeDeclaration.name).Nodup := by decide
  exact ⟨⟨shopPackage_reorders, hnames⟩, sameContents_of_reorders shopPackage_reorders hnames "shop"⟩

end ServiceTypes
