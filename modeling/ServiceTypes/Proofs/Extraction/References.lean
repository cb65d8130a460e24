import ServiceTypes.Proofs.Extraction.WellFormed
import ServiceTypes.Proofs.Model.Text
import ServiceTypes.Proofs.Typing.References

/-!
# `ServiceTypes.Proofs.Extraction.References`: references resolve exactly

A reference is looked up by its key, which is the package path, a dot and the
name. Package paths have dots of their own, so the key tells the two parts
apart only because names have none. The theorems:

* `KeepsLast.resolve_eq_some_iff`: what a reference with a dotless name stands
  for in the registry of a list of declarations.
* `name_mem_of_references`: the references inside a registered struct have
  names that stand in its declaration.
* `resolve_extract`: a reference inside a registered struct resolves exactly
  if it points into the package and its name is declared there.
-/

set_option autoImplicit false

namespace ServiceTypes

open Model (QualifiedName Struct qualifiedKey)
open Source (Package)

/-! ### Look-up by qualified name -/

/-- A qualified name with a dotless name stands for the last declaration of the name, and only
in its own package. -/
theorem KeepsLast.resolve_eq_some_iff {options : Options} {path : String}
    {ds : List TypeDeclaration} {r : Registry} (hr : KeepsLast options path ds r)
    (hds : ∀ d ∈ ds, Dotless d.name) {target : QualifiedName} (htarget : Dotless target.name)
    (s : Struct) :
    r.resolve target = some s ↔
      target.package = path ∧
        ∃ d, lastDeclaration? ds target.name = some d ∧ d.struct options path = s := by
  obtain ⟨package, name⟩ := target
  show r.find? (qualifiedKey package name) = some s ↔ _
  rw [hr.find?_eq_some_iff]
  constructor
  · rintro ⟨d, hlast, hkey, hstruct⟩
    have hdotless := hds d (mem_of_lastDeclaration? hlast).1
    -- Where names have no dots, the last dot of a key tells the package from the name.
    obtain ⟨rfl, rfl⟩ := qualifiedKey_inj_of_dotless hdotless htarget hkey
    exact ⟨rfl, d, hlast, hstruct⟩
  · rintro ⟨rfl, d, hlast, hstruct⟩
    obtain ⟨-, rfl⟩ := mem_of_lastDeclaration? hlast
    exact ⟨d, hlast, rfl, hstruct⟩

/-! ### References of a package -/

/-- No declared type name, and no name by which a declaration refers to a type, has a dot. -/
def Source.Package.Dotless (options : Options) (package : Package) : Prop :=
  ∀ d ∈ package.visible options,
    ServiceTypes.Dotless d.name ∧ ∀ name ∈ d.underlying.names, ServiceTypes.Dotless name

/-- The references inside the struct of a declaration have names that stand in the
declaration. -/
theorem name_mem_of_references {options : Options} {path : String} {d : TypeDeclaration}
    {target : QualifiedName} (h : target ∈ (d.struct options path).references) :
    target.name ∈ d.underlying.names := by
  obtain ⟨field, hfield, t, ht, htarget⟩ := Struct.mem_references h
  obtain ⟨name, underlying, imports⟩ := d
  cases underlying with
  | struct lines =>
    rw [Source.TypeExpr.names]
    exact Scope.fieldsOf_refersWithin _ _ lines field hfield t ht target htarget
  | _ => cases hfield

/-- A reference at any depth of a registered struct resolves exactly if it points to the path of
the package and a visible declaration has its name, wherever that declaration stands. It then
resolves to a struct of just that package and that name. -/
theorem resolve_extract {package : Package} {path : String} {options : Options}
    (h : package.Dotless options) {id : SlotId} {s : Struct}
    (hs : (package.extract path options).result.slot? id = some s) {target : QualifiedName}
    (htarget : target ∈ s.references) :
    (((package.extract path options).result.resolve target).isSome ↔
        target.package = path ∧ ∃ d ∈ package.visible options, d.name = target.name) ∧
      ∀ found, (package.extract path options).result.resolve target = some found →
        found.package = target.package ∧ found.name = target.name := by
  have hr := keepsLast_extract package path options
  -- The reference is written in a visible declaration, where all names are without dots.
  have hdotless : ServiceTypes.Dotless target.name := by
    obtain ⟨d, hd, -, rfl⟩ := hr.exists_of_slot? hs
    exact (h d hd).2 _ (name_mem_of_references htarget)
  have hresolve := hr.resolve_eq_some_iff (fun d hd => (h d hd).1) hdotless
  constructor
  · rw [Option.isSome_iff_exists]
    constructor
    · rintro ⟨found, hfound⟩
      obtain ⟨hpath, d, hlast, -⟩ := (hresolve found).mp hfound
      exact ⟨hpath, d, mem_of_lastDeclaration? hlast⟩
    · rintro ⟨hpath, hdeclared⟩
      have hlast := lastDeclaration?_isSome_iff.mpr (List.mem_map.mpr hdeclared)
      obtain ⟨d, hd⟩ := Option.isSome_iff_exists.mp hlast
      exact ⟨_, (hresolve _).mpr ⟨hpath, d, hd, rfl⟩⟩
  · intro found hfound
    obtain ⟨hpath, d, hlast, rfl⟩ := (hresolve found).mp hfound
    exact ⟨hpath.symm, (mem_of_lastDeclaration? hlast).2⟩

/-! ### An example -/

/-- A package whose first struct refers to itself, to a struct of a later file through an alias of
the package's own path, and to a struct of the same name in another package. -/
def chainPackage : Package where
  name := "chain"
  files :=
    [⟨"link.go", [⟨some "self", "go.dev/v1.2/chain"⟩, ⟨some "other", "go.dev/v1.2"⟩],
        [.type "Link" (.struct
          [⟨["Next"], .pointer (.ident "Link"), none⟩,
            ⟨["Ends"], .array none (.struct
              [⟨["Own"], .map (.ident "string") (.selector (.ident "self") "End"), none⟩,
                ⟨["Other"], .selector (.ident "other") "End", none⟩]), none⟩])]⟩,
      ⟨"end.go", [], [.type "End" .interface, .type "end" (.ident "Link")]⟩]

/-- No name in the package has a dot, although its paths have. -/
theorem dotless_chainPackage : chainPackage.Dotless {} := by
  unfold Source.Package.Dotless
  decide

/-- The struct resolves itself and the later one, but nothing of the other package, although the
paths of both have dots. -/
theorem resolve_chainPackage :
    let r := (chainPackage.extract "go.dev/v1.2/chain" {}).result
    ∃ s, r.slot? ⟨0⟩ = some s ∧
      s.references = [⟨"go.dev/v1.2/chain", "Link"⟩, ⟨"go.dev/v1.2/chain", "End"⟩,
        ⟨"go.dev/v1.2", "End"⟩] ∧
      (r.resolve ⟨"go.dev/v1.2/chain", "Link"⟩).isSome ∧
      (r.resolve ⟨"go.dev/v1.2/chain", "End"⟩).isSome ∧
      ¬ (r.resolve ⟨"go.dev/v1.2", "End"⟩).isSome := by
  intro r
  obtain ⟨s, hs, hreferences⟩ : ∃ s, r.slot? ⟨0⟩ = some s ∧
      s.references = [⟨"go.dev/v1.2/chain", "Link"⟩, ⟨"go.dev/v1.2/chain", "End"⟩,
        ⟨"go.dev/v1.2", "End"⟩] := ⟨_, rfl, rfl⟩
  -- Each reference is settled by its package and by the visible names.
  have hresolve : ∀ target ∈ s.references, _ := fun target htarget =>
    (resolve_extract dotless_chainPackage hs htarget).1
  rw [hreferences] at hresolve
  refine ⟨s, hs, hreferences, ?_, ?_, ?_⟩
  · exact (hresolve _ (by decide)).mpr ⟨rfl, by decide⟩
  · exact (hresolve _ (by decide)).mpr ⟨rfl, by decide⟩
  · intro h
    exact absurd ((hresolve _ (by decide)).mp h).1 (by decide)

end ServiceTypes
