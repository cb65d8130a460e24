import ServiceTypes.Proofs.Extraction.Contents
import ServiceTypes.Proofs.Typing.WellFormed

/-!
# `ServiceTypes.Proofs.Extraction.WellFormed`: well-formed registries

A registry that extraction returns holds well-formed structs only, each under
its own key. Nothing is assumed about the package, the path or the options.
The theorems:

* `KeepsLast.exists_of_slot?`: a slot holds the struct of a declaration.
* `KeepsLast.wellFormed`: the registry of a list of declarations is well
  formed.
* `wellFormed_extract`: so is the registry of a package.
-/

set_option autoImplicit false

namespace ServiceTypes

open Model (Struct qualifiedKey)
open Source (Package isExported)

/-- A registry of well-formed structs, in which slots and keys belong together. -/
structure Registry.WellFormed (options : Options) (r : Registry) : Prop where
  /-- Every struct is well formed at every depth. -/
  structs : ∀ id s, r.slot? id = some s → s.WellFormed
  /-- If only exported types are entered, every struct has a name. -/
  named : options.exportedTypesOnly = true → ∀ id s, r.slot? id = some s → ¬ s.isAnonymous
  /-- The struct in the slot of a key has that key. -/
  ownKey : ∀ key id, r.idOf? key = some id → ∃ s, r.slot? id = some s ∧ s.key = key
  /-- A struct is registered under its own key. -/
  registered : ∀ id s, r.slot? id = some s → r.idOf? s.key = some id

/-- An exported name is not empty. -/
theorem Source.ne_empty_of_isExported {name : String} (h : isExported name) : name ≠ "" := by
  rintro rfl
  exact absurd h Bool.false_ne_true

/-- The struct of a declaration is well formed. -/
theorem TypeDeclaration.wellFormed_struct (options : Options) (path : String)
    (d : TypeDeclaration) : (d.struct options path).WellFormed := by
  refine Struct.wellFormed_of_fields ?_
  show ∀ field ∈ d.fields options path, _
  obtain ⟨name, underlying, imports⟩ := d
  cases underlying with
  | struct lines => exact Scope.fieldsOf_wellFormed _ _ lines
  | _ => exact List.forall_mem_nil _

namespace KeepsLast

variable {options : Options} {path : String} {ds : List TypeDeclaration} {r : Registry}

/-- A slot holds the struct of a declaration, in the place of the name that it declares. -/
theorem exists_of_slot? (hr : KeepsLast options path ds r) {id : SlotId} {s : Struct}
    (h : r.slot? id = some s) :
    ∃ d ∈ ds, (declaredNames ds)[id.number]? = some d.name ∧ d.struct options path = s := by
  have hlt : id.number < (declaredNames ds).length := by
    rw [← hr.size, ← r.slot?_isSome_iff, h]
    rfl
  obtain ⟨d, hlast, hslot⟩ := hr.slot (List.getElem?_eq_getElem hlt)
  obtain ⟨hmem, hname⟩ := mem_of_lastDeclaration? hlast
  refine ⟨d, hmem, ?_, ?_⟩
  · rw [hname]
    exact List.getElem?_eq_getElem hlt
  · rw [TypeDeclaration.struct, hname]
    exact Option.some.inj (hslot.symm.trans h)

/-- A registry that keeps the last of some visible declarations is well formed. -/
theorem wellFormed (hr : KeepsLast options path ds r) (hds : ∀ d ∈ ds, options.admits d.name) :
    r.WellFormed options where
  structs id s hslot := by
    obtain ⟨d, -, -, rfl⟩ := hr.exists_of_slot? hslot
    exact d.wellFormed_struct options path
  named hexported id s hslot hanonymous := by
    obtain ⟨d, hmem, -, rfl⟩ := hr.exists_of_slot? hslot
    -- Only exported names are admitted, and the empty name is not exported.
    have hadmits := hds d hmem
    unfold Options.admits at hadmits
    rw [hexported] at hadmits
    exact Source.ne_empty_of_isExported hadmits (String.isEmpty_iff.mp hanonymous)
  ownKey key id hid := by
    obtain ⟨name, hplace, rfl⟩ := (hr.index key id).mp hid
    obtain ⟨d, -, hslot⟩ := hr.slot hplace
    exact ⟨_, hslot, rfl⟩
  registered id s hslot := by
    obtain ⟨d, -, hplace, rfl⟩ := hr.exists_of_slot? hslot
    exact (hr.index _ id).mpr ⟨d.name, hplace, rfl⟩

end KeepsLast

/-- Extraction returns a well-formed registry: at every depth of every registered struct, through
arrays, maps and structs that are written in place, fields are exported, keywords stand at
scalars and nowhere else, encodings are consistent and structs that are written in place have no
name; and each slot has the key under which it is registered. -/
theorem wellFormed_extract (package : Package) (path : String) (options : Options) :
    (package.extract path options).result.WellFormed options := by
  rw [result_extract]
  exact (keepsLast_visible package path options).wellFormed fun _ hd => admits_of_mem_visible hd

end ServiceTypes
