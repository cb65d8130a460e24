import ServiceTypes.Proofs.Extraction.LastDeclaration

/-!
# `ServiceTypes.Proofs.Extraction.Contents`: what is found in the registry

`KeepsLast` says which slots the registry of a list of declarations has. Most
statements about extraction only look structs up by their keys, and this
module says what they find. The theorems:

* `KeepsLast.find?_eq`: under the key of a name stands the struct of its last
  declaration.
* `KeepsLast.find?_eq_some_iff`: no other key has a struct.
* `KeepsLast.idOf?_congr`: the slots of the keys depend on the names only.
* `keepsLast_visible`: the declarations of a package are its visible ones.
* `find?_extract_congr`: packages with the same last declarations of a name find
  the same under its key.
* `Registry.SameContents.of_found`: registries that find the same under every
  key are listed, written and given away alike.
-/

set_option autoImplicit false

namespace ServiceTypes

open Model (Struct qualifiedKey)
open Source (Package)

/-- The struct that a declaration puts under its key. -/
def TypeDeclaration.struct (options : Options) (path : String) (d : TypeDeclaration) : Struct :=
  ⟨d.name, path, d.fields options path⟩

/-! ### Last declarations -/

/-- A name has a last declaration exactly if it is declared. -/
theorem lastDeclaration?_isSome_iff {ds : List TypeDeclaration} {name : String} :
    (lastDeclaration? ds name).isSome ↔ name ∈ ds.map TypeDeclaration.name := by
  unfold lastDeclaration?
  rw [List.getLast?_isSome, List.mem_map]
  constructor
  · intro h
    obtain ⟨d, hd⟩ := List.exists_mem_of_ne_nil _ h
    obtain ⟨hmem, hname⟩ := List.mem_filter.mp hd
    exact ⟨d, hmem, of_decide_eq_true hname⟩
  · rintro ⟨d, hmem, hname⟩
    exact List.ne_nil_of_mem (List.mem_filter.mpr ⟨hmem, decide_eq_true hname⟩)

/-- The last declaration of a name is one of the declarations and has the name. -/
theorem mem_of_lastDeclaration? {ds : List TypeDeclaration} {name : String} {d : TypeDeclaration}
    (h : lastDeclaration? ds name = some d) : d ∈ ds ∧ d.name = name := by
  obtain ⟨hmem, hname⟩ := List.mem_filter.mp (List.mem_of_getLast? h)
  exact ⟨hmem, of_decide_eq_true hname⟩

/-- A later declaration of a name hides the earlier ones. -/
theorem lastDeclaration?_append (ds es : List TypeDeclaration) (name : String) :
    lastDeclaration? (ds ++ es) name
      = (lastDeclaration? es name).or (lastDeclaration? ds name) := by
  unfold lastDeclaration?
  rw [List.filter_append, List.getLast?_append]

/-! ### Look-up by key -/

/-- Declarations of the same names have the same slots, whatever they declare. -/
theorem KeepsLast.idOf?_congr {options : Options} {path : String} {ds es : List TypeDeclaration}
    {r t : Registry} (hr : KeepsLast options path ds r) (ht : KeepsLast options path es t)
    (h : ds.map TypeDeclaration.name = es.map TypeDeclaration.name) (key : String) :
    r.idOf? key = t.idOf? key := by
  refine Option.ext fun id => ?_
  rw [hr.index, ht.index, declaredNames, declaredNames, h]

namespace KeepsLast

variable {options : Options} {path : String} {ds : List TypeDeclaration} {r : Registry}

/-- Under the key of a name stands the struct of its last declaration. -/
theorem find?_eq (hr : KeepsLast options path ds r) (name : String) :
    r.find? (qualifiedKey path name)
      = (lastDeclaration? ds name).map (TypeDeclaration.struct options path) := by
  unfold Registry.find?
  cases hid : r.idOf? (qualifiedKey path name) with
  | some id =>
    obtain ⟨other, hplace, hkey⟩ := (hr.index _ id).mp hid
    rw [qualifiedKey_inj hkey] at hplace
    obtain ⟨d, hlast, hslot⟩ := hr.slot hplace
    rw [Option.bind_some, hslot, hlast, Option.map_some, TypeDeclaration.struct,
      (mem_of_lastDeclaration? hlast).2]
  | none =>
    -- A name without a slot is not declared at all.
    have hnone : lastDeclaration? ds name = none := by
      rw [← Option.not_isSome_iff_eq_none, lastDeclaration?_isSome_iff]
      intro hmem
      have hcontains := (hr.contains_iff name).mpr (List.mem_eraseDups.mpr hmem)
      rw [Registry.contains, hid] at hcontains
      exact Bool.false_ne_true hcontains
    rw [hnone]
    rfl

/-- Nothing but declared names has a key in the registry. -/
theorem find?_eq_some_iff (hr : KeepsLast options path ds r) (key : String) (s : Struct) :
    r.find? key = some s ↔
      ∃ d, lastDeclaration? ds d.name = some d ∧ qualifiedKey path d.name = key ∧
        d.struct options path = s := by
  constructor
  · intro h
    obtain ⟨id, hid, -⟩ := Option.bind_eq_some_iff.mp h
    obtain ⟨name, -, rfl⟩ := (hr.index _ id).mp hid
    rw [hr.find?_eq] at h
    obtain ⟨d, hlast, hstruct⟩ := Option.map_eq_some_iff.mp h
    obtain ⟨-, rfl⟩ := mem_of_lastDeclaration? hlast
    exact ⟨d, hlast, rfl, hstruct⟩
  · rintro ⟨d, hlast, rfl, rfl⟩
    rw [hr.find?_eq, hlast]
    rfl

end KeepsLast

/-- The registry of a package is that of its visible declarations. -/
theorem keepsLast_visible (package : Package) (path : String) (options : Options) :
    KeepsLast options path (package.visible options)
      ((package.visible options).foldl (registerVisible options path) Registry.empty) :=
  keepsLast_foldl (KeepsLast.empty options path) fun _ hd => admits_of_mem_visible hd

/-- What is found under a key depends on the last declaration of its name only. -/
theorem find?_extract_congr {package package' : Package} {path : String} {options : Options}
    {key : String} (h : ∀ name, qualifiedKey path name = key →
      lastDeclaration? (package.visible options) name
        = lastDeclaration? (package'.visible options) name) :
    (package.extract path options).result.find? key
      = (package'.extract path options).result.find? key := by
  rw [result_extract, result_extract]
  refine Option.ext fun s => ?_
  rw [(keepsLast_visible package path options).find?_eq_some_iff,
    (keepsLast_visible package' path options).find?_eq_some_iff]
  refine exists_congr fun d => and_congr_left fun hd => ?_
  rw [h d.name hd.1]

/-! ### Registries with the same contents -/

namespace Registry

/-- Two registries that no look-up and no listing tells apart, whatever their slots are. -/
structure SameContents (r t : Registry) : Prop where
  /-- Under every key the same is found. -/
  found : ∀ key, r.find? key = t.find? key
  /-- Every reference stands for the same struct. -/
  resolved : ∀ target, r.resolve target = t.resolve target
  /-- The listings are the same. -/
  listed : r.toList = t.toList
  /-- The written registries are the same. -/
  written : r.toJson = t.toJson
  /-- The same is given away. -/
  givenAway : r.handOver = t.handOver

/-- Indexed registries that find the same under every key have the same contents. -/
theorem SameContents.of_found {r t : Registry} (hr : r.Indexed) (ht : t.Indexed)
    (h : ∀ key, r.find? key = t.find? key) : SameContents r t := by
  have hlisted : r.toList = t.toList :=
    r.ascending_toList.ext t.ascending_toList fun ⟨key, s⟩ => by
      rw [mem_toList_iff, mem_toList_iff, h]
  exact {
    found := h
    resolved := fun target => h target.key
    listed := hlisted
    written := by rw [toJson, toJson, hlisted]
    givenAway := by rw [hr.handOver_eq_toList, ht.handOver_eq_toList, hlisted] }

end Registry

end ServiceTypes
