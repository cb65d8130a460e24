import ServiceTypes.Proofs.Model.Reading
import ServiceTypes.Proofs.Registry.Sessions

/-!
# `ServiceTypes.Proofs.Registry.Handoff`: handing a registry over as JSON

A registry is handed over as a JSON tree, in which the members of an object
have no order. The tree says all that the registry holds: types that compare as
the same but differ in a pointer or a keyword give different trees. The
theorems:

* `Indexed.sameTree_iff`: indexed registries give the same tree exactly if they
  have the same keys with the same structs.
* `lossless_toJson`: nothing is lost on the way to JSON, neither of a type, a
  field or a struct nor of a registry after any changes.
-/

set_option autoImplicit false

namespace ServiceTypes

/-- Two values are the same tree: they differ at most in the order of members. -/
def Json.Value.SameTree (v w : Json.Value) : Prop := v.sorted = w.sorted

namespace Registry

open Json (Value)
open Model (Field FieldType Struct structsOfJson?)

/-- The structs of a registry with their keys are read back from its tree. -/
theorem structsOfJson?_sorted (r : Registry) : structsOfJson? r.toJson.sorted = some r.toList :=
  Model.structsOfJson?_toJson r.ascending_toList

/-- Registries list the same if and only if they find the same under every key. -/
theorem toList_eq_iff (r s : Registry) :
    r.toList = s.toList ↔ ∀ key, r.find? key = s.find? key := by
  constructor
  · intro h key
    refine Option.ext fun x => ?_
    rw [← mem_toList_iff, h, mem_toList_iff]
  · intro h
    refine r.ascending_toList.ext s.ascending_toList fun ⟨key, x⟩ => ?_
    rw [mem_toList_iff, h, mem_toList_iff]

/-- Indexed registries give the same tree exactly if they have the same keys, and the same
struct under each of them. -/
theorem Indexed.sameTree_iff {r s : Registry} (hr : r.Indexed) (hs : s.Indexed) :
    r.toJson.SameTree s.toJson ↔
      ∀ key, r.contains key = s.contains key ∧ r.find? key = s.find? key := by
  constructor
  · intro h
    -- Equal trees are read as equal lists of structs under keys.
    have hlist : r.toList = s.toList := by
      have hread := congrArg structsOfJson? h
      rw [structsOfJson?_sorted, structsOfJson?_sorted] at hread
      exact Option.some.inj hread
    intro key
    have hfind := (r.toList_eq_iff s).mp hlist key
    rw [hr.contains_eq, hs.contains_eq, hfind]
    exact ⟨rfl, rfl⟩
  · intro h
    have hlist := (r.toList_eq_iff s).mpr fun key => (h key).2
    unfold toJson
    rw [hlist]
    rfl

/-- Nothing of the model is lost on the way to JSON. -/
structure Lossless : Prop where
  /-- Different types give different trees, whatever they differ in. -/
  types : ∀ t u : FieldType, t.toJson.SameTree u.toJson → t = u
  fields : ∀ f g : Field, f.toJson.SameTree g.toJson → f = g
  structs : ∀ x y : Struct, x.toJson.SameTree y.toJson → x = y
  /-- Registries give the same tree exactly if they have the same keys, and the same struct
  under each of them. -/
  registries : ∀ changes others : List Change,
    (afterChanges changes).1.registry.toJson.SameTree (afterChanges others).1.registry.toJson ↔
      ∀ key, (afterChanges changes).1.registry.contains key
            = (afterChanges others).1.registry.contains key
        ∧ (afterChanges changes).1.registry.find? key
            = (afterChanges others).1.registry.find? key
  /-- The structs of a registry with their keys are read back from any tree that is the same
  as that of the registry. -/
  readBack : ∀ (changes : List Change) (tree : Value),
    tree.SameTree (afterChanges changes).1.registry.toJson →
      structsOfJson? tree.sorted = some (afterChanges changes).1.registry.toList

/-- Nothing is lost: whatever is written is read back, so different things are written
differently. -/
theorem lossless_toJson : Lossless where
  types t u h := by
    have hread := congrArg FieldType.ofJson? h
    rw [FieldType.ofJson?_toJson, FieldType.ofJson?_toJson] at hread
    exact Option.some.inj hread
  fields f g h := by
    have hread := congrArg Field.ofJson? h
    rw [Field.ofJson?_toJson, Field.ofJson?_toJson] at hread
    exact Option.some.inj hread
  structs x y h := by
    have hread := congrArg Struct.ofJson? h
    rw [Struct.ofJson?_toJson, Struct.ofJson?_toJson] at hread
    exact Option.some.inj hread
  registries changes others :=
    (mirrors_afterChanges changes).indexed.sameTree_iff (mirrors_afterChanges others).indexed
  readBack changes tree h := by
    rw [h, structsOfJson?_sorted]

end Registry

end ServiceTypes
