import Mathlib.Logic.Relation
import ServiceTypes.Proofs.Model.Erasure
import ServiceTypes.Proofs.Typing.Naming

/-!
# `ServiceTypes.Proofs.Typing.Restyling`: one type written in several ways

Comparison does not tell apart a type and a pointer to it, an `int` and an
`int64`. So it does not tell apart what is read from expressions that differ
only in this, or in the parentheses and the lengths that reading skips. The
theorems:

* `TypeExpr.Restyles`: one place of an expression is written in another way.
* `erasedTypeOf_of_restyles`: without pointers and keywords, the type that is
  read is the same before and after a change of one place.
* `erasedTypeOf_of_eqvGen`: and so after any number of changes, made or undone.
* `same_iff_and_same_typeOf`: comparison is equality without pointers and
  keywords, and reading respects it.
-/

set_option autoImplicit false

namespace ServiceTypes

open Model (Field FieldType Scalar)
open Relation (EqvGen)
open Source (FieldLine TypeExpr isExported)

/-! ### Other ways to write an expression -/

/-- In one place, the second expression has a pointer or parentheses that the first has not,
another length of an array, or another keyword for the same scalar. The key of a map is no such
place, and neither is the qualifier of a selector. -/
inductive Source.TypeExpr.Restyles : TypeExpr → TypeExpr → Prop
  | addPointer (type : TypeExpr) : Restyles type (.pointer type)
  | addParen (type : TypeExpr) : Restyles type (.paren type)
  | length (length length' : Option String) (elem : TypeExpr) :
      Restyles (.array length elem) (.array length' elem)
  | keyword {name name' : String} (h : Scalar.ofKeyword name = Scalar.ofKeyword name')
      (hscalar : Scalar.ofKeyword name ≠ .none) : Restyles (.ident name) (.ident name')
  | pointer {target target' : TypeExpr} (h : Restyles target target') :
      Restyles (.pointer target) (.pointer target')
  | paren {inner inner' : TypeExpr} (h : Restyles inner inner') :
      Restyles (.paren inner) (.paren inner')
  | array (length : Option String) {elem elem' : TypeExpr} (h : Restyles elem elem') :
      Restyles (.array length elem) (.array length elem')
  | map (key : TypeExpr) {value value' : TypeExpr} (h : Restyles value value') :
      Restyles (.map key value) (.map key value')
  | struct (before after : List FieldLine) (names : List String) (tag : Option String)
      {type type' : TypeExpr} (h : Restyles type type') :
      Restyles (.struct (before ++ ⟨names, type, tag⟩ :: after))
        (.struct (before ++ ⟨names, type', tag⟩ :: after))

namespace Scope

variable (scope : Scope)

/-! ### What is left of the types that are read -/

/-- The type that is read, without its pointers and keywords. -/
def erasedTypeOf (field : String) (type : TypeExpr) : Option FieldType :=
  (scope.typeOf field type).result.map .erased

/-- Nothing is left of a pointer. -/
theorem erasedTypeOf_pointer (field : String) (target : TypeExpr) :
    scope.erasedTypeOf field (.pointer target) = scope.erasedTypeOf field target := by
  rw [erasedTypeOf, typeOf, Reported.result_bind, Reported.result_pure, Option.map_map]
  exact Option.map_congr fun t _ => t.erased_pointer

/-- Parentheses are not in the type to begin with. -/
theorem erasedTypeOf_paren (field : String) (inner : TypeExpr) :
    scope.erasedTypeOf field (.paren inner) = scope.erasedTypeOf field inner := by
  rw [erasedTypeOf, typeOf, erasedTypeOf]

/-- An array is left as one, without its length. -/
theorem erasedTypeOf_array (field : String) (length : Option String) (elem : TypeExpr) :
    scope.erasedTypeOf field (.array length elem)
      = (scope.erasedTypeOf field elem).map .arrayOf := by
  rw [erasedTypeOf, typeOf, Reported.result_bind, Reported.result_pure, erasedTypeOf,
    Option.map_map, Option.map_map]
  exact Option.map_congr fun t _ => t.erased_arrayOf

/-- A map keeps the scalar of its key. -/
theorem erasedTypeOf_map (field : String) (key value : TypeExpr) :
    scope.erasedTypeOf field (.map key value)
      = (scope.erasedTypeOf field value).map (.mapTo (keyOf field key).result) := by
  rw [erasedTypeOf, typeOf, Reported.result_bind, Reported.result_bind, Reported.result_pure,
    erasedTypeOf, Option.map_map, Option.map_map]
  exact Option.map_congr fun t _ => t.erased_mapTo (keyOf field key).result

/-- All keywords of a scalar give the same, but a name that is no keyword counts as it is. -/
theorem erasedTypeOf_ident (field : String) {name : String}
    (hscalar : Scalar.ofKeyword name ≠ .none) :
    scope.erasedTypeOf field (.ident name)
      = some (.ofShape (.scalar (Scalar.ofKeyword name))) := by
  rw [erasedTypeOf, typeOf, Reported.result_pure, Option.map_some, typeOfName]
  cases h : Scalar.ofKeyword name with
  | none => exact absurd h hscalar
  | string | bool | number => rw [FieldType.erased_ofKeyword]

/-- A struct type keeps its fields, with what is left of their types. -/
theorem erasedTypeOf_struct (field : String) (lines : List FieldLine) :
    scope.erasedTypeOf field (.struct lines)
      = some (.ofShape (.inline (.anonymous ((scope.fieldsOf "" lines).result.map .erased)))) := by
  rw [erasedTypeOf, typeOf, Reported.result_bind, Reported.result_pure, Option.map_some,
    FieldType.erased_inline]

/-- The fields of a line depend on the type that is read only by what is left of it. -/
theorem erased_fieldsOfLine (owner field : String) (names : List String) (type : TypeExpr)
    (tag : Option String) :
    (scope.fieldsOfLine owner ⟨names, type, tag⟩).result.map Field.erased
      = match scope.erasedTypeOf field type with
        | none => []
        | some fieldType => (names.filter isExported).map fun name =>
            ⟨name, fieldType, (scope.encodingOfTag field tag).result⟩ := by
  rw [scope.result_fieldsOfLine owner names type tag field, erasedTypeOf]
  cases (scope.typeOf field type).result with
  | none => rfl
  | some fieldType =>
    rw [List.map_map]
    rfl

/-! ### Reading what is written in another way -/

/-- A change of one place changes pointers and keywords at most. -/
theorem erasedTypeOf_of_restyles (field : String) {type type' : TypeExpr}
    (h : type.Restyles type') : scope.erasedTypeOf field type = scope.erasedTypeOf field type' := by
  induction h with
  | addPointer type => rw [erasedTypeOf_pointer]
  | addParen type => rw [erasedTypeOf_paren]
  | length length length' elem => rw [erasedTypeOf_array, erasedTypeOf_array]
  | keyword h hscalar =>
    rw [erasedTypeOf_ident scope field hscalar, erasedTypeOf_ident scope field (h ▸ hscalar), h]
  | pointer _ ih => rw [erasedTypeOf_pointer, ih, erasedTypeOf_pointer]
  | paren _ ih => rw [erasedTypeOf_paren, ih, erasedTypeOf_paren]
  | array length _ ih => rw [erasedTypeOf_array, ih, erasedTypeOf_array]
  | map key _ ih => rw [erasedTypeOf_map, ih, erasedTypeOf_map]
  | struct before after names tag _ ih =>
    -- The line that changes is read without the name of the field, which does not count.
    have hline (type : TypeExpr) := scope.erased_fieldsOfLine "" field names type tag
    rw [erasedTypeOf_struct, erasedTypeOf_struct, result_fieldsOf_append, result_fieldsOf_append,
      fieldsOf, fieldsOf]
    simp only [Reported.result_bind, Reported.result_pure, List.map_append, hline, ih]

/-- Any number of changes, made or undone, change pointers and keywords at most. -/
theorem erasedTypeOf_of_eqvGen (field : String) {type type' : TypeExpr}
    (h : EqvGen TypeExpr.Restyles type type') :
    scope.erasedTypeOf field type = scope.erasedTypeOf field type' := by
  induction h with
  | rel _ _ h => exact scope.erasedTypeOf_of_restyles field h
  | refl _ => rfl
  | symm _ _ _ ih => exact ih.symm
  | trans _ _ _ _ _ ih ih' => exact ih.trans ih'

end Scope

/-- Types are the same exactly if they are equal without their pointers and keywords, at every
depth. This is an equivalence, and expressions that are written differently only in pointers,
parentheses, lengths and keywords have the same types, or none of them has a type. -/
theorem same_iff_and_same_typeOf :
    (∀ a b : FieldType, a.same b ↔ a.erased = b.erased) ∧
      (Equivalence fun a b : FieldType => a.same b = true) ∧
      ∀ (scope : Scope) (field : String) (type type' : TypeExpr),
        EqvGen TypeExpr.Restyles type type' →
          ((scope.typeOf field type).result = none ↔ (scope.typeOf field type').result = none) ∧
            ∀ t t', (scope.typeOf field type).result = some t →
              (scope.typeOf field type').result = some t' → t.same t' := by
  refine ⟨FieldType.same_iff, FieldType.same_equivalence, fun scope field type type' h => ?_⟩
  have herased := scope.erasedTypeOf_of_eqvGen field h
  rw [Scope.erasedTypeOf, Scope.erasedTypeOf] at herased
  constructor
  · rw [← Option.map_eq_none_iff, herased, Option.map_eq_none_iff]
  · intro t t' ht ht'
    rw [ht, ht', Option.map_some, Option.map_some, Option.some.injEq] at herased
    exact (FieldType.same_iff t t').mpr herased

/-- Rows with counters under texts. -/
def rowsType (length : Option String) (counter : TypeExpr) : TypeExpr :=
  .array length (.struct [⟨["Counts"], .map (.ident "string") counter, none⟩])

/-- A pointer to a fixed number of rows, and any number of rows whose counters are wider and
optional: what differs is a pointer outside, a length, and a keyword, parentheses and a pointer
far inside. -/
theorem same_typeOf_rowsType :
    let scope : Scope := ⟨ImportTable.ofImports [] "bank", "json"⟩
    let fixed := TypeExpr.pointer (rowsType (some "4") (.ident "int"))
    let unlimited := rowsType none (.pointer (.paren (.ident "int64")))
    let rows (counter : FieldType) : FieldType :=
      .arrayOf (.ofShape (.inline (.anonymous [⟨"Counts", .mapTo .string counter, none⟩])))
    EqvGen TypeExpr.Restyles fixed unlimited ∧
      (scope.typeOf "Rows" fixed).result = some (rows (.ofKeyword .number "int")).pointer ∧
      (scope.typeOf "Rows" unlimited).result
        = some (rows (FieldType.ofKeyword .number "int64").pointer) ∧
      (rows (.ofKeyword .number "int")).pointer.same
        (rows (FieldType.ofKeyword .number "int64").pointer) := by
  intro scope fixed unlimited rows
  have hwider : TypeExpr.Restyles (.ident "int") (.ident "int64") :=
    .keyword (by decide) (by decide)
  have hcounter {counter counter' : TypeExpr} (h : counter.Restyles counter') :
      EqvGen TypeExpr.Restyles (rowsType none counter) (rowsType none counter') :=
    .rel _ _ (.array none (.struct [] [] _ none (.map _ h)))
  -- The pointer and the length go, the keyword changes, and inside come parentheses and a pointer.
  have hrestyles : EqvGen TypeExpr.Restyles fixed unlimited := by
    refine .trans _ _ _ (.symm _ _ (.rel _ _ (.addPointer _))) ?_
    refine .trans _ _ _ (.rel _ _ (.length (some "4") none _)) ?_
    refine .trans _ _ _ (hcounter hwider) ?_
    exact .trans _ _ _ (hcounter (.addParen _)) (hcounter (.addPointer _))
  obtain ⟨-, -, hsame⟩ := same_iff_and_same_typeOf
  exact ⟨hrestyles, rfl, rfl, (hsame scope "Rows" fixed unlimited hrestyles).2 _ _ rfl rfl⟩

end ServiceTypes
