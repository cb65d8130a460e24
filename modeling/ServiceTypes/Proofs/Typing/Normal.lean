import ServiceTypes.Proofs.Typing.Lines

/-!
# `ServiceTypes.Proofs.Typing.Normal`: parentheses and repeated pointers

An expression is read as if it had no parentheses and no pointer to a
pointer. The theorems:

* `TypeExpr.isNormal_normal`: the normal form has neither.
* `typeOf_normal` / `fieldsOf_normal`: an expression and its normal form have
  the same type and the same diagnostics, and so have lines.
* `isPointer_iff`: a type goes through a pointer if the normal form starts with
  one.
* `typeOf_normal_and_isPointer_iff`: all of this about reading in one statement.
-/

set_option autoImplicit false

namespace ServiceTypes

open Model (Field FieldType Scalar)
open Source (FieldLine TypeExpr isExported)

namespace Source

/-! ### Normal forms -/

/-- An expression behind a pointer. A second pointer is not written. -/
def TypeExpr.pointed : TypeExpr → TypeExpr
  | .pointer target => .pointer target
  | type => .pointer type

mutual

/-- An expression without parentheses, and with one pointer for each run of pointers. The
qualifiers of selectors stay as they are. -/
def TypeExpr.normal : TypeExpr → TypeExpr
  | .pointer target => target.normal.pointed
  | .array length elem => .array length elem.normal
  | .map key value => .map key.normal value.normal
  | .struct lines => .struct (normalLines lines)
  | .paren inner => inner.normal
  | .ident name => .ident name
  | .selector qualifier name => .selector qualifier name
  | .func => .func
  | .interface => .interface
  | .chan => .chan
termination_by structural type => type

/-- The lines of a struct with the normal forms of their types. -/
def normalLines : List FieldLine → List FieldLine
  | [] => []
  | line :: rest => line.normal :: normalLines rest
termination_by structural lines => lines

/-- A line with the normal form of its type. -/
def FieldLine.normal : FieldLine → FieldLine
  | ⟨names, type, tag⟩ => ⟨names, type.normal, tag⟩
termination_by structural line => line

end

mutual

/-- There are no parentheses, and no pointer is one to a pointer. -/
def TypeExpr.IsNormal : TypeExpr → Prop
  | .pointer target => (∀ inner, target ≠ .pointer inner) ∧ target.IsNormal
  | .array _ elem => elem.IsNormal
  | .map key value => key.IsNormal ∧ value.IsNormal
  | .struct lines => LinesNormal lines
  | .paren _ => False
  | .ident _ | .selector _ _ | .func | .interface | .chan => True
termination_by structural type => type

/-- The types of all lines are normal. -/
def LinesNormal : List FieldLine → Prop
  | [] => True
  | line :: rest => line.IsNormal ∧ LinesNormal rest
termination_by structural lines => lines

/-- The type of a line is normal. -/
def FieldLine.IsNormal : FieldLine → Prop
  | ⟨_, type, _⟩ => type.IsNormal
termination_by structural line => line

end

/-- Whatever is behind a pointer, there is one pointer in front. -/
theorem TypeExpr.exists_pointed_eq (type : TypeExpr) :
    ∃ target, type.pointed = .pointer target := by
  cases type with
  | pointer target => exact ⟨target, rfl⟩
  | _ => exact ⟨_, rfl⟩

/-- A normal expression behind a pointer is normal, since a second pointer is not written. -/
theorem TypeExpr.IsNormal.pointed {type : TypeExpr} (h : type.IsNormal) :
    type.pointed.IsNormal := by
  cases type with
  | pointer target => exact h
  | _ => exact ⟨fun _ heq => TypeExpr.noConfusion heq, h⟩

mutual

/-- The normal form of an expression is normal, at every depth. -/
theorem TypeExpr.isNormal_normal (type : TypeExpr) : type.normal.IsNormal := by
  match type with
  | .pointer target =>
    rw [TypeExpr.normal]
    exact target.isNormal_normal.pointed
  | .array _ elem => exact elem.isNormal_normal
  | .map key value => exact ⟨key.isNormal_normal, value.isNormal_normal⟩
  | .struct lines => exact linesNormal_normalLines lines
  | .paren inner => exact inner.isNormal_normal
  | .ident _ | .selector _ _ | .func | .interface | .chan => trivial
termination_by structural type

/-- The normal forms of lines are normal. -/
theorem linesNormal_normalLines (lines : List FieldLine) : LinesNormal (normalLines lines) := by
  match lines with
  | [] => trivial
  | line :: rest => exact ⟨line.isNormal_normal, linesNormal_normalLines rest⟩
termination_by structural lines

/-- The normal form of a line is normal. -/
theorem FieldLine.isNormal_normal (line : FieldLine) : line.normal.IsNormal := by
  match line with
  | ⟨_, type, _⟩ => exact type.isNormal_normal
termination_by structural line

end

end Source

namespace Scope

/-! ### Reading normal forms -/

/-- A key behind a pointer is reported as a pointer, be it one pointer or two. -/
theorem keyOf_pointed (field : String) (key : TypeExpr) :
    keyOf field key.pointed = keyOf field (.pointer key) := by
  cases key <;> rfl

/-- A key is read through parentheses, and a pointer in its place is reported once. -/
theorem keyOf_normal (field : String) (key : TypeExpr) :
    keyOf field key.normal = keyOf field key := by
  match key with
  | .paren inner => rw [TypeExpr.normal, keyOf_normal field inner, keyOf]
  | .pointer target =>
    -- Whatever is behind the pointer, it is not looked at.
    rw [TypeExpr.normal, keyOf_pointed]
    rfl
  | .array length _ => cases length <;> rfl
  | .ident _ | .map _ _ | .selector _ _ | .struct _ | .func | .interface | .chan => rfl

variable (scope : Scope)

/-- A second pointer changes nothing. -/
theorem typeOf_pointed (field : String) (type : TypeExpr) :
    scope.typeOf field type.pointed = scope.typeOf field (.pointer type) := by
  cases type with
  | pointer target =>
    have hidem : FieldType.pointer ∘ FieldType.pointer = FieldType.pointer := rfl
    rw [TypeExpr.pointed, typeOf, typeOf, typeOf]
    ext1 <;> simp [hidem]
  | _ => rfl

mutual

/-- An expression and its normal form have the same type and the same diagnostics. -/
theorem typeOf_normal (field : String) (type : TypeExpr) :
    scope.typeOf field type.normal = scope.typeOf field type := by
  match type with
  | .pointer target =>
    rw [TypeExpr.normal, typeOf_pointed, typeOf, typeOf, typeOf_normal field target]
  | .array _ elem => rw [TypeExpr.normal, typeOf, typeOf, typeOf_normal field elem]
  | .map key value =>
    rw [TypeExpr.normal, typeOf, typeOf, keyOf_normal, typeOf_normal field value]
  | .struct lines => rw [TypeExpr.normal, typeOf, typeOf, fieldsOf_normal "" lines]
  | .paren inner => rw [TypeExpr.normal, typeOf_normal field inner, typeOf]
  | .ident _ | .selector _ _ | .func | .interface | .chan => rfl
termination_by structural type

/-- Lines and the lines with normal types have the same fields and the same diagnostics. -/
theorem fieldsOf_normal (owner : String) (lines : List FieldLine) :
    scope.fieldsOf owner (Source.normalLines lines) = scope.fieldsOf owner lines := by
  match lines with
  | [] => rfl
  | line :: rest =>
    rw [Source.normalLines, fieldsOf, fieldsOf, fieldsOfLine_normal owner line,
      fieldsOf_normal owner rest]
termination_by structural lines

/-- A line and the line with the normal type have the same fields and the same diagnostics. -/
theorem fieldsOfLine_normal (owner : String) (line : FieldLine) :
    scope.fieldsOfLine owner line.normal = scope.fieldsOfLine owner line := by
  match line with
  | ⟨names, type, tag⟩ =>
    -- Under which name the type is read is only known once the names are looked at.
    have htype (field : String) := typeOf_normal field type
    rw [FieldLine.normal, fieldsOfLine, fieldsOfLine]
    simp only [htype]
termination_by structural line

end

/-! ### Pointers -/

/-- A name alone stands for no pointer. -/
theorem isPointer_typeOfName (name : String) : (scope.typeOfName name).isPointer = false := by
  rw [typeOfName]
  split <;> rfl

/-- A selector stands for no pointer. -/
theorem isPointer_of_typeOfSelector {field : String} {qualifier : TypeExpr} {name : String}
    {t : FieldType} (h : (scope.typeOfSelector field qualifier name).result = some t) :
    t.isPointer = false := by
  obtain ⟨localName, -, rfl⟩ := scope.eq_reference_of_typeOfSelector h
  rfl

/-- A type goes through a pointer exactly if the normal form of its expression starts with one. -/
theorem isPointer_iff {field : String} {type : TypeExpr} {t : FieldType}
    (h : (scope.typeOf field type).result = some t) :
    t.isPointer ↔ ∃ target, type.normal = .pointer target := by
  match type with
  | .pointer target =>
    rw [typeOf, Reported.result_bind, Reported.result_pure, Option.map_eq_some_iff] at h
    obtain ⟨inner, -, rfl⟩ := h
    -- Whatever the target is, its normal form is put behind one pointer.
    exact iff_of_true rfl target.normal.exists_pointed_eq
  | .paren inner =>
    rw [typeOf] at h
    rw [TypeExpr.normal]
    exact isPointer_iff h
  | .ident name =>
    cases h
    simp [isPointer_typeOfName, TypeExpr.normal]
  | .selector qualifier name =>
    simp [scope.isPointer_of_typeOfSelector h, TypeExpr.normal]
  | .array _ elem =>
    rw [typeOf, Reported.result_bind, Reported.result_pure, Option.map_eq_some_iff] at h
    obtain ⟨inner, -, rfl⟩ := h
    simp [FieldType.arrayOf, FieldType.ofShape, TypeExpr.normal]
  | .map key value =>
    rw [typeOf, Reported.result_bind, Reported.result_bind, Reported.result_pure,
      Option.map_eq_some_iff] at h
    obtain ⟨inner, -, rfl⟩ := h
    simp [FieldType.mapTo, FieldType.ofShape, TypeExpr.normal]
  | .struct lines =>
    cases h
    simp [FieldType.ofShape, TypeExpr.normal]
  | .func | .interface | .chan => cases h
termination_by structural type

/-- Parentheses and repeated pointers do not count: an expression is read as its normal form, with
the same diagnostics, and so are the lines of a struct. A type goes through a pointer exactly if
the normal form starts with one. -/
theorem typeOf_normal_and_isPointer_iff (type : TypeExpr) (lines : List FieldLine) :
    type.normal.IsNormal ∧
      (∀ field, scope.typeOf field type.normal = scope.typeOf field type) ∧
      (∀ owner, scope.fieldsOf owner (Source.normalLines lines) = scope.fieldsOf owner lines) ∧
      ∀ field t, (scope.typeOf field type).result = some t →
        (t.isPointer ↔ ∃ target, type.normal = .pointer target) :=
  ⟨type.isNormal_normal, fun field => scope.typeOf_normal field type,
    fun owner => scope.fieldsOf_normal owner lines, fun _ _ h => scope.isPointer_iff h⟩

/-- A pointer to shelves by label, with parentheses and pointers wherever they can be. -/
def shelvesType : TypeExpr :=
  .pointer (.paren (.pointer (.map (.paren (.pointer (.pointer (.ident "Label"))))
    (.struct [⟨["Height"], .paren (.pointer (.paren (.pointer (.ident "int")))), none⟩]))))

/-- The key of the map is reported as the pointer that it still is. -/
theorem typeOf_normal_shelvesType :
    let scope : Scope := ⟨ImportTable.ofImports [] "depot", "json"⟩
    let shelf : FieldType := .ofShape (.inline (.anonymous
      [⟨"Height", (FieldType.ofKeyword .number "int").pointer, none⟩]))
    let shelves := (FieldType.mapTo .none shelf).pointer
    shelvesType.normal = .pointer (.map (.pointer (.ident "Label"))
        (.struct [⟨["Height"], .pointer (.ident "int"), none⟩])) ∧
      scope.typeOf "Shelves" shelvesType.normal
        = ⟨some shelves, [.unsupportedMapKey "Shelves" .pointer]⟩ ∧
      (scope.typeOf "Shelves" shelvesType).result = some shelves ∧
      shelves.isPointer := by
  intro scope shelf shelves
  obtain ⟨-, htype, -, hpointer⟩ := scope.typeOf_normal_and_isPointer_iff shelvesType []
  have hshelves : (scope.typeOf "Shelves" shelvesType).result = some shelves := rfl
  exact ⟨rfl, (htype "Shelves").trans rfl, hshelves,
    (hpointer "Shelves" shelves hshelves).mpr ⟨_, rfl⟩⟩

end Scope

end ServiceTypes
