import ServiceTypes.Typing

/-!
# `ServiceTypes.Proofs.Typing.Events`: what typing reports

Reading type expressions and field lines reports on members of structs only,
at every depth. The progress of extraction, and what happens to whole
declarations, is reported elsewhere. The theorems:

* `Reported.OnMembers.bind`: a computation reports on members if its parts do.
* `Scope.typeOf_onMembers` / `Scope.fieldsOf_onMembers`: expressions and lines
  report on members.
-/

set_option autoImplicit false

namespace ServiceTypes

open Source (FieldLine TypeExpr)

/-- Whether an event concerns a member of a struct. -/
def Diagnostic.isOnMember : Diagnostic → Bool
  | .unsupportedExpr _ _ | .unsupportedSelector _ _ | .unsupportedMapKey _ _
  | .unknownImport _ _ | .undecodableTag _ _ | .embeddedField _ => true
  | .readingPackage _ | .readingFile _ | .readingStruct _ | .notAStruct _ _
  | .duplicateType _ => false

namespace Reported

variable {α β : Type}

/-- All events of a computation concern members of structs. -/
def OnMembers (r : Reported α) : Prop := ∀ e ∈ r.events, e.isOnMember

/-- A result alone reports nothing. -/
theorem onMembers_pure (a : α) : (pure a : Reported α).OnMembers :=
  List.forall_mem_nil _

/-- A single report is on a member if its event is. -/
theorem onMembers_report {e : Diagnostic} (h : e.isOnMember) : (report e).OnMembers := by
  intro other hmem
  rw [List.mem_singleton.mp hmem]
  exact h

/-- A computation reports on members if each of its parts does. -/
theorem OnMembers.bind {r : Reported α} (h : r.OnMembers) {f : α → Reported β}
    (hf : ∀ a, (f a).OnMembers) : (r >>= f).OnMembers := by
  intro e he
  rw [events_bind, List.mem_append] at he
  cases he with
  | inl hr => exact h e hr
  | inr hnext => exact hf r.result e hnext

end Reported

namespace Scope

open Reported (onMembers_pure onMembers_report)

variable (scope : Scope)

/-- A map key is reported under the name of its field. -/
theorem keyOf_onMembers (field : String) (key : TypeExpr) : (keyOf field key).OnMembers := by
  match key with
  | .ident _ | .selector _ _ => exact onMembers_pure _
  | .paren inner =>
    rw [keyOf]
    exact keyOf_onMembers field inner
  | .pointer _ | .array _ _ | .map _ _ | .struct _ | .func | .interface | .chan =>
    exact (onMembers_report rfl).bind fun _ => onMembers_pure _

/-- A selector is reported under the name of its field, refused or not known. -/
theorem typeOfSelector_onMembers (field : String) (qualifier : TypeExpr) (name : String) :
    (scope.typeOfSelector field qualifier name).OnMembers := by
  cases qualifier with
  | ident localName =>
    simp only [typeOfSelector]
    split
    · exact (onMembers_report rfl).bind fun _ => onMembers_pure _
    · exact onMembers_pure _
  | _ => exact (onMembers_report rfl).bind fun _ => onMembers_pure _

/-- A tag is reported under the name of its field. -/
theorem encodingOfTag_onMembers (field : String) (tag : Option String) :
    (scope.encodingOfTag field tag).OnMembers := by
  cases tag with
  | none => exact onMembers_pure _
  | some literal =>
    -- The literal or the value in it may fail to decode, and both are reported in one way.
    have hundecodable : (do
        Reported.report (.undecodableTag field literal)
        pure none : Reported (Option Tag.Encoding)).OnMembers :=
      (onMembers_report rfl).bind fun _ => onMembers_pure _
    show (scope.encodingOf field literal).OnMembers
    unfold encodingOf
    cases Tag.tagText literal with
    | error cause => exact hundecodable
    | ok tag =>
      dsimp only
      cases Tag.find scope.tagKey.toList tag.toList with
      | found value => exact onMembers_pure _
      | missing => exact onMembers_pure _
      | undecodable cause => exact hundecodable

mutual

/-- Reading an expression reports on members. -/
theorem typeOf_onMembers (field : String) (type : TypeExpr) :
    (scope.typeOf field type).OnMembers := by
  match type with
  | .ident _ => exact onMembers_pure _
  | .pointer target =>
    have htarget := typeOf_onMembers field target
    exact htarget.bind fun _ => onMembers_pure _
  | .array _ elem =>
    have helem := typeOf_onMembers field elem
    exact helem.bind fun _ => onMembers_pure _
  | .map key value =>
    have hvalue := typeOf_onMembers field value
    exact (keyOf_onMembers field key).bind fun _ => hvalue.bind fun _ => onMembers_pure _
  | .selector qualifier name => exact scope.typeOfSelector_onMembers field qualifier name
  | .struct lines =>
    -- The lines inside belong to a struct without a name.
    have hlines := fieldsOf_onMembers "" lines
    exact hlines.bind fun _ => onMembers_pure _
  | .paren inner =>
    have hinner := typeOf_onMembers field inner
    exact hinner
  | .func | .interface | .chan => exact (onMembers_report rfl).bind fun _ => onMembers_pure _
termination_by structural type

/-- Reading the lines of a struct reports on members. -/
theorem fieldsOf_onMembers (owner : String) (lines : List FieldLine) :
    (scope.fieldsOf owner lines).OnMembers := by
  match lines with
  | [] => exact onMembers_pure _
  | line :: rest =>
    have hline := fieldsOfLine_onMembers owner line
    have hrest := fieldsOf_onMembers owner rest
    exact hline.bind fun _ => hrest.bind fun _ => onMembers_pure _
termination_by structural lines

/-- A line reports on its fields, or on the struct that it is embedded in. -/
theorem fieldsOfLine_onMembers (owner : String) (line : FieldLine) :
    (scope.fieldsOfLine owner line).OnMembers := by
  match line with
  | ⟨names, type, tag⟩ =>
    have htype : ∀ field, (scope.typeOf field type).OnMembers :=
      fun field => typeOf_onMembers field type
    rw [fieldsOfLine]
    split
    · exact (onMembers_report rfl).bind fun _ => onMembers_pure _
    · split
      · exact onMembers_pure _
      · refine (htype _).bind fun fieldType? => ?_
        cases fieldType? with
        | none => exact onMembers_pure _
        | some fieldType =>
          exact (scope.encodingOfTag_onMembers _ tag).bind fun _ => onMembers_pure _
termination_by structural line

end

end Scope

end ServiceTypes
