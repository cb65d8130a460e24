import ServiceTypes.Source.TypeExpr

/-!
# `ServiceTypes.Diagnostic`: what happened during extraction

Extraction never fails inside a declaration. What it leaves out or
degrades is reported, and so is its progress.

* `Diagnostic` lists the events, `Diagnostic.message` words them;
* `Diagnostic.isProblem` tells an omission from progress, and
  `Diagnostic.level` gives the level it is logged at;
* `Reported` is a result with the diagnostics of its computation, in
  order. It is a lawful monad.
-/

set_option autoImplicit false

namespace ServiceTypes

open Source (Form)

/-! ### Diagnostics -/

/-- An event during extraction. -/
inductive Diagnostic where
  /-- Extraction of the package of a path started. -/
  | readingPackage (path : String)
  /-- A file is read. -/
  | readingFile (name : String)
  /-- The struct of a key is filled. -/
  | readingStruct (key : String)
  /-- A field has a type expression of a form that has no model. -/
  | unsupportedExpr (field : String) (form : Form)
  /-- A field has a selector whose qualifier is no identifier. -/
  | unsupportedSelector (field name : String)
  /-- A field has a map whose key is no identifier. -/
  | unsupportedMapKey (field : String) (form : Form)
  /-- A field has a qualifier that no import declares. -/
  | unknownImport (field localName : String)
  /-- A field has a tag literal or an entry that stands for no text. -/
  | undecodableTag (field literal : String)
  /-- A struct embeds a type without a field name; the owner is empty in a struct type
  that is written in place. -/
  | embeddedField (owner : String)
  /-- A type declaration declares no struct. -/
  | notAStruct (key : String) (form : Form)
  /-- A type is declared again under its key. -/
  | duplicateType (key : String)
  deriving DecidableEq, Repr

namespace Diagnostic

/-- Whether something was left out or degraded. -/
def isProblem : Diagnostic → Bool
  | .readingPackage _ | .readingFile _ | .readingStruct _ => false
  | _ => true

/-- The event in words. -/
def message : Diagnostic → String
  | .readingPackage path => "reading files in package " ++ path
  | .readingFile name => "reading file " ++ name
  | .readingStruct key => "reading struct " ++ key
  | .unsupportedExpr field form =>
    "field " ++ field ++ ": unsupported " ++ form.label ++ " expression"
  | .unsupportedSelector field name =>
    "field " ++ field ++ ": selector ." ++ name ++ " on a non-identifier"
  | .unsupportedMapKey field form =>
    "field " ++ field ++ ": " ++ form.label ++ " map key treated as non-scalar"
  | .unknownImport field localName =>
    "field " ++ field ++ ": unknown import alias " ++ localName
  | .undecodableTag field literal =>
    "field " ++ field ++ ": tag " ++ literal ++ " could not be decoded"
  | .embeddedField owner => owner ++ ": embedded field skipped"
  | .notAStruct key form =>
    key ++ ": " ++ form.label ++ " declaration registered without fields"
  | .duplicateType key => key ++ ": declared more than once, keeping the last"

/-- A level of logging. -/
inductive Level where
  | trace
  | debug
  deriving DecidableEq, Repr

/-- Progress is traced; problems are of interest for debugging. -/
def level (d : Diagnostic) : Level :=
  if d.isProblem then .debug else .trace

end Diagnostic

/-! ### Results with their diagnostics -/

/-- A result with the diagnostics of its computation. -/
structure Reported (α : Type) where
  result : α
  events : List Diagnostic

namespace Reported

variable {α β : Type}

/-- A result without diagnostics. -/
protected def pure (a : α) : Reported α := ⟨a, []⟩

/-- Goes on with a result; the later diagnostics come behind the earlier ones. -/
protected def bind (r : Reported α) (f : α → Reported β) : Reported β :=
  let next := f r.result
  ⟨next.result, r.events ++ next.events⟩

/-- Computations are run one behind the other, with all that they report. -/
instance : Monad Reported where
  pure := Reported.pure
  bind := Reported.bind

/-- Reports one event. -/
def report (d : Diagnostic) : Reported Unit := ⟨(), [d]⟩

/-- A result alone is given back. -/
@[simp] theorem result_pure (a : α) : (pure a : Reported α).result = a := rfl

/-- A result alone reports nothing. -/
@[simp] theorem events_pure (a : α) : (pure a : Reported α).events = [] := rfl

/-- The result is the one of the later computation. -/
@[simp] theorem result_bind (r : Reported α) (f : α → Reported β) :
    (r >>= f).result = (f r.result).result := rfl

/-- The earlier diagnostics come first. -/
@[simp] theorem events_bind (r : Reported α) (f : α → Reported β) :
    (r >>= f).events = r.events ++ (f r.result).events := rfl

/-- A function is applied to the result. -/
@[simp] theorem result_map (f : α → β) (r : Reported α) : (f <$> r).result = f r.result := rfl

/-- A function of the result reports nothing. -/
@[simp] theorem events_map (f : α → β) (r : Reported α) : (f <$> r).events = r.events := by
  show r.events ++ [] = r.events
  exact List.append_nil _

/-- A report has no result to speak of. -/
@[simp] theorem result_report (d : Diagnostic) : (report d).result = () := rfl

/-- A report is its one event. -/
@[simp] theorem events_report (d : Diagnostic) : (report d).events = [d] := rfl

/-- Two results are equal if their values and their diagnostics are. -/
@[ext] theorem ext {r s : Reported α} (result : r.result = s.result)
    (events : r.events = s.events) : r = s := by
  cases r
  cases s
  simp_all

/-- Reports are appended, so the grouping of computations does not count. -/
instance : LawfulMonad Reported :=
  LawfulMonad.mk' Reported
    (fun r => by ext1 <;> simp)
    (fun _ _ => by ext1 <;> simp)
    (fun _ _ _ => by ext1 <;> simp)

end Reported

end ServiceTypes
