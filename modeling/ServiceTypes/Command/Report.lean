import ServiceTypes.Call.Curl
import ServiceTypes.Command.Arguments
import ServiceTypes.Source.Reading

/-!
# `ServiceTypes.Command.Report`: what the commands print

The commands without their input and output: given what a file holds or
what became of a run of `curl`, they say what is printed or why the
command fails.

* `structsReport` prints the structs of a package as text or as JSON;
* `CallArguments.call` is the call of a command line, and `callReport`
  prints its reply.
-/

set_option autoImplicit false

namespace ServiceTypes.Command

open Json (Value)
open Model (Field Struct)

/-- Why a command fails. -/
inductive Failure where
  /-- The file cannot be read. -/
  | io
  /-- There is no registry. -/
  | extraction (cause : ExtractionError)
  /-- No struct has the name. -/
  | structNotFound (name : String)
  /-- An argument is no JSON text. -/
  | argument (index : Nat) (cause : Json.Error)
  /-- The call fails. -/
  | call (cause : CallError)
  deriving DecidableEq, Repr

/-- What is wrong, in words. -/
def Failure.message : Failure → String
  | .io => "io"
  | .extraction cause => cause.message
  | .structNotFound name => "struct not found: " ++ name
  | .argument index cause =>
    "argument " ++ toString index ++ " is not valid json: " ++ cause.message
  | .call cause => cause.message

/-! ### Structs -/

/-- The options of extraction that a command line asks for. -/
def StructsArguments.options (a : StructsArguments) : Options :=
  { tagKey := a.tagKey, exportedTypesOnly := !a.allTypes }

/-- The path that qualifies the structs. -/
def StructsArguments.qualifier (a : StructsArguments) : String :=
  a.path.getD a.package

/-- A field on a line: its name, its type and its encoding, with tabs between. -/
def fieldLine (field : Field) : String :=
  "  " ++ field.name ++ "\t" ++ field.type.text
    ++ (match field.encoding with
      | some encoding => "\t" ++ encoding.text
      | none => "")
    ++ "\n"

/-- A struct: its key on a line, and its fields below. -/
def structLines (entry : String × Struct) : String :=
  entry.1 ++ "\n" ++ String.join (entry.2.fields.map fieldLine)

/-- The diagnostics with their number. -/
def diagnosticLines (problems : List Diagnostic) : String :=
  "diagnostics: " ++ toString problems.length ++ "\n"
    ++ String.join (problems.map fun d => "  " ++ d.message ++ "\n")

/-- The report as text. -/
def structsText (a : StructsArguments) (count : Nat) (selected : List (String × Struct))
    (problems : List Diagnostic) : String :=
  "file: " ++ a.file ++ "\n"
    ++ "package: " ++ a.qualifier ++ "\n"
    ++ "structs: " ++ toString count ++ "\n"
    ++ String.join (selected.map structLines)
    ++ (if a.diagnostics then diagnosticLines problems else "")

/-- The report as JSON. -/
def structsJson (a : StructsArguments) (count : Nat) (selected : List (String × Struct))
    (problems : List Diagnostic) : Value :=
  .object
    [("package", .text a.qualifier), ("count", .number (.integer count)),
      ("structs", .object (selected.map fun (key, s) => (key, s.toJson))),
      ("diagnostics",
        .array (if a.diagnostics then problems.map fun d => .text d.message else []))]

/-- Whether a command line asks for a struct. -/
def StructsArguments.selects (a : StructsArguments) (s : Struct) : Bool :=
  match a.structName with
  | none => true
  | some name => s.name = name

/-- What `structs` prints when its file holds the given octets, or cannot be read. -/
def structsReport (a : StructsArguments) (contents : Option (List UInt8)) :
    Except Failure String := do
  let some octets := contents | .error .io
  let document ←
    match Source.Document.ofText octets with
    | .ok document => pure document
    | .error cause => .error (.extraction (.document cause))
  let extracted ←
    match document.extract a.package a.qualifier a.options with
    | .ok extracted => pure extracted
    | .error cause => .error (.extraction cause)
  let selected := extracted.result.toList.filter fun entry => a.selects entry.2
  match a.structName, selected with
  | some name, [] => .error (.structNotFound name)
  | _, _ =>
    let problems := extracted.events.filter Diagnostic.isProblem
    let count := extracted.result.size
    return if a.json then (structsJson a count selected problems).pretty 0 ++ "\n"
      else structsText a count selected problems

/-! ### Calls -/

/-- Adds the arguments of a command line from the given number on. -/
def addArguments (call : Call) (index : Nat) : List String → Except Failure Call
  | [] => .ok call
  | text :: rest =>
    match Value.ofText (Text.utf8 text) with
    | .error cause => .error (.argument index cause)
    | .ok value =>
      match call.add (.ok value) with
      | .error cause => .error (.call cause)
      | .ok call => addArguments call (index + 1) rest

/-- The call of a command line. -/
def CallArguments.call (a : CallArguments) : Except Failure Call :=
  addArguments (Call.ofMethod a.url a.endpoint a.method) 0 a.arguments

/-- The transport of a command line. -/
def CallArguments.curl (a : CallArguments) : Curl := { maxTime := a.maxTime }

/-- What `call` prints when the run of `curl` for its request went as given. -/
def callReport (a : CallArguments) (call : Call) (run : Request → Run) :
    Except Failure String :=
  match call.send (fun request => a.curl.response (run request)) Except.ok with
  | .ok items => .ok ((Value.array items).pretty 0 ++ "\n")
  | .error cause => .error (.call cause)

end ServiceTypes.Command
