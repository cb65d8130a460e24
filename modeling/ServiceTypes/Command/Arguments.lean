import ServiceTypes.Extraction

/-!
# `ServiceTypes.Command.Arguments`: the command line

A command line is `structs FILE` or `call URL ENDPOINT METHOD` with
options in any place behind the command, and `--trace` also in front of
it. An option with a value is given as `--name value`, where the value
must not start with a hyphen unless it is one, or as `--name=value`.
Everything behind `--` is an operand.

* `Given.scan` tells options from operands, by a table of the options
  that a command knows;
* `Invocation.ofArguments?` reads a command line; one that is refused
  has no invocation.
-/

set_option autoImplicit false

namespace ServiceTypes.Command

/-! ### Options and operands -/

/-- What an option takes. -/
inductive OptionKind where
  /-- No value. -/
  | flag
  /-- One value; the option is given once. -/
  | single
  /-- One value each time. -/
  | repeated
  deriving DecidableEq, Repr

/-- What a command line gives: its operands, and its options with their values. -/
structure Given where
  operands : List String
  options : List (String × Option String)
  deriving DecidableEq, Repr

/-- Adds an operand in front. -/
def Given.addOperand (operand : String) (given : Given) : Given :=
  { given with operands := operand :: given.operands }

/-- Adds an option in front. -/
def Given.addOption (name : String) (value : Option String) (given : Given) : Given :=
  { given with options := (name, value) :: given.options }

/-- What an argument is by its first characters. -/
inductive ArgumentForm where
  /-- `--` alone: the options end. -/
  | separator
  /-- `--name` or `--name=value`. -/
  | long (name : String) (value : Option String)
  /-- A hyphen and more. -/
  | short
  /-- Anything else. -/
  | plain
  deriving DecidableEq, Repr

/-- The form of an argument. -/
def ArgumentForm.of (argument : String) : ArgumentForm :=
  match argument.toList with
  | ['-', '-'] => .separator
  | '-' :: '-' :: rest =>
    let name := String.ofList (rest.takeWhile (· ≠ '='))
    match rest.dropWhile (· ≠ '=') with
    | [] => .long name none
    | _ :: value => .long name (some (String.ofList value))
  | '-' :: _ :: _ => .short
  | _ => .plain

/-- Tells options from operands; an option that the table does not know, or one without
its value or with a value that it does not take, is refused. -/
def Given.scan (table : List (String × OptionKind)) : List String → Option Given
  | [] => some ⟨[], []⟩
  | argument :: rest =>
    match ArgumentForm.of argument with
    | .separator => some ⟨rest, []⟩
    | .short => none
    | .plain => (Given.scan table rest).map (Given.addOperand argument)
    | .long name value =>
      match table.lookup name, value with
      | none, _ => none
      | some .flag, none => (Given.scan table rest).map (Given.addOption name none)
      | some .flag, some _ => none
      | some _, some value => (Given.scan table rest).map (Given.addOption name (some value))
      | some _, none =>
        match rest with
        | [] => none
        | value :: rest =>
          if ArgumentForm.of value = .plain then
            (Given.scan table rest).map (Given.addOption name (some value))
          else none

/-- Whether no option is given more often than it may be. -/
def Given.isConsistent (table : List (String × OptionKind)) (given : Given) : Bool :=
  table.all fun (name, kind) =>
    kind = .repeated || (given.options.filter fun option => option.1 = name).length ≤ 1

/-- Whether an option is given. -/
def Given.has (given : Given) (name : String) : Bool :=
  given.options.any fun option => option.1 = name

/-- The values of an option in their order. -/
def Given.values (given : Given) (name : String) : List String :=
  given.options.filterMap fun option => if option.1 = name then option.2 else none

/-- The value of an option that is given once. -/
def Given.value? (given : Given) (name : String) : Option String :=
  (given.values name).head?

/-! ### The commands -/

/-- The arguments of `structs`. -/
structure StructsArguments where
  /-- The file of the document. -/
  file : String
  /-- The name of the package. -/
  package : String
  /-- The path of the package, if it is not its name. -/
  path : Option String
  tagKey : String
  allTypes : Bool
  /-- The name of the structs to print, if not all are. -/
  structName : Option String
  /-- Whether diagnostics are printed. -/
  diagnostics : Bool
  /-- Whether JSON is printed. -/
  json : Bool
  deriving DecidableEq, Repr

/-- The arguments of `call`. -/
structure CallArguments where
  url : String
  endpoint : String
  method : String
  /-- The JSON texts of the arguments. -/
  arguments : List String
  /-- The seconds after which the request is given up. -/
  maxTime : Option Nat
  deriving DecidableEq, Repr

/-- A command with its arguments. -/
inductive Invocation where
  | structs (arguments : StructsArguments)
  | call (arguments : CallArguments)
  deriving DecidableEq, Repr

/-- The options that may stand in front of a command. -/
def commonOptions : List (String × OptionKind) := [("trace", .flag)]

/-- The options of `structs`. -/
def structsOptions : List (String × OptionKind) :=
  commonOptions ++
    [("package", .single), ("path", .single), ("tag-key", .single), ("all-types", .flag),
      ("struct", .single), ("diagnostics", .flag), ("json", .flag)]

/-- The options of `call`. -/
def callOptions : List (String × OptionKind) :=
  commonOptions ++ [("arg", .repeated), ("max-time", .single)]

/-- The greatest number of seconds. -/
def greatestSeconds : Nat := 0xFFFFFFFF

/-- Reads a number of seconds. A plus sign may stand in front of it, and a minus sign in
front of a zero. -/
def readSeconds? (text : String) : Option Nat :=
  let (negative, digits) :=
    match text.toList with
    | '+' :: rest => (false, rest)
    | '-' :: rest => (true, rest)
    | rest => (false, rest)
  if digits.isEmpty || !digits.all Char.isDigit then none
  else
    let n := Nat.ofDigitChars 10 digits 0
    if n ≤ greatestSeconds ∧ (negative → n = 0) then some n else none

/-- Reads the arguments of `structs`. -/
def StructsArguments.ofGiven? (given : Given) : Option StructsArguments := do
  let [file] := given.operands | none
  if file.isEmpty then none
  let package ← given.value? "package"
  return {
    file, package
    path := given.value? "path"
    tagKey := (given.value? "tag-key").getD "json"
    allTypes := given.has "all-types"
    structName := given.value? "struct"
    diagnostics := given.has "diagnostics"
    json := given.has "json" }

/-- Reads the arguments of `call`. -/
def CallArguments.ofGiven? (given : Given) : Option CallArguments := do
  let [url, endpoint, method] := given.operands | none
  let maxTime ←
    match given.value? "max-time" with
    | none => some none
    | some text => (readSeconds? text).map some
  return { url, endpoint, method, arguments := given.values "arg", maxTime }

/-- Reads a command line behind the name of its command. -/
def Invocation.ofCommand? (command : String) (rest : List String) : Option Invocation :=
  if command = "structs" then do
    let given ← Given.scan structsOptions rest
    if !given.isConsistent structsOptions then none
    Invocation.structs <$> StructsArguments.ofGiven? given
  else if command = "call" then do
    let given ← Given.scan callOptions rest
    if !given.isConsistent callOptions then none
    Invocation.call <$> CallArguments.ofGiven? given
  else none

/-- Reads a command line. -/
def Invocation.ofArguments? : List String → Option Invocation
  | [] => none
  | first :: rest =>
    if first = "--trace" then
      match rest with
      | [] => none
      | command :: rest => Invocation.ofCommand? command rest
    else Invocation.ofCommand? first rest

end ServiceTypes.Command
