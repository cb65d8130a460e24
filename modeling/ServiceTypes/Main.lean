import ServiceTypes.Command.Report

/-!
# `ServiceTypes.Main`: the program

`structs` reads its file and prints the report. `call` does not start
`curl` itself: the response as `curl --include` writes it is read from
the standard input. The code is 0 after a report, 1 after a failure, and
2 if the command line is refused.
-/

set_option autoImplicit false

namespace ServiceTypes.Command

/-- The octets of a file, unless it cannot be read. -/
def readFile? (path : String) : IO (Option (List UInt8)) :=
  try
    let contents ← IO.FS.readBinFile path
    return some contents.data.toList
  catch _ => return none

/-- The octets of a stream, which are read as long as some come. -/
partial def readAll (stream : IO.FS.Stream) (seen : ByteArray) : IO ByteArray := do
  let chunk ← stream.read 65536
  if chunk.isEmpty then return seen else readAll stream (seen ++ chunk)

/-- What a command prints. -/
def reportOf : Invocation → IO (Except Failure String)
  | .structs a => do return structsReport a (← readFile? a.file)
  | .call a => do
    match a.call with
    | .error failure => return .error failure
    | .ok call => do
      let response ← readAll (← IO.getStdin) ByteArray.empty
      return callReport a call fun _ => .exited 0 response.data.toList []

/-- The words for a command line that is refused. -/
def usage : String :=
  "usage: structs FILE --package NAME [options] | call URL ENDPOINT METHOD [options]"

/-- Runs a command line. -/
def run (arguments : List String) : IO UInt32 := do
  match Invocation.ofArguments? arguments with
  | none =>
    IO.eprintln usage
    return 2
  | some invocation =>
    match ← reportOf invocation with
    | .ok text =>
      IO.print text
      return 0
    | .error failure =>
      IO.eprintln ("error: " ++ failure.message)
      return 1

end ServiceTypes.Command

/-- The program. -/
def main (arguments : List String) : IO UInt32 :=
  ServiceTypes.Command.run arguments
