/-!
# `ServiceTypes.Text.Lines`: lines of a text, and letters without case

* `lines` cuts a text at its line feeds. A carriage return directly
  before a line feed belongs to the line end; one at the end of the
  last, unterminated line belongs to the line.
* `equalsIgnoringCase` compares texts up to the case of ASCII letters.
-/

set_option autoImplicit false

namespace ServiceTypes.Text

/-- A line without the carriage return of its line end. -/
def dropCarriageReturn (line : List Char) : List Char :=
  if line.getLast? = some '\r' then line.dropLast else line

/-- Drops the carriage return of each terminated line; a last part without a line end
is a line only if it holds something. -/
def finishLines : List (List Char) → List (List Char)
  | [] => []
  | [last] => if last.isEmpty then [] else [last]
  | line :: rest => dropCarriageReturn line :: finishLines rest

/-- The lines of a text, without their line ends. -/
def lines (cs : List Char) : List (List Char) :=
  finishLines (cs.splitOn '\n')

/-- Equality up to the case of ASCII letters. -/
def equalsIgnoringCase (a b : String) : Bool :=
  a.toList.map Char.toLower == b.toList.map Char.toLower

example : lines "a\r\nb\nc\r".toList = ["a".toList, "b".toList, "c\r".toList] := by decide
example : lines "a\n\n".toList = ["a".toList, []] ∧ lines [] = [] := by decide

end ServiceTypes.Text
