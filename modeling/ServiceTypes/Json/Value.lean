import ServiceTypes.Json.Node
import ServiceTypes.Keyed

/-!
# `ServiceTypes.Json.Value`: interpreted JSON values

A value is a JSON value with its strings and numbers interpreted. The
members of an object are a list: in ascending key order, and without
repetition, in every value that was read, and in the order of the
record in a value that writes a record.

* `Value.ofNode` interprets a node, of which only so many arrays and
  objects may be open at once; of equal keys the last one stays;
* `Value.compact` writes a value without spaces, `Value.pretty` with one
  part on a line.
-/

set_option autoImplicit false

namespace ServiceTypes.Json

/-- An interpreted JSON value. -/
inductive Value where
  | null
  | bool (value : Bool)
  | number (value : Number)
  | text (value : String)
  | array (items : List Value)
  | object (members : List (String × Value))
  deriving Repr, BEq

/-- The value that says nothing. -/
instance : Inhabited Value := ⟨.null⟩

/-! ### Reading -/

/-- So many arrays and objects may be open at once. -/
def nestingLimit : Nat := 127

/-- Interprets a node in which `depth` more arrays and objects may be opened. -/
def Value.ofNode : Nat → Node → Except Error Value
  | _, .null => .ok .null
  | _, .bool b => .ok (.bool b)
  | _, .number numeral =>
    match numeral.number? with
    | some n => .ok (.number n)
    | none => .error .numberOutOfRange
  | _, .text raw => .text <$> raw.text
  | 0, _ => .error .tooDeep
  | depth + 1, .array items => .array <$> items.mapM (Value.ofNode depth)
  | depth + 1, .object members => do
    let pairs ← members.mapM fun m => do
      let key ← m.key.text
      let value ← Value.ofNode depth m.value
      return (key, value)
    return .object (ofEntries pairs)

/-- The value that a text spells. -/
def Value.ofText (text : List UInt8) : Except Error Value := do
  Value.ofNode nestingLimit (← Node.ofText text)

/-! ### Writing -/

/-- A hexadecimal digit in lower case. -/
def hexDigit (n : Nat) : Char :=
  Nat.digitChar (n % 16)

/-- A character in a string. Quotes, backslashes and controls are escaped, the controls
by a letter where there is one. -/
def escape (c : Char) : List Char :=
  if c = '"' then ['\\', '"']
  else if c = '\\' then ['\\', '\\']
  else if 0x20 ≤ c.toNat then [c]
  else if c.toNat = 0x08 then ['\\', 'b']
  else if c = '\t' then ['\\', 't']
  else if c = '\n' then ['\\', 'n']
  else if c.toNat = 0x0C then ['\\', 'f']
  else if c = '\r' then ['\\', 'r']
  else ['\\', 'u', '0', '0', hexDigit (c.toNat / 16), hexDigit c.toNat]

/-- A string with its quotes. -/
def quoted (s : String) : String :=
  "\"" ++ String.ofList (s.toList.flatMap escape) ++ "\""

mutual

/-- The text of a value, without spaces. -/
def Value.compact : Value → String
  | .null => "null"
  | .bool true => "true"
  | .bool false => "false"
  | .number n => String.ofList n.text
  | .text s => quoted s
  | .array items => "[" ++ ",".intercalate (compactItems items) ++ "]"
  | .object members => "\x7b" ++ ",".intercalate (compactMembers members) ++ "\x7d"
termination_by structural v => v

/-- The texts of the items of an array. -/
def compactItems : List Value → List String
  | [] => []
  | item :: rest => item.compact :: compactItems rest
termination_by structural v => v

/-- The texts of the members of an object. -/
def compactMembers : List (String × Value) → List String
  | [] => []
  | (key, value) :: rest => (quoted key ++ ":" ++ value.compact) :: compactMembers rest
termination_by structural v => v

end

/-- A line end and the indent of a level: two spaces each. -/
def newLine (level : Nat) : String :=
  String.ofList ('\n' :: List.replicate (2 * level) ' ')

/-- Parts one to a line between brackets, which stand directly beside each other when
there is no part. -/
def bracketed (opening closing : String) (level : Nat) (parts : List String) : String :=
  if parts.isEmpty then opening ++ closing
  else
    opening ++ newLine (level + 1) ++ ("," ++ newLine (level + 1)).intercalate parts
      ++ newLine level ++ closing

mutual

/-- The text of a value at a level of nesting, with one part on a line. -/
def Value.pretty (level : Nat) : Value → String
  | .array items => bracketed "[" "]" level (prettyItems (level + 1) items)
  | .object members => bracketed "\x7b" "\x7d" level (prettyMembers (level + 1) members)
  | .null => "null"
  | .bool true => "true"
  | .bool false => "false"
  | .number n => String.ofList n.text
  | .text s => quoted s
termination_by structural v => v

/-- The texts of the items of an array at a level of nesting. -/
def prettyItems (level : Nat) : List Value → List String
  | [] => []
  | item :: rest => item.pretty level :: prettyItems level rest
termination_by structural v => v

/-- The texts of the members of an object at a level of nesting. -/
def prettyMembers (level : Nat) : List (String × Value) → List String
  | [] => []
  | (key, value) :: rest =>
    (quoted key ++ ": " ++ value.pretty level) :: prettyMembers level rest
termination_by structural v => v

end

end ServiceTypes.Json
