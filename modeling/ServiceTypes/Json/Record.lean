import ServiceTypes.Json.Value

/-!
# `ServiceTypes.Json.Record`: reading records from nodes

A record has named members. It is written as an object, whose unknown
members are skipped without a look at their values, or as an array of
the values of all members in the order of the record, of which the last
ones may be left out. What is absent has a default or is an error; a
known member that an object gives twice is an error as well.

* `Record.ofNode` finds the members of a record in a node;
* `Record.required`, `Record.optional` and `Record.orDefault` read one
  member.
-/

set_option autoImplicit false

namespace ServiceTypes.Json

/-! ### Nodes of simple form -/

/-- The text that a string node stands for. -/
def Node.readText : Node → Except Error String
  | .text raw => raw.text
  | _ => .error (.unexpected "a string")

/-- The items of an array node. -/
def Node.readItems : Node → Except Error (List Node)
  | .array items => .ok items
  | _ => .error (.unexpected "an array")

/-- Reads a list item by item, where `depth` more arrays and objects may be opened. -/
def Node.readList {α : Type} (read : Nat → Node → Except Error α) :
    Nat → Node → Except Error (List α)
  | 0, _ => .error .tooDeep
  | depth + 1, node => do (← node.readItems).mapM (read depth)

/-- Reads a list of strings. -/
def Node.readTexts : Nat → Node → Except Error (List String) :=
  Node.readList fun _ => Node.readText

/-- The members of an object with their keys as texts. -/
def Member.named (members : List Member) : Except Error (List (String × Node)) :=
  members.mapM fun m => do
    let key ← m.key.text
    return (key, m.value)

/-! ### Records -/

/-- The members of a record that a node gives. -/
structure Record where
  members : List (String × Node)

/-- The first name that stands twice in a list. -/
def firstRepeated? : List String → Option String
  | [] => none
  | name :: rest => if name ∈ rest then some name else firstRepeated? rest

/-- The record of an object: of its members those with a name of the record. -/
def Record.ofPairs (names : List String) (pairs : List (String × Node)) :
    Except Error Record :=
  let known := pairs.filter fun pair => pair.1 ∈ names
  match firstRepeated? (known.map Prod.fst) with
  | some name => .error (.repeated name)
  | none => .ok ⟨known⟩

/-- The record of an array: its items are the first members of the record. -/
def Record.ofItems (names : List String) (items : List Node) : Except Error Record :=
  if items.length ≤ names.length then .ok ⟨names.zip items⟩
  else .error (.unexpected "fewer items")

/-- The record that a node writes. -/
def Record.ofNode (names : List String) : Node → Except Error Record
  | .object members => do Record.ofPairs names (← Member.named members)
  | .array items => Record.ofItems names items
  | _ => .error (.unexpected "a record")

/-- A member without default. -/
def Record.required {α : Type} (r : Record) (name : String) (read : Node → Except Error α) :
    Except Error α :=
  match r.members.lookup name with
  | some node => read node
  | none => .error (.missing name)

/-- A member with a default. -/
def Record.orDefault {α : Type} (r : Record) (name : String) (default : α)
    (read : Node → Except Error α) : Except Error α :=
  match r.members.lookup name with
  | some node => read node
  | none => .ok default

/-- A member that may be absent or null. -/
def Record.optional {α : Type} (r : Record) (name : String) (read : Node → Except Error α) :
    Except Error (Option α) :=
  match r.members.lookup name with
  | some .null | none => .ok none
  | some node => some <$> read node

end ServiceTypes.Json
