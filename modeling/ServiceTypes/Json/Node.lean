import ServiceTypes.Json.Token

/-!
# `ServiceTypes.Json.Node`: the tree of a JSON text

A node is a JSON value as written: strings and numbers are not
interpreted, and the members of an object stand in their order with
all repetitions. Whoever reads a node decides which of its parts are
interpreted, so a part that nobody asks for may hold a number beyond
all bounds or half of a surrogate pair.

* `Assembly.step` is a machine over tokens that keeps the open arrays
  and objects on a stack;
* `Node.ofTokens` and `Node.ofText` read a whole text.
-/

set_option autoImplicit false

namespace ServiceTypes.Json

mutual

/-- A JSON value as written. -/
inductive Node where
  | null
  | bool (value : Bool)
  | number (numeral : Numeral)
  | text (raw : RawText)
  | array (items : List Node)
  | object (members : List Member)

/-- A member of an object: the inside of its key, and its value. -/
structure Member where
  key : RawText
  value : Node

end

/-- The node that says nothing. -/
instance : Inhabited Node := ⟨.null⟩

/-! ### The machine -/

/-- An open array or object, its parts latest first. An object holds the key of the
member whose value is being read. -/
inductive Frame where
  | array (items : List Node)
  | object (members : List Member) (key : Option RawText)

/-- What may come next. -/
inductive Awaiting where
  /-- A value. -/
  | value
  /-- The first item of an array, or its end. -/
  | item
  /-- The first key of an object, or its end. -/
  | member
  /-- A further key. -/
  | key
  /-- The colon after a key. -/
  | colon
  /-- A comma or the end of the innermost array or object. -/
  | separator
  /-- Nothing: the value is complete. -/
  | nothing (result : Node)

/-- The machine: the open arrays and objects from the innermost on, and what may come. -/
structure Assembly where
  frames : List Frame
  awaiting : Awaiting

/-- The machine before a text. -/
def Assembly.start : Assembly := ⟨[], .value⟩

/-- A value is complete: it goes into the innermost open array or object. -/
def Assembly.complete (node : Node) : List Frame → Except Error Assembly
  | [] => .ok ⟨[], .nothing node⟩
  | .array items :: frames => .ok ⟨.array (node :: items) :: frames, .separator⟩
  | .object members (some key) :: frames =>
    .ok ⟨.object (⟨key, node⟩ :: members) none :: frames, .separator⟩
  | .object _ none :: _ => .error .malformed

/-- A token where a value is due. -/
def Assembly.value (frames : List Frame) : Token → Except Error Assembly
  | .null => complete .null frames
  | .bool b => complete (.bool b) frames
  | .number numeral => complete (.number numeral) frames
  | .text raw => complete (.text raw) frames
  | .openArray => .ok ⟨.array [] :: frames, .item⟩
  | .openObject => .ok ⟨.object [] none :: frames, .member⟩
  | _ => .error .malformed

/-- The end of the innermost array or object. -/
def Assembly.close : List Frame → Token → Except Error Assembly
  | .array items :: frames, .closeArray => complete (.array items.reverse) frames
  | .object members none :: frames, .closeObject => complete (.object members.reverse) frames
  | _, _ => .error .malformed

/-- A key of the innermost object. -/
def Assembly.key : List Frame → Token → Except Error Assembly
  | .object members _ :: frames, .text raw =>
    .ok ⟨.object members (some raw) :: frames, .colon⟩
  | _, _ => .error .malformed

/-- A comma after a part of the innermost array or object. -/
def Assembly.comma : List Frame → Except Error Assembly
  | .array items :: frames => .ok ⟨.array items :: frames, .value⟩
  | .object members key :: frames => .ok ⟨.object members key :: frames, .key⟩
  | [] => .error .malformed

/-- One token. -/
def Assembly.step (a : Assembly) (token : Token) : Except Error Assembly :=
  match a.awaiting, token with
  | .value, _ => value a.frames token
  | .item, .closeArray => close a.frames token
  | .item, _ => value a.frames token
  | .member, .closeObject => close a.frames token
  | .member, _ => key a.frames token
  | .key, _ => key a.frames token
  | .colon, .colon => .ok ⟨a.frames, .value⟩
  | .colon, _ => .error .malformed
  | .separator, .comma => comma a.frames
  | .separator, _ => close a.frames token
  | .nothing _, _ => .error .malformed

/-- The value, once it is complete. -/
def Assembly.finish (a : Assembly) : Except Error Node :=
  match a.awaiting with
  | .nothing result => .ok result
  | _ => .error .malformed

/-- The one value that tokens spell. -/
def Node.ofTokens (tokens : List Token) : Except Error Node := do
  let a ← tokens.foldlM Assembly.step Assembly.start
  a.finish

/-- The one value that a text spells. -/
def Node.ofText (text : List UInt8) : Except Error Node := do
  Node.ofTokens (← tokens text)

end ServiceTypes.Json
