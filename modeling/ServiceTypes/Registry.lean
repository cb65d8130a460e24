import ServiceTypes.Keyed
import ServiceTypes.Model.Writing

/-!
# `ServiceTypes.Registry`: the structs of a package

A registry keeps structs in slots, in the order in which their keys came
up, and an index from keys to slots. A slot is entered empty and filled
in place, so a slot taken early stays good. A slot keeps its key even if
the struct in it is given another name.

* `Registry.enter`, `Registry.fill` and `Registry.modify` change a
  registry;
* `Registry.slot?`, `Registry.idOf?`, `Registry.find?` and
  `Registry.resolve` look things up;
* `Registry.toList` and `Registry.toJson` list it in ascending key
  order, and `Registry.handOver` gives the structs away.
-/

set_option autoImplicit false

namespace ServiceTypes

open Model (Field QualifiedName Struct)

/-- A handle to a slot: its number in the order of allocation. A handle of 32 bits agrees with it
as long as fewer than 2 ^ 32 slots are allocated. -/
structure SlotId where
  number : Nat
  deriving DecidableEq, Repr

/-- The structs of a package. -/
structure Registry where
  /-- The structs in the order of their slots. -/
  slots : Array Struct
  /-- The slots of the keys. -/
  index : Keyed SlotId

namespace Registry

/-- The registry without structs. -/
def empty : Registry := ⟨#[], Keyed.empty⟩

/-- A registry starts out empty. -/
instance : Inhabited Registry := ⟨empty⟩

/-! ### Changes -/

/-- Changes the struct in a slot in place. -/
def modify (r : Registry) (id : SlotId) (change : Struct → Struct) : Registry :=
  { r with slots := r.slots.modify id.number change }

/-- Enters an empty struct under its key. A slot of the same key is cleared and used
again. -/
def enter (r : Registry) (package name : String) : SlotId × Registry :=
  let key := Model.qualifiedKey package name
  match r.index.get? key with
  | some id => (id, r.modify id fun _ => Struct.empty package name)
  | none =>
    let id : SlotId := ⟨r.slots.size⟩
    (id, { slots := r.slots.push (Struct.empty package name), index := r.index.insert key id })

/-- Replaces the fields of a slot. -/
def fill (r : Registry) (id : SlotId) (fields : List Field) : Registry :=
  r.modify id fun s => { s with fields }

/-! ### Look-up -/

/-- The struct in a slot. -/
def slot? (r : Registry) (id : SlotId) : Option Struct := r.slots[id.number]?

/-- The slot of a key. -/
def idOf? (r : Registry) (key : String) : Option SlotId := r.index.get? key

/-- Whether a key has a slot. -/
def contains (r : Registry) (key : String) : Bool := (r.idOf? key).isSome

/-- The struct under a key. -/
def find? (r : Registry) (key : String) : Option Struct := (r.idOf? key).bind r.slot?

/-- The struct that a reference stands for. -/
def resolve (r : Registry) (target : QualifiedName) : Option Struct := r.find? target.key

/-- The number of slots. -/
def size (r : Registry) : Nat := r.slots.size

/-- Whether there is no slot. -/
def isEmpty (r : Registry) : Bool := r.slots.isEmpty

/-! ### Listing -/

/-- The keys with their structs in ascending key order. -/
def toList (r : Registry) : List (String × Struct) :=
  r.index.entries.filterMap fun (key, id) => (r.slot? id).map fun s => (key, s)

/-- Writes a registry: a member for each key, in ascending order. -/
def toJson (r : Registry) : Json.Value :=
  .object (r.toList.map fun (key, s) => (key, s.toJson))

/-- Gives the structs of slots to keys, each slot to the first key that asks for it. -/
def handOut (slots : Array (Option Struct)) : List (String × SlotId) → List (String × Struct)
  | [] => []
  | (key, id) :: rest =>
    match slots[id.number]?.join with
    | some s => (key, s) :: handOut (slots.setIfInBounds id.number none) rest
    | none => handOut slots rest

/-- Gives the structs away under their keys. -/
def handOver (r : Registry) : List (String × Struct) :=
  handOut (r.slots.map some) r.index.entries

end Registry

end ServiceTypes
