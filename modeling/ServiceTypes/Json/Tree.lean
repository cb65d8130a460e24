import ServiceTypes.Json.Value

/-!
# `ServiceTypes.Json.Tree`: values as trees

An object is a list of members, but its members are told apart by their
names, and no meaning is in their order.

* `Value.required` and `Value.optional` read the member of a name. The
  value of a member is smaller than the value that it is taken from, so
  readers may recurse on it;
* `Value.sorted` puts the members of all objects into ascending order.
  Two values are the same tree if they are the same sorted value.
-/

set_option autoImplicit false

namespace ServiceTypes.Json

/-! ### Members by name -/

/-- The members of an object. No other value has any. -/
def Value.members : Value → List (String × Value)
  | .object members => members
  | _ => []

/-- The value of a member is smaller than the value around it. -/
theorem Value.sizeOf_lt_of_lookup {v w : Value} {name : String}
    (h : v.members.lookup name = some w) : sizeOf w < sizeOf v := by
  cases v with
  | object members =>
    obtain ⟨before, after, hmembers, -⟩ := List.lookup_eq_some_iff.mp h
    have hmem : (name, w) ∈ members := by
      show (name, w) ∈ (Value.object members).members
      rw [hmembers]
      exact List.mem_append_right _ List.mem_cons_self
    have hpair := List.sizeOf_lt_of_mem hmem
    rw [Prod.mk.sizeOf_spec] at hpair
    rw [Value.object.sizeOf_spec]
    omega
  | _ => cases h

/-- Reads the member of a name, which must be there. -/
def Value.required {α : Type} (v : Value) (name : String)
    (read : (w : Value) → sizeOf w < sizeOf v → Option α) : Option α :=
  match h : v.members.lookup name with
  | some w => read w (Value.sizeOf_lt_of_lookup h)
  | none => none

/-- Reads the member of a name, if it is there. -/
def Value.optional {α : Type} (v : Value) (name : String) (read : Value → Option α) :
    Option (Option α) :=
  match v.members.lookup name with
  | some w => (read w).map some
  | none => some none

/-- The text that a value is. -/
def Value.text? : Value → Option String
  | .text s => some s
  | _ => none

/-- The truth value that a value is. -/
def Value.bool? : Value → Option Bool
  | .bool b => some b
  | _ => none

/-! ### The order of members -/

mutual

/-- The value with the members of all its objects in ascending order of their names. Of
members of one name the last stays. -/
def Value.sorted : Value → Value
  | .array items => .array (sortedItems items)
  | .object members => .object (ofEntries (sortedMembers members))
  | .null => .null
  | .bool b => .bool b
  | .number n => .number n
  | .text s => .text s
termination_by structural v => v

/-- The items of an array with their own members in order. -/
def sortedItems : List Value → List Value
  | [] => []
  | item :: rest => item.sorted :: sortedItems rest
termination_by structural items => items

/-- The members of an object, as they are, with the members of their values in order. -/
def sortedMembers : List (String × Value) → List (String × Value)
  | [] => []
  | (name, value) :: rest => (name, value.sorted) :: sortedMembers rest
termination_by structural members => members

end

end ServiceTypes.Json
