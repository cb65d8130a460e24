import ServiceTypes.Json.Value

/-!
# `ServiceTypes.Call.Reply`: readers for the slots of a reply

A reply is a list of values, one for each slot. A reader takes one
value; no reader converts between kinds of values, so a float is never
an integer, whatever its value is.

* `text`, `bool`, `integerBetween` and `optional` read one slot;
* `slot1`, `slot2`, `slot3` and `every` read a whole reply, whose length
  has to fit.
-/

set_option autoImplicit false

namespace ServiceTypes.Reply

open Json (Error Value)

variable {α β γ : Type}

/-- A text. -/
def text : Value → Except Error String
  | .text s => .ok s
  | _ => .error (.unexpected "a string")

/-- A truth value. -/
def bool : Value → Except Error Bool
  | .bool b => .ok b
  | _ => .error (.unexpected "a boolean")

/-- An integer between two bounds, both included. -/
def integerBetween (low high : Int) : Value → Except Error Int
  | .number (.integer n) =>
    if low ≤ n ∧ n ≤ high then .ok n else .error .numberOutOfRange
  | _ => .error (.unexpected "an integer")

/-- Something or null. -/
def optional (read : Value → Except Error α) : Value → Except Error (Option α)
  | .null => .ok none
  | value => some <$> read value

/-- A reply of one slot. -/
def slot1 (read : Value → Except Error α) : List Value → Except Error α
  | [a] => read a
  | _ => .error (.unexpected "one item")

/-- A reply of two slots. -/
def slot2 (first : Value → Except Error α) (second : Value → Except Error β) :
    List Value → Except Error (α × β)
  | [a, b] => do return (← first a, ← second b)
  | _ => .error (.unexpected "two items")

/-- A reply of three slots. -/
def slot3 (first : Value → Except Error α) (second : Value → Except Error β)
    (third : Value → Except Error γ) : List Value → Except Error (α × β × γ)
  | [a, b, c] => do return (← first a, ← second b, ← third c)
  | _ => .error (.unexpected "three items")

/-- A reply of any length, all of whose items are of one kind. -/
def every (read : Value → Except Error α) (items : List Value) : Except Error (List α) :=
  items.mapM read

end ServiceTypes.Reply
