/-!
# `ServiceTypes.Json.Error`: why a JSON text is refused

A JSON text is refused because it is no JSON, because it asks for
something that a reader cannot hold, or because its value has another
form than the one asked for.
-/

set_option autoImplicit false

namespace ServiceTypes.Json

/-- Why a JSON text is refused. -/
inductive Error where
  /-- The text breaks the grammar. -/
  | malformed
  /-- Too many arrays and objects are open at once. -/
  | tooDeep
  /-- A string holds half of a surrogate pair or octets that are not UTF-8. -/
  | invalidText
  /-- A number lies beyond the doubles. -/
  | numberOutOfRange
  /-- A value has another form than the one that is read here. -/
  | unexpected (wanted : String)
  /-- A record lacks a member that has no default. -/
  | missing (member : String)
  /-- A record gives a member twice. -/
  | repeated (member : String)
  deriving DecidableEq, Repr

/-- What is wrong, in words. -/
def Error.message : Error → String
  | .malformed => "malformed text"
  | .tooDeep => "nesting is too deep"
  | .invalidText => "string is not valid text"
  | .numberOutOfRange => "number out of range"
  | .unexpected wanted => "expected " ++ wanted
  | .missing member => "missing " ++ member
  | .repeated member => "repeated " ++ member

end ServiceTypes.Json
