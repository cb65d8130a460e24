import ServiceTypes.Text.Blank

/-!
# `ServiceTypes.Tag.Encoding`: field encodings

The value of a tag entry says how a field is serialized: a name, then
options, with commas between them. The value `-` means that the field is
never serialized. Only the name and the first option count.

* `Encoding.ofValue?` reads the value of an entry;
* `Encoding.text` writes an encoding as a tag entry of the key
  `json`.
-/

set_option autoImplicit false

namespace ServiceTypes.Tag

/-- How a field is serialized. -/
structure Encoding where
  /-- The name it is serialized under; empty for the name of the field. -/
  name : String := ""
  /-- Whether it is left out when it holds its zero value. -/
  omitEmpty : Bool := false
  /-- Whether it is never serialized. -/
  ignored : Bool := false
  /-- Whether its value is written as a string. -/
  asString : Bool := false
  deriving DecidableEq, Repr

/-- Adds an option. An option of another name says nothing. -/
def Encoding.addOption (a : Encoding) (option : List Char) : Encoding :=
  if option = "omitempty".toList then { a with omitEmpty := true }
  else if option = "string".toList then { a with asString := true }
  else a

/-- The encoding of a name and options without blanks around them. -/
def Encoding.ofParts? : List (List Char) → Option Encoding
  | [] => none
  | [name] =>
    if name = ['-'] then some { ignored := true } else some { name := String.ofList name }
  | name :: option :: _ => some (Encoding.addOption { name := String.ofList name } option)

/-- The encoding that the value of an entry writes; an empty value writes none. -/
def Encoding.ofValue? (value : String) : Option Encoding :=
  if value.isEmpty then none
  else Encoding.ofParts? ((value.toList.splitOn ',').map Text.trim)

/-- An encoding as a tag entry. -/
def Encoding.text (a : Encoding) : String :=
  if a.ignored then "json:\"-\""
  else
    "json:\"" ++ a.name ++ (if a.omitEmpty then ",omitempty" else "")
      ++ (if a.asString then ",string" else "") ++ "\""

end ServiceTypes.Tag
