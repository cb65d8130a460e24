import ServiceTypes.Text.Uppercase

/-!
# `ServiceTypes.Source.TypeExpr`: type expressions

Type expressions as a parser of Go-style declarations hands them over,
and the field lines of the struct types among them.

* `TypeExpr` and `FieldLine` are the trees;
* `Form` is the form of a type expression, by which diagnostics name
  it;
* `isExported` tells the names that other packages may use.
-/

set_option autoImplicit false

namespace ServiceTypes.Source

/-- Whether a declared name is exported: its first character is an upper-case letter. -/
def isExported (name : String) : Bool :=
  match name.toList with
  | [] => false
  | c :: _ => Text.isUppercase c

mutual

/-- A type expression. -/
inductive TypeExpr where
  /-- A name without qualifier: a built-in type or a type of the same package. -/
  | ident (name : String)
  /-- A pointer to a type. -/
  | pointer (target : TypeExpr)
  /-- An array, or a slice when there is no length. The length is kept as it is
  written. -/
  | array (length : Option String) (elem : TypeExpr)
  /-- A map. -/
  | map (key value : TypeExpr)
  /-- A name with a qualifier, which normally is the local name of an import. -/
  | selector (qualifier : TypeExpr) (name : String)
  /-- A struct type without a name of its own. -/
  | struct (lines : List FieldLine)
  /-- A type in parentheses. -/
  | paren (inner : TypeExpr)
  /-- A function type. -/
  | func
  /-- An interface type. -/
  | interface
  /-- A channel type. -/
  | chan

/-- A line of a struct type: the names it declares, none for an embedded field, their
type, and the tag literal with its delimiters. -/
structure FieldLine where
  names : List String
  type : TypeExpr
  tag : Option String

end

/-- An expression without parts. -/
instance : Inhabited TypeExpr := ⟨.func⟩

/-- The form of a type expression. -/
inductive Form where
  | ident
  | pointer
  | slice
  | array
  | map
  | selector
  | struct
  | paren
  | func
  | interface
  | chan
  deriving DecidableEq, Repr

/-- The word for a form. -/
def Form.label : Form → String
  | .ident => "ident"
  | .pointer => "pointer"
  | .slice => "slice"
  | .array => "array"
  | .map => "map"
  | .selector => "selector"
  | .struct => "struct"
  | .paren => "paren"
  | .func => "func"
  | .interface => "interface"
  | .chan => "chan"

/-- The form of a type expression. -/
def TypeExpr.form : TypeExpr → Form
  | .ident _ => .ident
  | .pointer _ => .pointer
  | .array none _ => .slice
  | .array (some _) _ => .array
  | .map _ _ => .map
  | .selector _ _ => .selector
  | .struct _ => .struct
  | .paren _ => .paren
  | .func => .func
  | .interface => .interface
  | .chan => .chan

end ServiceTypes.Source
