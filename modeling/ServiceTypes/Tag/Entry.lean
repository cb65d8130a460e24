import ServiceTypes.Tag.Literal

/-!
# `ServiceTypes.Tag.Entry`: the entries of a tag

A tag is a sequence of entries `name:"value"` with spaces before them.
The value is a span: a double quote, then characters up to the next
double quote that does not follow a backslash.

* `Entry.first?` splits the first entry off a text, and
  `Entry.append_of_first?` says that nothing is lost in doing so;
* `find` looks for the first entry of a key, and decodes its span. What
  stands behind it is never looked at, and the spans of the entries
  before it need not decode.
-/

set_option autoImplicit false

namespace ServiceTypes.Tag

/-- An entry: its name, and its span with the quotes. -/
structure Entry where
  name : List Char
  span : List Char
  deriving DecidableEq, Repr

/-- An entry as it stands in a tag. -/
def Entry.text (entry : Entry) : List Char :=
  entry.name ++ ':' :: entry.span

/-- The characters of a name: all above the space but the colon, the double quote and
U+007F. -/
def isNameChar (c : Char) : Bool :=
  ' ' < c && c != ':' && c != '"' && c != '\x7f'

/-- Splits a text behind its first double quote, over which a backslash helps one
character. -/
def splitSpan? : List Char → Option (List Char × List Char)
  | [] => none
  | c :: rest =>
    if c = '"' then some ([c], rest)
    else if c = '\\' then
      match rest with
      | [] => none
      | d :: rest => (splitSpan? rest).map fun (span, rest) => (c :: d :: span, rest)
    else (splitSpan? rest).map fun (span, rest) => (c :: span, rest)

/-- Splits the first entry off a text that starts with it. -/
def Entry.first? (text : List Char) : Option (Entry × List Char) :=
  let name := text.takeWhile isNameChar
  if name.isEmpty then none
  else
    match text.dropWhile isNameChar with
    | ':' :: '"' :: rest =>
      (splitSpan? rest).map fun (span, rest) => (⟨name, '"' :: span⟩, rest)
    | _ => none

/-! ### Nothing is lost -/

/-- A span and the rest behind it make up the text. -/
theorem append_of_splitSpan? {text span rest : List Char}
    (h : splitSpan? text = some (span, rest)) : span ++ rest = text := by
  fun_induction splitSpan? text generalizing span with
  | case1 => simp at h
  | case2 tail =>
    obtain ⟨rfl, rfl⟩ := Prod.mk.inj (Option.some.inj h)
    rfl
  | case3 => simp at h
  | case4 d tail _ ih =>
    obtain ⟨⟨inner, behind⟩, split, eq⟩ := Option.map_eq_some_iff.1 h
    obtain ⟨rfl, rfl⟩ := Prod.mk.inj eq
    rw [← ih split]
    rfl
  | case5 c tail _ _ ih =>
    obtain ⟨⟨inner, behind⟩, split, eq⟩ := Option.map_eq_some_iff.1 h
    obtain ⟨rfl, rfl⟩ := Prod.mk.inj eq
    rw [← ih split]
    rfl

/-- An entry and the rest behind it make up the text. -/
theorem Entry.append_of_first? {text rest : List Char} {entry : Entry}
    (h : Entry.first? text = some (entry, rest)) : entry.text ++ rest = text := by
  simp only [Entry.first?] at h
  split at h
  · simp at h
  · split at h
    · rename_i behind heq
      obtain ⟨⟨inner, tail⟩, split, eq⟩ := Option.map_eq_some_iff.1 h
      obtain ⟨rfl, rfl⟩ := Prod.mk.inj eq
      have parts := List.takeWhile_append_dropWhile (p := isNameChar) (l := text)
      rw [heq, ← append_of_splitSpan? split] at parts
      simpa [Entry.text] using parts
    · simp at h

/-- The rest behind an entry is shorter than the text. -/
theorem Entry.length_of_first? {text rest : List Char} {entry : Entry}
    (h : Entry.first? text = some (entry, rest)) : rest.length < text.length := by
  have parts := congrArg List.length (Entry.append_of_first? h)
  simp only [Entry.text, List.length_append, List.length_cons] at parts
  omega

/-! ### Looking up a key -/

/-- What a tag says about a key. -/
inductive Lookup where
  /-- The value of the first entry of the key. -/
  | found (value : String)
  /-- No entry of the key stands before the tag ends or stops being well formed. -/
  | missing
  /-- The span of the first entry of the key stands for no text. -/
  | undecodable (cause : LiteralError)
  deriving DecidableEq, Repr

/-- Spaces before an entry. -/
def skipSpaces (text : List Char) : List Char :=
  text.dropWhile (· = ' ')

/-- Looks for the first entry of a key. -/
def find (key : List Char) (tag : List Char) : Lookup :=
  match _h : Entry.first? (skipSpaces tag) with
  | none => .missing
  | some (entry, rest) =>
    if entry.name = key then
      match unquote entry.span with
      | .ok value => .found value
      | .error cause => .undecodable cause
    else find key rest
termination_by tag.length
decreasing_by
  exact Nat.lt_of_lt_of_le (Entry.length_of_first? _h)
    (List.dropWhile_sublist _ (l := tag)).length_le

/-- The value that a tag has under a key, if it has one that decodes. -/
def Lookup.value? : Lookup → Option String
  | .found value => some value
  | _ => none

end ServiceTypes.Tag
