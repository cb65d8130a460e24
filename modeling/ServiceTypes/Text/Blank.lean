/-!
# `ServiceTypes.Text.Blank`: white space

`isBlank` is the Unicode property `White_Space`: 25 characters, among
them the line ends, the no-break space and the ideographic space.
Trimming works on character lists, so that the other modules can cut a
text into parts and trim each part without going back to `String`.

* `trimStart`, `trimEnd`, `trim` drop blanks at the ends of a list;
* `trimmed` is `trim` on a `String`.
-/

set_option autoImplicit false

namespace ServiceTypes.Text

/-- The characters with the Unicode property `White_Space`. -/
def isBlank (c : Char) : Bool :=
  let n := c.toNat
  (9 ≤ n && n ≤ 13) || n == 0x20 || n == 0x85 || n == 0xA0 || n == 0x1680
    || (0x2000 ≤ n && n ≤ 0x200A) || n == 0x2028 || n == 0x2029 || n == 0x202F
    || n == 0x205F || n == 0x3000

/-- Drops the blanks at the front. -/
def trimStart (cs : List Char) : List Char :=
  cs.dropWhile isBlank

/-- Drops the blanks at the end. -/
def trimEnd (cs : List Char) : List Char :=
  (cs.reverse.dropWhile isBlank).reverse

/-- Drops the blanks at both ends. -/
def trim (cs : List Char) : List Char :=
  trimEnd (trimStart cs)

/-- A text without the blanks at its ends. -/
def trimmed (s : String) : String :=
  String.ofList (trim s.toList)

example : isBlank ' ' ∧ isBlank '\u00a0' ∧ isBlank '\u3000' ∧ ¬ isBlank '\u200b' := by decide

end ServiceTypes.Text
