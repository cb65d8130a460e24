import Mathlib.Algebra.Group.Nat.Defs
import Mathlib.Data.List.Induction
import ServiceTypes.Proofs.Text.Blank
import ServiceTypes.Proofs.Text.Octets
import ServiceTypes.Tag.Literal

/-!
# `ServiceTypes.Proofs.Tag.Spelling`: the grammar of string literals

The inside of an interpreted literal is a sequence of pieces: characters that
stand for themselves, and escapes. `Piece` and `Spells` say which pieces there
are and which octets they stand for, without saying how a literal is read.
The theorems:

* `number?_eq_some_iff`: digits are read at their places.
* `literalOctets_eq_ok_iff`: exactly the sequences of pieces are read, as the
  octets of their pieces.
* `spells_escaped`: every text has a spelling.
* `unquote_enclosed`: a literal that spells the octets of a text is read as
  the text.
* `tagText_of_literalOf`: so are all literals of a text, raw or interpreted.
-/

set_option autoImplicit false

namespace ServiceTypes.Tag

/-! ### Numbers -/

/-- The digits with their values. -/
def hexDigits : List (Char × Nat) :=
  "0123456789abcdef".toList.zipIdx ++ "ABCDEF".toList.zipIdx 10

/-- A digit below a radix, with its value. -/
structure Digit (radix : Nat) (c : Char) (value : Nat) : Prop where
  mem : (c, value) ∈ hexDigits
  lt : value < radix

/-- Digits with the number that they write: each digit moves the ones before it up by one
place. -/
inductive Numeral (radix : Nat) : List Char → Nat → Prop where
  | nil : Numeral radix [] 0
  | concat {digits : List Char} {n : Nat} {c : Char} {value : Nat} :
    Numeral radix digits n → Digit radix c value →
      Numeral radix (digits ++ [c]) (n * radix + value)

/-- No character above `f` is a digit. -/
theorem lt_of_digit? {radix : Nat} {c : Char} {value : Nat} (h : digit? radix c = some value) :
    c.toNat < 103 := by
  obtain ⟨hvalue, -⟩ := Option.filter_eq_some_iff.mp h
  split_ifs at hvalue with hdigit hlower hupper
  · simp only [Char.isDigit, Bool.and_eq_true, decide_eq_true_eq, UInt32.le_iff_toNat_le] at hdigit
    exact Nat.lt_of_le_of_lt hdigit.2 (by decide)
  · exact Nat.lt_of_le_of_lt (UInt32.le_iff_toNat_le.mp hlower.2) (by decide)
  · exact Nat.lt_of_le_of_lt (UInt32.le_iff_toNat_le.mp hupper.2) (by decide)

/-- Below sixteen all digits count. -/
theorem digit?_sixteen {c : Char} {value : Nat} :
    digit? 16 c = some value ↔ (c, value) ∈ hexDigits := by
  constructor
  · intro h
    have htable : ∀ n < 103, ∀ v ∈ digit? 16 (Char.ofNat n), (Char.ofNat n, v) ∈ hexDigits := by
      decide
    have hmem := htable c.toNat (lt_of_digit? h) value (by rw [c.ofNat_toNat]; exact h)
    rw [c.ofNat_toNat] at hmem
    exact hmem
  · intro h
    have htable : ∀ p ∈ hexDigits, digit? 16 p.1 = some p.2 := by decide
    exact htable (c, value) h

/-- The digits of a radix up to sixteen are read as their values, and nothing else is read. -/
theorem digit?_eq_some_iff {radix : Nat} (h : radix ≤ 16) {c : Char} {value : Nat} :
    digit? radix c = some value ↔ Digit radix c value := by
  -- The digits below the radix are those below sixteen that are small enough.
  have hboth : (fun v : Nat => decide (v < radix))
      = fun v => decide (v < 16) && decide (v < radix) := by
    funext v
    rw [← Bool.decide_and]
    exact decide_eq_decide.mpr (by omega)
  have hfilter : digit? radix c = (digit? 16 c).filter fun v => decide (v < radix) := by
    unfold digit?
    rw [Option.filter_filter, ← hboth]
  rw [hfilter, Option.filter_eq_some_iff, digit?_sixteen, decide_eq_true_iff]
  exact ⟨fun ⟨hmem, hlt⟩ => ⟨hmem, hlt⟩, fun ⟨hmem, hlt⟩ => ⟨hmem, hlt⟩⟩

/-- The last digit comes in last, with the digits before it moved up one place. -/
theorem number?_concat (radix : Nat) (digits : List Char) (c : Char) :
    number? radix (digits ++ [c])
      = (number? radix digits).bind fun n => (digit? radix c).map (n * radix + ·) := by
  unfold number?
  rw [List.foldlM_append]
  simp only [List.foldlM_cons, List.foldlM_nil, bind_pure]
  rfl

/-- Digits are read as the number that they write. -/
theorem number?_eq_some_iff {radix : Nat} (h : radix ≤ 16) {digits : List Char} {n : Nat} :
    number? radix digits = some n ↔ Numeral radix digits n := by
  constructor
  · intro hn
    -- The last digit comes last in both, so the induction is from the right.
    induction digits using List.reverseRecOn generalizing n with
    | nil =>
      obtain rfl : 0 = n := Option.some.inj hn
      exact .nil
    | append_singleton digits c ih =>
      rw [number?_concat] at hn
      obtain ⟨m, hm, hmap⟩ := Option.bind_eq_some_iff.mp hn
      obtain ⟨value, hvalue, rfl⟩ := Option.map_eq_some_iff.mp hmap
      exact .concat (ih hm) ((digit?_eq_some_iff h).mp hvalue)
  · intro hn
    induction hn with
    | nil => rfl
    | concat _ hdigit ih =>
      rw [number?_concat, ih, Option.bind_some, (digit?_eq_some_iff h).mpr hdigit]
      rfl

/-- Digits write numbers below the power of the radix. -/
theorem Numeral.lt {radix : Nat} {digits : List Char} {n : Nat} (h : Numeral radix digits n) :
    n < radix ^ digits.length := by
  induction h with
  | nil => exact Nat.one_pos
  | @concat digits n c value _ hdigit ih =>
    rw [List.length_append, List.length_singleton, Nat.pow_succ]
    have hplace : (n + 1) * radix ≤ radix ^ digits.length * radix := Nat.mul_le_mul_right radix ih
    have hvalue := hdigit.lt
    rw [Nat.succ_mul] at hplace
    omega

/-! ### Pieces -/

/-- The letters that stand for an octet behind a backslash. -/
def letterEscapes : List (Char × UInt8) :=
  [('a', 0x07), ('b', 0x08), ('f', 0x0C), ('n', 0x0A), ('r', 0x0D), ('t', 0x09), ('v', 0x0B),
    ('\\', 0x5C), ('"', 0x22)]

/-- A piece of an interpreted literal, with the octets that it stands for. -/
inductive Piece : List Char → List UInt8 → Prop where
  /-- A character that stands for itself. -/
  | plain {c : Char} : c ≠ '\\' → c ≠ '"' → c ≠ '\n' → Piece [c] (String.utf8EncodeChar c)
  /-- A letter that names an octet. -/
  | letter {c : Char} {octet : UInt8} : (c, octet) ∈ letterEscapes → Piece ['\\', c] [octet]
  /-- An octet by two hexadecimal digits. -/
  | hex {digits : List Char} {n : Nat} :
    digits.length = 2 → Numeral 16 digits n → Piece ('\\' :: 'x' :: digits) [n.toUInt8]
  /-- An octet by three octal digits. -/
  | octal {digits : List Char} {n : Nat} :
    digits.length = 3 → Numeral 8 digits n → n ≤ 255 → Piece ('\\' :: digits) [n.toUInt8]
  /-- A character by four hexadecimal digits. -/
  | short {digits : List Char} {c : Char} :
    digits.length = 4 → Numeral 16 digits c.toNat →
      Piece ('\\' :: 'u' :: digits) (String.utf8EncodeChar c)
  /-- A character by eight hexadecimal digits. -/
  | long {digits : List Char} {c : Char} :
    digits.length = 8 → Numeral 16 digits c.toNat →
      Piece ('\\' :: 'U' :: digits) (String.utf8EncodeChar c)

/-- Pieces in a row, with the octets that they stand for. -/
inductive Spells : List Char → List UInt8 → Prop where
  | nil : Spells [] []
  | cons {piece rest : List Char} {octets more : List UInt8} :
    Piece piece octets → Spells rest more → Spells (piece ++ rest) (octets ++ more)

/-- The letters are read as the table says, and no other letter is. -/
theorem letterEscape?_eq_some_iff {c : Char} {octet : UInt8} :
    letterEscape? c = some octet ↔ (c, octet) ∈ letterEscapes := by
  constructor
  · intro h
    unfold letterEscape? at h
    split_ifs at h <;> (subst c; obtain rfl := Option.some.inj h; decide)
  · intro h
    have htable : ∀ p ∈ letterEscapes, letterEscape? p.1 = some p.2 := by decide
    exact htable (c, octet) h

/-- Digits that name an octet. -/
theorem number?_bind_octetOf? {radix : Nat} (h : radix ≤ 16) {digits : List Char}
    {octets : List UInt8} :
    (number? radix digits).bind octetOf? = some octets ↔
      ∃ n, Numeral radix digits n ∧ n ≤ 255 ∧ [n.toUInt8] = octets := by
  rw [Option.bind_eq_some_iff]
  refine exists_congr fun n => ?_
  unfold octetOf?
  rw [number?_eq_some_iff h, Option.ite_none_right_eq_some, Option.some.injEq]

/-- Digits that name a character. Only the numbers of characters do. -/
theorem number?_bind_charOf? {radix : Nat} (h : radix ≤ 16) {digits : List Char}
    {octets : List UInt8} :
    (number? radix digits).bind charOf? = some octets ↔
      ∃ c : Char, Numeral radix digits c.toNat ∧ String.utf8EncodeChar c = octets := by
  rw [Option.bind_eq_some_iff]
  unfold charOf?
  simp only [number?_eq_some_iff h, Option.ite_none_right_eq_some, Option.some.injEq]
  constructor
  · rintro ⟨n, hn, hvalid, rfl⟩
    refine ⟨Char.ofNatAux n hvalid, hn, ?_⟩
    rw [Char.ofNat, dif_pos hvalid]
  · rintro ⟨c, hn, rfl⟩
    refine ⟨c.toNat, hn, c.valid, ?_⟩
    rw [c.ofNat_toNat]

/-! ### Reading pieces -/

/-- The first of the characters of a number is a digit. -/
theorem isSome_digit?_of_number? {radix : Nat} {c : Char} {digits : List Char} {n : Nat}
    (h : number? radix (c :: digits) = some n) : (digit? radix c).isSome := by
  unfold number? at h
  rw [List.foldlM_cons] at h
  obtain ⟨m, hm, -⟩ := Option.bind_eq_some_iff.mp h
  obtain ⟨value, hvalue, -⟩ := Option.map_eq_some_iff.mp hm
  rw [hvalue]
  rfl

/-- Both parts have to be read. -/
theorem prepend_eq_ok_iff {front : Option (List UInt8)}
    {rest : Except LiteralError (List UInt8)} {octets : List UInt8} :
    prepend front rest = .ok octets ↔
      ∃ os more, front = some os ∧ rest = .ok more ∧ os ++ more = octets := by
  cases front with
  | none => exact iff_of_false (fun h => nomatch h) fun ⟨_, _, h, _⟩ => nomatch h
  | some os =>
    cases rest with
    | error cause => exact iff_of_false (fun h => nomatch h) fun ⟨_, _, _, h, _⟩ => nomatch h
    | ok more =>
      constructor
      · intro h
        exact ⟨os, more, rfl, rfl, Except.ok.inj h⟩
      · rintro ⟨_, _, hos, hmore, rfl⟩
        rw [Option.some.inj hos, Except.ok.inj hmore]
        rfl

/-- A piece in front of a literal puts its octets in front. -/
theorem Piece.literalOctets_append {piece : List Char} {octets : List UInt8}
    (h : Piece piece octets) (rest : List Char) :
    literalOctets (piece ++ rest) = prepend (some octets) (literalOctets rest) := by
  cases h with
  | @plain c hbackslash hquote hfeed =>
    rw [List.singleton_append, literalOctets.eq_def]
    simp only [if_neg hquote, if_neg hfeed, if_neg hbackslash]
  | @letter c octet hmem =>
    -- No letter is the start of a numeric escape.
    have htable : ∀ p ∈ letterEscapes,
        p.1 ≠ 'x' ∧ p.1 ≠ 'u' ∧ p.1 ≠ 'U' ∧ ¬ (digit? 8 p.1).isSome := by decide
    obtain ⟨hx, hu, hU, hdigit⟩ := htable _ hmem
    rw [List.cons_append, List.singleton_append, literalOctets.eq_def]
    show (if c = 'x' then _ else _) = _
    rw [if_neg hx, if_neg hu, if_neg hU, if_neg hdigit, letterEscape?_eq_some_iff.mpr hmem]
    rfl
  | @hex digits n hlength hnumeral =>
    match digits, hlength with
    | [a, b], _ =>
      have hoctet : n ≤ 255 := Nat.le_of_lt_succ hnumeral.lt
      rw [← (number?_bind_octetOf? (Nat.le_refl 16)).mpr ⟨n, hnumeral, hoctet, rfl⟩]
      exact literalOctets.eq_def _
  | @octal digits n hlength hnumeral hoctet =>
    match digits, hlength with
    | [e, a, b], _ =>
      have hdigit := isSome_digit?_of_number? ((number?_eq_some_iff (by decide)).mpr hnumeral)
      -- A letter that starts another escape is no octal digit.
      have hx : e ≠ 'x' := by
        rintro rfl
        exact absurd hdigit (by decide)
      have hu : e ≠ 'u' := by
        rintro rfl
        exact absurd hdigit (by decide)
      have hU : e ≠ 'U' := by
        rintro rfl
        exact absurd hdigit (by decide)
      rw [← (number?_bind_octetOf? (by decide)).mpr ⟨n, hnumeral, hoctet, rfl⟩,
        literalOctets.eq_def]
      show (if e = 'x' then _ else _) = _
      rw [if_neg hx, if_neg hu, if_neg hU, if_pos hdigit]
      rfl
  | @short digits c hlength hnumeral =>
    match digits, hlength with
    | [_, _, _, _], _ =>
      rw [← (number?_bind_charOf? (Nat.le_refl 16)).mpr ⟨c, hnumeral, rfl⟩]
      exact literalOctets.eq_def _
  | @long digits c hlength hnumeral =>
    match digits, hlength with
    | [_, _, _, _, _, _, _, _], _ =>
      rw [← (number?_bind_charOf? (Nat.le_refl 16)).mpr ⟨c, hnumeral, rfl⟩]
      exact literalOctets.eq_def _

/-- A piece has at least one character, so that a reading by pieces comes to an end. -/
theorem Piece.ne_nil {piece : List Char} {octets : List UInt8} (h : Piece piece octets) :
    piece ≠ [] := by
  cases h <;> exact List.cons_ne_nil _ _

/-- A backslash that is read starts an escape, and what stands behind the escape is read as
well. -/
theorem exists_escape_of_literalOctets {inner : List Char} {octets : List UInt8}
    (h : literalOctets ('\\' :: inner) = .ok octets) :
    ∃ piece rest os more, '\\' :: inner = piece ++ rest ∧ Piece piece os ∧
      literalOctets rest = .ok more ∧ octets = os ++ more := by
  rw [literalOctets.eq_def] at h
  cases inner with
  | nil => cases h
  | cons e inner =>
    dsimp only at h
    rw [if_neg (by decide), if_neg (by decide), if_pos rfl] at h
    -- One case for each kind of escape. An escape that is cut short is not read.
    by_cases hx : e = 'x'
    · rw [if_pos hx] at h
      match inner with
      | [] | [_] => cases h
      | a :: b :: rest =>
        obtain ⟨os, more, hfront, hrest, rfl⟩ := prepend_eq_ok_iff.mp h
        obtain ⟨n, hn, -, rfl⟩ := (number?_bind_octetOf? (Nat.le_refl 16)).mp hfront
        exact ⟨['\\', 'x', a, b], rest, _, more, by rw [hx]; rfl, .hex rfl hn, hrest, rfl⟩
    rw [if_neg hx] at h
    by_cases hu : e = 'u'
    · rw [if_pos hu] at h
      match inner with
      | [] | [_] | [_, _] | [_, _, _] => cases h
      | a :: b :: c :: d :: rest =>
        obtain ⟨os, more, hfront, hrest, rfl⟩ := prepend_eq_ok_iff.mp h
        obtain ⟨n, hn, rfl⟩ := (number?_bind_charOf? (Nat.le_refl 16)).mp hfront
        exact ⟨['\\', 'u', a, b, c, d], rest, _, more, by rw [hu]; rfl, .short rfl hn, hrest, rfl⟩
    rw [if_neg hu] at h
    by_cases hU : e = 'U'
    · rw [if_pos hU] at h
      match inner with
      | [] | [_] | [_, _] | [_, _, _] | [_, _, _, _] | [_, _, _, _, _] | [_, _, _, _, _, _]
      | [_, _, _, _, _, _, _] => cases h
      | a :: b :: c :: d :: a' :: b' :: c' :: d' :: rest =>
        obtain ⟨os, more, hfront, hrest, rfl⟩ := prepend_eq_ok_iff.mp h
        obtain ⟨n, hn, rfl⟩ := (number?_bind_charOf? (Nat.le_refl 16)).mp hfront
        exact ⟨['\\', 'U', a, b, c, d, a', b', c', d'], rest, _, more, by rw [hU]; rfl,
          .long rfl hn, hrest, rfl⟩
    rw [if_neg hU] at h
    by_cases hdigit : (digit? 8 e).isSome
    · rw [if_pos hdigit] at h
      match inner with
      | [] | [_] => cases h
      | a :: b :: rest =>
        obtain ⟨os, more, hfront, hrest, rfl⟩ := prepend_eq_ok_iff.mp h
        obtain ⟨n, hn, hoctet, rfl⟩ := (number?_bind_octetOf? (by decide)).mp hfront
        exact ⟨['\\', e, a, b], rest, _, more, rfl, .octal rfl hn hoctet, hrest, rfl⟩
    rw [if_neg hdigit] at h
    obtain ⟨os, more, hfront, hrest, rfl⟩ := prepend_eq_ok_iff.mp h
    obtain ⟨octet, hoctet, rfl⟩ := Option.map_eq_some_iff.mp hfront
    exact ⟨['\\', e], inner, _, more, rfl, .letter (letterEscape?_eq_some_iff.mp hoctet), hrest,
      rfl⟩

/-- What is read starts with a piece, and what stands behind the piece is read as well. -/
theorem exists_piece_of_literalOctets {c : Char} {inner : List Char} {octets : List UInt8}
    (h : literalOctets (c :: inner) = .ok octets) :
    ∃ piece rest os more, c :: inner = piece ++ rest ∧ Piece piece os ∧
      literalOctets rest = .ok more ∧ octets = os ++ more := by
  by_cases hbackslash : c = '\\'
  · subst hbackslash
    exact exists_escape_of_literalOctets h
  rw [literalOctets.eq_def] at h
  dsimp only at h
  -- In place of a piece, a double quote or a line feed would not be read.
  by_cases hquote : c = '"'
  · rw [if_pos hquote] at h
    cases h
  by_cases hfeed : c = '\n'
  · rw [if_neg hquote, if_pos hfeed] at h
    cases h
  rw [if_neg hquote, if_neg hfeed, if_neg hbackslash] at h
  obtain ⟨os, more, hfront, hrest, rfl⟩ := prepend_eq_ok_iff.mp h
  obtain rfl := Option.some.inj hfront
  exact ⟨[c], inner, _, more, rfl, .plain hbackslash hquote hfeed, hrest, rfl⟩

/-- Exactly the sequences of pieces are read, as the octets of their pieces. -/
theorem literalOctets_eq_ok_iff {inner : List Char} {octets : List UInt8} :
    literalOctets inner = .ok octets ↔ Spells inner octets := by
  constructor
  · intro h
    -- The rest behind a piece is shorter.
    induction hlength : inner.length using Nat.strongRecOn generalizing inner octets with
    | ind n ih =>
      cases inner with
      | nil =>
        rw [literalOctets.eq_def] at h
        obtain rfl := Except.ok.inj h
        exact .nil
      | cons c inner =>
        obtain ⟨piece, rest, os, more, hinner, hpiece, hrest, rfl⟩ :=
          exists_piece_of_literalOctets h
        have hpos := List.length_pos_of_ne_nil hpiece.ne_nil
        rw [hinner, List.length_append] at hlength
        rw [hinner]
        exact .cons hpiece (ih rest.length (by omega) hrest rfl)
  · intro h
    induction h with
    | nil => rw [literalOctets.eq_def]
    | cons hpiece _ ih =>
      rw [hpiece.literalOctets_append, ih]
      rfl

/-- A text with its double quotes, backslashes and line feeds escaped. -/
def escaped (text : List Char) : List Char :=
  text.flatMap fun c =>
    if c = '"' ∨ c = '\\' then ['\\', c] else if c = '\n' then ['\\', 'n'] else [c]

/-- Every text has a spelling. -/
theorem spells_escaped (text : List Char) : Spells (escaped text) (Text.octetsOf text) := by
  unfold escaped Text.octetsOf
  induction text with
  | nil => exact .nil
  | cons c text ih =>
    rw [List.flatMap_cons, List.flatMap_cons]
    refine .cons ?_ ih
    -- Three characters are spelled by letters, and all others by themselves.
    by_cases hquote : c = '"'
    · subst hquote
      exact .letter (by decide)
    by_cases hbackslash : c = '\\'
    · subst hbackslash
      exact .letter (by decide)
    by_cases hfeed : c = '\n'
    · subst hfeed
      exact .letter (by decide)
    rw [if_neg (not_or.mpr ⟨hquote, hbackslash⟩), if_neg hfeed]
    exact .plain hbackslash hquote hfeed

/-! ### Literals -/

/-- A text between a delimiter at both ends. -/
def enclosed (delimiter : Char) (inner : List Char) : List Char :=
  delimiter :: (inner ++ [delimiter])

/-- The delimiters at the ends are taken off. -/
theorem between?_enclosed (delimiter : Char) (inner : List Char) :
    between? delimiter (enclosed delimiter inner) = some inner := by
  have hlast : (inner ++ [delimiter]).getLast? = some delimiter := List.getLast?_concat
  show (if delimiter = delimiter ∧ (inner ++ [delimiter]).getLast? = some delimiter then
    some (inner ++ [delimiter]).dropLast else none) = some inner
  rw [if_pos ⟨rfl, hlast⟩, List.dropLast_concat]

/-- The delimiters of another kind do not stand at the ends. -/
theorem between?_enclosed_of_ne {delimiter other : Char} (h : other ≠ delimiter)
    (inner : List Char) : between? delimiter (enclosed other inner) = none :=
  if_neg fun hends => h hends.1

/-- A literal that spells the octets of a text is read as the text. -/
theorem unquote_enclosed {inner : List Char} {s : String} (h : Spells inner (Text.utf8 s)) :
    unquote (enclosed '"' inner) = .ok s := by
  simp only [unquote, between?_enclosed, literalOctets_eq_ok_iff.mpr h]
  simp only [bind, Except.bind, Text.ofUtf8?_utf8]
  rfl

/-- The inside of a literal that is read spells the octets of the text. -/
theorem spells_of_unquote {inner : List Char} {s : String}
    (h : unquote (enclosed '"' inner) = .ok s) : Spells inner (Text.utf8 s) := by
  simp only [unquote, between?_enclosed] at h
  rw [← literalOctets_eq_ok_iff]
  cases hoctets : literalOctets inner with
  | error cause =>
    rw [hoctets] at h
    cases h
  | ok octets =>
    simp only [hoctets, bind, Except.bind] at h
    split at h
    case h_1 t ht => rw [Text.ofUtf8?_eq_some_iff.mp ht, Except.ok.inj h]
    case h_2 => cases h

/-- The literals of a text, with their delimiters. -/
inductive LiteralOf (text : String) : String → Prop where
  /-- The text as it is, between backticks. -/
  | raw : LiteralOf text (String.ofList (enclosed '`' text.toList))
  /-- Any spelling of the text, between double quotes. -/
  | interpreted {inner : List Char} :
    Spells inner (Text.utf8 text) → LiteralOf text (String.ofList (enclosed '"' inner))

/-- Blanks inside a delimited text are left alone. -/
theorem trim_enclosed {delimiter : Char} (h : Text.isBlank delimiter = false)
    (inner : List Char) : Text.trim (enclosed delimiter inner) = enclosed delimiter inner := by
  refine Text.trim_of_trimmed ⟨fun c hc => ?_, fun c hc => ?_⟩
  · obtain rfl := Option.some.inj hc
    exact h
  · unfold enclosed at hc
    rw [← List.cons_append, List.getLast?_concat] at hc
    obtain rfl := Option.some.inj hc
    exact h

/-- All literals of a text stand for it. -/
theorem tagText_of_literalOf {text literal : String} (h : LiteralOf text literal) :
    tagText literal = .ok text := by
  unfold tagText
  cases h with
  | raw =>
    rw [String.toList_ofList, trim_enclosed (by decide)]
    simp only [between?_enclosed, String.ofList_toList]
  | @interpreted inner hspells =>
    rw [String.toList_ofList, trim_enclosed (by decide)]
    simp only [between?_enclosed_of_ne (by decide : '"' ≠ '`'), between?_enclosed,
      Option.isSome_some, if_true, unquote_enclosed hspells]

end ServiceTypes.Tag
