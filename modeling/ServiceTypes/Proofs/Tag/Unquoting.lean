import ServiceTypes.Proofs.Tag.Spelling

/-!
# `ServiceTypes.Proofs.Tag.Unquoting`: which literals are read

An interpreted literal is read exactly if it is a sequence of pieces between
double quotes whose octets together are a text. Reading its escapes never needs
a number of more than 32 bits, whatever the literal holds. The theorems:

* `between?_eq_some_iff`: a text between delimiters.
* `literalOctets_backslash`: how an escape is read.
* `wordNumber?_eq_some`: digits fit words as long as their places do.
* `wordOctets_eq_some`: a literal is read in words of 32 bits as it is without
  bounds.
* `unquote_eq_ok_iff`: the literals of a text.
-/

set_option autoImplicit false

namespace ServiceTypes.Tag

/-! ### Delimiters -/

/-- The text between delimiters is the one that they enclose. -/
theorem between?_eq_some_iff {delimiter : Char} {literal inner : List Char} :
    between? delimiter literal = some inner ↔ literal = enclosed delimiter inner := by
  constructor
  · intro h
    cases literal with
    | nil => cases h
    | cons c rest =>
      obtain ⟨⟨rfl, hlast⟩, hinner⟩ := Option.ite_none_right_eq_some.mp h
      obtain ⟨front, rfl⟩ := List.getLast?_eq_some_iff.mp hlast
      rw [List.dropLast_concat] at hinner
      rw [Option.some.inj hinner]
      rfl
  · rintro rfl
    exact between?_enclosed delimiter inner

/-! ### Escapes in words -/

/-- The number that the first so many digits of a text write. -/
def numberAt? (radix count : Nat) (text : List Char) : Option Nat :=
  if text.length < count then none else number? radix (text.take count)

/-- How an escape is read: by its number, or by its letter. -/
theorem literalOctets_backslash (e : Char) (rest : List Char) :
    literalOctets ('\\' :: e :: rest)
      = if e = 'x' then
          prepend ((numberAt? 16 2 rest).bind octetOf?) (literalOctets (rest.drop 2))
        else if e = 'u' then
          prepend ((numberAt? 16 4 rest).bind charOf?) (literalOctets (rest.drop 4))
        else if e = 'U' then
          prepend ((numberAt? 16 8 rest).bind charOf?) (literalOctets (rest.drop 8))
        else if (digit? 8 e).isSome then
          prepend ((numberAt? 8 3 (e :: rest)).bind octetOf?) (literalOctets (rest.drop 2))
        else prepend ((letterEscape? e).map fun b => [b]) (literalOctets rest) := by
  rw [literalOctets.eq_def]
  dsimp only
  rw [if_neg (by decide), if_neg (by decide), if_pos rfl]
  -- Where the digits end too early, both sides are the same error.
  split_ifs
  · rcases rest with _ | ⟨_, _ | _⟩ <;> rfl
  · rcases rest with _ | ⟨_, _ | ⟨_, _ | ⟨_, _ | _⟩⟩⟩ <;> rfl
  · rcases rest with _ | ⟨_, _ | ⟨_, _ | ⟨_, _ | ⟨_, _ | ⟨_, _ | ⟨_, _ | ⟨_, _ | _⟩⟩⟩⟩⟩⟩⟩ <;> rfl
  · rcases rest with _ | ⟨_, _ | _⟩ <;> rfl
  · rfl

/-- A number that fits a word of 32 bits. -/
def word? (n : Nat) : Option Nat :=
  if n < 4294967296 then some n else none

/-- Reads so many digits from the front of a text, behind the number of the digits before
them. There is no answer if a product or a sum does not fit a word, and the answer is no
number if the digits end too early. -/
def wordNumber? (radix : Nat) : Nat → Nat → List Char → Option (Option Nat)
  | 0, n, _ => some (some n)
  | count + 1, n, text =>
    (word? (n * radix)).bind fun product =>
      match text with
      | [] => some none
      | c :: rest =>
        match digit? radix c with
        | none => some none
        | some value => (word? (product + value)).bind fun sum =>
            wordNumber? radix count sum rest

/-- Digits fit words as long as their places do. -/
theorem wordNumber?_eq_some {radix count n : Nat} (places : Nat) (hn : n < radix ^ places)
    (hfit : radix ^ (places + count) ≤ 4294967296) (hradix : 0 < radix) (text : List Char) :
    wordNumber? radix count n text
      = some (if text.length < count then none
          else (text.take count).foldlM (fun n c => (digit? radix c).map (n * radix + ·)) n) := by
  induction count generalizing places n text with
  | zero => rfl
  | succ count ih =>
    -- One more place has room for the number and one more digit.
    have hnext : (n + 1) * radix ≤ radix ^ (places + 1) := Nat.mul_le_mul_right radix hn
    have hplaces : radix ^ (places + 1) ≤ radix ^ (places + (count + 1)) :=
      Nat.pow_le_pow_right hradix (by omega)
    rw [Nat.succ_mul] at hnext
    have hproduct : word? (n * radix) = some (n * radix) := if_pos (by omega)
    rw [wordNumber?, hproduct, Option.bind_some]
    cases text with
    | nil => rfl
    | cons c rest =>
      simp only [List.length_cons, Nat.add_lt_add_iff_right, List.take_succ_cons,
        List.foldlM_cons]
      cases hdigit : digit? radix c with
      | none => simp
      | some value =>
        have hvalue : value < radix :=
          of_decide_eq_true (Option.filter_eq_some_iff.mp hdigit).2
        have hsum : word? (n * radix + value) = some (n * radix + value) := if_pos (by omega)
        simp only [hsum, Option.bind_some]
        rw [ih (places + 1) (by omega) (by rw [Nat.add_right_comm]; exact hfit)]
        rfl

/-- Digits are read in words as without bounds. -/
theorem wordNumber?_zero {radix count : Nat} (hfit : radix ^ count ≤ 4294967296)
    (hradix : 0 < radix) (text : List Char) :
    wordNumber? radix count 0 text = some (numberAt? radix count text) :=
  wordNumber?_eq_some 0 Nat.one_pos (by rw [Nat.zero_add]; exact hfit) hradix text

/-- The octets of an escape by its number, in front of those of the rest. -/
def prependNumber (number : Option (Option Nat)) (octets? : Nat → Option (List UInt8))
    (rest : Option (Except LiteralError (List UInt8))) :
    Option (Except LiteralError (List UInt8)) :=
  number.bind fun n? => rest.map (prepend (n?.bind octets?))

/-- The octets of the inside of a literal, with the numbers of all escapes read in words. -/
def wordOctets : List Char → Option (Except LiteralError (List UInt8))
  | [] => some (.ok [])
  | ['\\'] => some (.error .danglingBackslash)
  | '\\' :: e :: rest =>
    if e = 'x' then prependNumber (wordNumber? 16 2 0 rest) octetOf? (wordOctets (rest.drop 2))
    else if e = 'u' then
      prependNumber (wordNumber? 16 4 0 rest) charOf? (wordOctets (rest.drop 4))
    else if e = 'U' then
      prependNumber (wordNumber? 16 8 0 rest) charOf? (wordOctets (rest.drop 8))
    else if (digit? 8 e).isSome then
      prependNumber (wordNumber? 8 3 0 (e :: rest)) octetOf? (wordOctets (rest.drop 2))
    else (wordOctets rest).map (prepend ((letterEscape? e).map fun b => [b]))
  | c :: rest =>
    if c = '"' then some (.error .innerQuote)
    else if c = '\n' then some (.error .lineFeed)
    else (wordOctets rest).map (prepend (some (String.utf8EncodeChar c)))
termination_by inner => inner.length
decreasing_by all_goals simp only [List.length_drop, List.length_cons]; omega

/-- No number in a literal needs more than a word: read in words, it gives the same octets, or
the same error. -/
theorem wordOctets_eq_some (inner : List Char) :
    wordOctets inner = some (literalOctets inner) := by
  -- Both go through the same rounds, and no escape has more digits than a word can hold.
  fun_induction wordOctets inner with
  | case1 => rfl
  | case2 => rfl
  | case3 rest ih =>
    rw [wordNumber?_zero (by decide) (by decide), ih, literalOctets_backslash, if_pos rfl]
    rfl
  | case4 rest hx ih =>
    rw [wordNumber?_zero (by decide) (by decide), ih, literalOctets_backslash, if_neg hx,
      if_pos rfl]
    rfl
  | case5 rest hx hu ih =>
    rw [wordNumber?_zero (by decide) (by decide), ih, literalOctets_backslash, if_neg hx, if_neg hu,
      if_pos rfl]
    rfl
  | case6 e rest hx hu hU hdigit ih =>
    rw [wordNumber?_zero (by decide) (by decide), ih, literalOctets_backslash, if_neg hx, if_neg hu,
      if_neg hU, if_pos hdigit]
    rfl
  | case7 e rest hx hu hU hdigit ih =>
    rw [ih, literalOctets_backslash, if_neg hx, if_neg hu, if_neg hU, if_neg hdigit]
    rfl
  | case8 => rw [literalOctets.eq_def]; rfl
  | case9 => rw [literalOctets.eq_def]; rfl
  | case10 c rest hend hescape hquote hfeed ih =>
    have hbackslash : c ≠ '\\' := by
      intro hc
      cases rest with
      | nil => exact hend hc rfl
      | cons e rest => exact hescape e rest hc rfl
    have hpiece := (Piece.plain hbackslash hquote hfeed).literalOctets_append rest
    rw [ih]
    exact congrArg some hpiece.symm

/-! ### Literals -/

/-- The literals of a text are its spellings between double quotes. Nothing is read from
any other literal, and no number in a literal needs more than a word of 32 bits. -/
theorem unquote_eq_ok_iff (literal : List Char) (s : String) :
    (unquote literal = .ok s ↔
      ∃ inner, literal = enclosed '"' inner ∧ Spells inner (Text.utf8 s)) ∧
    ∀ inner, wordOctets inner = some (literalOctets inner) := by
  refine ⟨⟨fun h => ?_, ?_⟩, wordOctets_eq_some⟩
  · unfold unquote at h
    split at h
    case h_1 => cases h
    case h_2 inner hbetween =>
      cases hoctets : literalOctets inner with
      | error cause =>
        rw [hoctets] at h
        cases h
      | ok octets =>
        simp only [hoctets, bind, Except.bind] at h
        split at h
        case h_1 t ht =>
          -- The octets of the pieces are those of the text.
          rw [Text.ofUtf8?_eq_some_iff.mp ht, Except.ok.inj h] at hoctets
          exact ⟨inner, between?_eq_some_iff.mp hbetween, literalOctets_eq_ok_iff.mp hoctets⟩
        case h_2 => cases h
  · rintro ⟨inner, rfl, hspells⟩
    exact unquote_enclosed hspells

end ServiceTypes.Tag
