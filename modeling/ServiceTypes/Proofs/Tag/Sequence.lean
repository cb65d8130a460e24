import ServiceTypes.Proofs.Tag.Spelling
import ServiceTypes.Tag.Entry

/-!
# `ServiceTypes.Proofs.Tag.Sequence`: tags that are sequences of entries

A tag holds entries in a row, each behind any number of spaces. The first
entry of a key answers for it, whatever stands in the entries around it. The
theorems:

* `splitSpan?_of_spanBody`: a span ends at its own double quote.
* `Entry.WellFormed.first?_append`: an entry is split off whole.
* `find_sequence`: a look-up in a sequence of entries.
* `find_of_holds`: the value of an entry is found whatever the entries around
  it hold.
-/

set_option autoImplicit false

namespace ServiceTypes.Tag

/-! ### Entries -/

/-- The inside of a span: a backslash takes the next character with it, and no other double
quote stands inside. -/
inductive SpanBody : List Char → Prop where
  | nil : SpanBody []
  | plain {c : Char} {body : List Char} :
    c ≠ '"' → c ≠ '\\' → SpanBody body → SpanBody (c :: body)
  | escaped {c : Char} {body : List Char} : SpanBody body → SpanBody ('\\' :: c :: body)

/-- An entry with a name, and with a span that ends at its only free double quote. -/
structure Entry.WellFormed (entry : Entry) : Prop where
  named : entry.name ≠ []
  name : ∀ c ∈ entry.name, isNameChar c
  span : ∃ body, SpanBody body ∧ entry.span = enclosed '"' body

/-- A span ends at its own double quote. -/
theorem splitSpan?_of_spanBody {body : List Char} (h : SpanBody body) (rest : List Char) :
    splitSpan? (body ++ '"' :: rest) = some (body ++ ['"'], rest) := by
  induction h with
  | nil => exact splitSpan?.eq_def _
  | @plain c body hquote hbackslash _ ih =>
    rw [List.cons_append, splitSpan?.eq_def]
    simp only [if_neg hquote, if_neg hbackslash, ih]
    rfl
  | @escaped c body _ ih =>
    -- The scan takes the character behind the backslash without looking at it.
    have hstep : splitSpan? ('\\' :: c :: (body ++ '"' :: rest))
        = (splitSpan? (body ++ '"' :: rest)).map fun split => ('\\' :: c :: split.1, split.2) :=
      splitSpan?.eq_def _
    rw [List.cons_append, List.cons_append, hstep, ih]
    rfl

/-- An entry is split off whole, whatever stands behind it. -/
theorem Entry.WellFormed.first?_append {entry : Entry} (h : entry.WellFormed)
    (rest : List Char) : Entry.first? (entry.text ++ rest) = some (entry, rest) := by
  obtain ⟨name, span⟩ := entry
  obtain ⟨hnamed, hname, body, hbody, rfl⟩ := h
  have htext : Entry.text ⟨name, enclosed '"' body⟩ ++ rest
      = name ++ ':' :: '"' :: (body ++ '"' :: rest) := by
    simp only [Entry.text, enclosed, List.append_assoc, List.cons_append, List.nil_append]
  -- The colon is no character of a name.
  have htake : (name ++ ':' :: '"' :: (body ++ '"' :: rest)).takeWhile isNameChar = name := by
    rw [List.takeWhile_append_of_pos hname, List.takeWhile_cons_of_neg (by decide),
      List.append_nil]
  have hdrop : (name ++ ':' :: '"' :: (body ++ '"' :: rest)).dropWhile isNameChar
      = ':' :: '"' :: (body ++ '"' :: rest) := by
    rw [List.dropWhile_append_of_pos hname, List.dropWhile_cons_of_neg (by decide)]
  rw [htext]
  simp only [Entry.first?, htake, hdrop, List.isEmpty_eq_false_iff.mpr hnamed,
    splitSpan?_of_spanBody hbody]
  rfl

/-! ### Sequences -/

/-- Entries in a row, each behind its number of spaces. -/
def Entry.sequence : List (Nat × Entry) → List Char
  | [] => []
  | (spaces, entry) :: rest => List.replicate spaces ' ' ++ entry.text ++ sequence rest

/-- What an entry says about its own key. -/
def Entry.lookup (entry : Entry) : Lookup :=
  match unquote entry.span with
  | .ok value => .found value
  | .error cause => .undecodable cause

/-- Spaces before an entry do not count. -/
theorem Entry.WellFormed.skipSpaces_append {entry : Entry} (h : entry.WellFormed) (spaces : Nat)
    (rest : List Char) :
    skipSpaces (List.replicate spaces ' ' ++ entry.text ++ rest) = entry.text ++ rest := by
  obtain ⟨name, span⟩ := entry
  unfold skipSpaces
  rw [List.append_assoc, List.dropWhile_append_of_pos fun c hc => by
    rw [List.eq_of_mem_replicate hc]
    decide]
  cases name with
  | nil => exact absurd rfl h.named
  | cons c name =>
    -- The name is not empty, and its first character is no space.
    have hc : c ≠ ' ' := by
      rintro rfl
      exact absurd (h.name ' ' List.mem_cons_self) (by decide)
    exact List.dropWhile_cons_of_neg (by simpa using hc)

/-- An entry of the key answers, and an entry of another key is passed over. -/
theorem find_of_first? {key tag rest : List Char} {entry : Entry}
    (h : Entry.first? (skipSpaces tag) = some (entry, rest)) :
    find key tag = if entry.name = key then entry.lookup else find key rest := by
  rw [find]
  split
  case h_1 hnone => rw [hnone] at h; cases h
  case h_2 found behind hsome =>
    obtain ⟨rfl, rfl⟩ := Prod.mk.inj (Option.some.inj (hsome.symm.trans h))
    rfl

/-- The first entry of the key answers, whatever the other entries hold; without one the look-up
goes on behind the sequence. -/
theorem find_sequence (key : List Char) {entries : List (Nat × Entry)}
    (h : ∀ e ∈ entries, e.2.WellFormed) (rest : List Char) :
    find key (Entry.sequence entries ++ rest)
      = match (entries.map Prod.snd).find? (fun entry => entry.name = key) with
        | some entry => entry.lookup
        | none => find key rest := by
  induction entries with
  | nil => rfl
  | cons head entries ih =>
    obtain ⟨spaces, entry⟩ := head
    have hentry : entry.WellFormed := h _ List.mem_cons_self
    have hfirst : Entry.first? (skipSpaces (Entry.sequence ((spaces, entry) :: entries) ++ rest))
        = some (entry, Entry.sequence entries ++ rest) := by
      rw [Entry.sequence, List.append_assoc _ (Entry.sequence entries), hentry.skipSpaces_append,
        hentry.first?_append]
    rw [find_of_first? hfirst, List.map_cons, List.find?_cons]
    -- An entry of another key leaves the answer to those behind it.
    by_cases hkey : entry.name = key
    · simp only [hkey, decide_true, if_true]
    · simp only [hkey, decide_false, if_false]
      exact ih fun e he => h e (List.mem_cons_of_mem _ he)

/-- The tag is a sequence of entries, the first of which under the key spells the value. Anything
may stand behind the sequence. -/
inductive Holds (key : List Char) (value : String) : List Char → Prop where
  | intro {entries : List (Nat × Entry)} {entry : Entry} {inner : List Char} (rest : List Char) :
    (∀ e ∈ entries, e.2.WellFormed) →
    (entries.map Prod.snd).find? (fun entry => entry.name = key) = some entry →
    entry.span = enclosed '"' inner → Spells inner (Text.utf8 value) →
      Holds key value (Entry.sequence entries ++ rest)

/-- The look-up finds the value that the first entry of the key spells. -/
theorem find_of_holds {key tag : List Char} {value : String} (h : Holds key value tag) :
    find key tag = .found value := by
  obtain ⟨rest, hentries, hfirst, hspan, hspells⟩ := h
  rw [find_sequence key hentries, hfirst]
  simp only [Entry.lookup, hspan, unquote_enclosed hspells]

end ServiceTypes.Tag
