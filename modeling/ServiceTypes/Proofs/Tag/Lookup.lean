import ServiceTypes.Proofs.Tag.Scan

/-!
# `ServiceTypes.Proofs.Tag.Lookup`: what a tag says about a key

Every tag is a sequence of entries with something behind it that starts with
no further entry. The first entry of a key in the sequence is the answer, and
without one the key is missing. A scan that knows octets only comes to the same
answers. The theorems:

* `Entry.first?_eq_some_iff`: an entry is split off exactly if a text starts
  with it.
* `first?_skipSpaces_eq_none_iff`: a look-up ends where no entry starts.
* `exists_splits`: every tag has the form of a sequence.
* `find_of_splits`: a look-up in a tag of this form.
-/

set_option autoImplicit false

namespace ServiceTypes.Tag

/-! ### Splitting off an entry -/

/-- A text splits behind its first free double quote. -/
theorem exists_spanBody_of_splitSpan? {text span rest : List Char}
    (h : splitSpan? text = some (span, rest)) :
    ∃ body, SpanBody body ∧ span = body ++ ['"'] := by
  fun_induction splitSpan? text generalizing span with
  | case1 => cases h
  | case2 tail =>
    obtain ⟨rfl, -⟩ := Prod.mk.inj (Option.some.inj h)
    exact ⟨[], .nil, rfl⟩
  | case3 => cases h
  | case4 d tail hquote ih =>
    -- Behind a backslash any character goes, a double quote too.
    obtain ⟨⟨inner, behind⟩, hsplit, heq⟩ := Option.map_eq_some_iff.mp h
    obtain ⟨rfl, rfl⟩ := Prod.mk.inj heq
    obtain ⟨body, hbody, rfl⟩ := ih hsplit
    exact ⟨'\\' :: d :: body, .escaped hbody, rfl⟩
  | case5 c tail hquote hbackslash ih =>
    obtain ⟨⟨inner, behind⟩, hsplit, heq⟩ := Option.map_eq_some_iff.mp h
    obtain ⟨rfl, rfl⟩ := Prod.mk.inj heq
    obtain ⟨body, hbody, rfl⟩ := ih hsplit
    exact ⟨c :: body, .plain hquote hbackslash hbody, rfl⟩

/-- What is split off is an entry. -/
theorem Entry.wellFormed_of_first? {text rest : List Char} {entry : Entry}
    (h : Entry.first? text = some (entry, rest)) : entry.WellFormed := by
  simp only [Entry.first?] at h
  split at h
  case isTrue => cases h
  case isFalse hname =>
    split at h
    case h_1 behind hdrop =>
      obtain ⟨⟨span, tail⟩, hsplit, heq⟩ := Option.map_eq_some_iff.mp h
      obtain ⟨rfl, rfl⟩ := Prod.mk.inj heq
      obtain ⟨body, hbody, rfl⟩ := exists_spanBody_of_splitSpan? hsplit
      exact {
        named := fun hnil => hname (List.isEmpty_iff.mpr hnil)
        name := fun c hc => List.mem_takeWhile_imp hc
        span := ⟨body, hbody, rfl⟩ }
    case h_2 => cases h

/-- An entry is split off exactly if the text starts with it. -/
theorem Entry.first?_eq_some_iff {text rest : List Char} {entry : Entry} :
    Entry.first? text = some (entry, rest) ↔ entry.WellFormed ∧ text = entry.text ++ rest := by
  constructor
  · intro h
    exact ⟨Entry.wellFormed_of_first? h, (Entry.append_of_first? h).symm⟩
  · rintro ⟨hentry, rfl⟩
    exact hentry.first?_append rest

/-! ### Where the entries end -/

/-- Behind any number of spaces the text starts with an entry. -/
def StartsWithEntry (text : List Char) : Prop :=
  ∃ (spaces : Nat) (entry : Entry) (rest : List Char), entry.WellFormed ∧
    text = List.replicate spaces ' ' ++ entry.text ++ rest

/-- Spaces are skipped, however many there are. -/
theorem exists_replicate_append_skipSpaces (text : List Char) :
    ∃ spaces, text = List.replicate spaces ' ' ++ skipSpaces text := by
  refine ⟨(text.takeWhile (· = ' ')).length, ?_⟩
  have hspaces : text.takeWhile (· = ' ')
      = List.replicate (text.takeWhile (· = ' ')).length ' ' := by
    refine List.eq_replicate_of_mem fun c hc => ?_
    have hspace := List.mem_takeWhile_imp hc
    exact of_decide_eq_true hspace
  rw [← hspaces]
  exact List.takeWhile_append_dropWhile.symm

/-- No entry is split off exactly where none stands behind the spaces. -/
theorem first?_skipSpaces_eq_none_iff (text : List Char) :
    Entry.first? (skipSpaces text) = none ↔ ¬ StartsWithEntry text := by
  rw [Option.eq_none_iff_forall_ne_some]
  refine ⟨fun h => ?_, fun h => ?_⟩
  · -- The entry would be split off behind its spaces.
    rintro ⟨spaces, entry, rest, hentry, rfl⟩
    refine h (entry, rest) ?_
    rw [hentry.skipSpaces_append]
    exact hentry.first?_append rest
  · rintro ⟨entry, rest⟩ hfirst
    obtain ⟨hentry, htext⟩ := Entry.first?_eq_some_iff.mp hfirst
    obtain ⟨spaces, hspaces⟩ := exists_replicate_append_skipSpaces text
    rw [htext, ← List.append_assoc] at hspaces
    exact h ⟨spaces, entry, rest, hentry, hspaces⟩

/-- Spaces alone hold no entry. -/
theorem not_startsWithEntry_of_spaces {text : List Char} (h : ∀ c ∈ text, c = ' ') :
    ¬ StartsWithEntry text := by
  rintro ⟨spaces, entry, rest, hentry, rfl⟩
  -- The name has a character, and a space is none of a name.
  obtain ⟨c, hc⟩ := List.exists_mem_of_ne_nil entry.name hentry.named
  have hmem : c ∈ List.replicate spaces ' ' ++ entry.text ++ rest := by
    refine List.mem_append_left rest (List.mem_append_right _ ?_)
    exact List.mem_append_left _ hc
  have hspace := hentry.name c hc
  rw [h c hmem] at hspace
  exact absurd hspace (by decide)

/-- Where no entry starts there is nothing to find. -/
theorem find_of_not_startsWithEntry (key : List Char) {text : List Char}
    (h : ¬ StartsWithEntry text) : find key text = .missing :=
  find_of_first?_eq_none ((first?_skipSpaces_eq_none_iff text).mpr h)

/-! ### Tags as sequences -/

/-- The tag is a sequence of entries, each behind its number of spaces, and a rest that is
only spaces or starts with no entry. -/
structure Splits (tag : List Char) (entries : List (Nat × Entry)) (rest : List Char) : Prop where
  wellFormed : ∀ e ∈ entries, e.2.WellFormed
  text : tag = Entry.sequence entries ++ rest
  ends : (∀ c ∈ rest, c = ' ') ∨ ¬ StartsWithEntry rest

/-- Every tag is such a sequence. -/
theorem exists_splits (tag : List Char) : ∃ entries rest, Splits tag entries rest := by
  induction hlength : tag.length using Nat.strongRecOn generalizing tag with
  | ind n ih =>
    by_cases hstarts : StartsWithEntry tag
    · obtain ⟨spaces, entry, behind, hentry, rfl⟩ := hstarts
      -- An entry is not empty, so that the text behind it is shorter.
      have hshorter : behind.length < n := by
        rw [← hlength]
        simp [Entry.text]
        omega
      obtain ⟨entries, rest, h⟩ := ih behind.length hshorter behind rfl
      refine ⟨(spaces, entry) :: entries, rest, List.forall_mem_cons.mpr ⟨hentry, h.wellFormed⟩,
        ?_, h.ends⟩
      rw [h.text, Entry.sequence, List.append_assoc _ (Entry.sequence entries)]
    · exact ⟨[], tag, List.forall_mem_nil _, rfl, .inr hstarts⟩

/-- Every tag is a sequence of entries with a rest behind it. The first entry of the key
answers with the text that its span stands for, or says that it stands for none; what the
other entries and the rest hold does not count. Without an entry of the key it is missing. A
scan of the octets of the tag finds the same. -/
theorem find_of_splits (key : List Char) :
    (∀ tag, ∃ entries rest, Splits tag entries rest) ∧
    (∀ tag entries rest, Splits tag entries rest →
      find key tag
        = match (entries.map Prod.snd).find? (fun entry => entry.name = key) with
          | some entry =>
            match unquote entry.span with
            | .ok value => .found value
            | .error cause => .undecodable cause
          | none => .missing) ∧
    ∀ tag, scan? (Text.octetsOf key) (Text.octetsOf tag) = some (find key tag) := by
  refine ⟨exists_splits, fun tag entries rest h => ?_, fun tag => scan?_octetsOf key tag⟩
  have hends : ¬ StartsWithEntry rest := h.ends.elim not_startsWithEntry_of_spaces id
  rw [h.text, find_sequence key h.wellFormed, find_of_not_startsWithEntry key hends]
  rfl

/-- The span of the first entry does not decode, and the rest is no entry. -/
example : find "json".toList "v:\"\\é\" json:\"id\" rest".toList = .found "id" := by
  cbv

end ServiceTypes.Tag
