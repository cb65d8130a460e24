import ServiceTypes.Text.Lines

/-!
# `ServiceTypes.Proofs.Text.Lines`: lines read back

Lines that are joined by line ends are read back as they were, with either
kind of line end. The last line has no line end, so it must not be empty.

* `LineEnd`: the two kinds of line end.
* `lines_intercalate`: the lines of joined lines.
* `noFeed_of_mem_lines` / `prefix_of_lines_eq_cons`: what the lines of any
  text are.
-/

set_option autoImplicit false

namespace ServiceTypes.Text

/-- A line end: a line feed, or a carriage return and a line feed. -/
inductive LineEnd : List Char → Prop
  | bare : LineEnd ['\n']
  | crlf : LineEnd ['\r', '\n']

/-- A text that fits on one line. -/
structure OneLine (cs : List Char) : Prop where
  noReturn : '\r' ∉ cs
  noFeed : '\n' ∉ cs

/-- Whether a text fits on one line is decided by a search for both characters of line ends. -/
instance (cs : List Char) : Decidable (OneLine cs) :=
  decidable_of_iff ('\r' ∉ cs ∧ '\n' ∉ cs)
    ⟨fun h => ⟨h.1, h.2⟩, fun h => ⟨h.noReturn, h.noFeed⟩⟩

/-- Two pieces of a line make one line. -/
theorem OneLine.append {cs ds : List Char} (hc : OneLine cs) (hd : OneLine ds) :
    OneLine (cs ++ ds) where
  noReturn h := (List.mem_append.mp h).elim hc.noReturn hd.noReturn
  noFeed h := (List.mem_append.mp h).elim hc.noFeed hd.noFeed

/-- A line with one more character in front is one line, unless the character ends lines. -/
theorem OneLine.cons {c : Char} {cs : List Char} (hreturn : '\r' ≠ c) (hfeed : '\n' ≠ c)
    (h : OneLine cs) : OneLine (c :: cs) where
  noReturn hmem := (List.mem_cons.mp hmem).elim hreturn h.noReturn
  noFeed hmem := (List.mem_cons.mp hmem).elim hfeed h.noFeed

/-- A line without a carriage return is kept. -/
theorem dropCarriageReturn_of_notMem {line : List Char} (h : '\r' ∉ line) :
    dropCarriageReturn line = line := by
  unfold dropCarriageReturn
  rw [if_neg fun hlast => h (List.mem_of_getLast? hlast)]

/-- One carriage return at the end is dropped. -/
theorem dropCarriageReturn_concat (line : List Char) :
    dropCarriageReturn (line ++ ['\r']) = line := by
  unfold dropCarriageReturn
  rw [if_pos List.getLast?_concat, List.dropLast_concat]

/-- Nothing is dropped but at the end. -/
theorem isPrefix_dropCarriageReturn (line : List Char) : dropCarriageReturn line <+: line := by
  unfold dropCarriageReturn
  split
  · exact List.dropLast_prefix line
  · exact List.prefix_rfl

/-- The first line of a text goes up to its line end. -/
theorem lines_append {line ending : List Char} (hline : OneLine line) (hend : LineEnd ending)
    (rest : List Char) : lines (line ++ ending ++ rest) = line :: lines rest := by
  obtain ⟨part, parts, hparts⟩ := List.exists_cons_of_ne_nil (List.splitOn_ne_nil '\n' rest)
  unfold lines
  cases hend with
  | bare =>
    rw [List.append_assoc]
    show finishLines ((line ++ '\n' :: rest).splitOn '\n') = _
    rw [List.splitOn_append_cons_self_of_not_mem hline.noFeed, hparts, finishLines,
      dropCarriageReturn_of_notMem hline.noReturn]
    exact List.cons_ne_nil _ _
  | crlf =>
    -- The carriage return is split off with the line and dropped from it afterwards.
    have hfeed : '\n' ∉ line ++ ['\r'] := by
      rw [List.mem_append, List.mem_singleton]
      rintro (h | h)
      · exact hline.noFeed h
      · exact absurd h (by decide)
    have hjoin : line ++ ['\r', '\n'] ++ rest = (line ++ ['\r']) ++ '\n' :: rest := by
      simp only [List.append_assoc, List.cons_append, List.nil_append]
    rw [hjoin, List.splitOn_append_cons_self_of_not_mem hfeed, hparts, finishLines,
      dropCarriageReturn_concat]
    exact List.cons_ne_nil _ _

/-- One line that is not empty is read as itself. -/
theorem lines_of_oneLine {line : List Char} (hline : OneLine line) (hne : line ≠ []) :
    lines line = [line] := by
  unfold lines
  rw [List.splitOn_eq_singleton hline.noFeed, finishLines, List.isEmpty_eq_false_iff.mpr hne]
  rfl

/-- Joined lines are read back. -/
theorem lines_intercalate {ending : List Char} (hend : LineEnd ending) {ls : List (List Char)}
    (h : ∀ line ∈ ls, OneLine line ∧ line ≠ []) : lines (ending.intercalate ls) = ls := by
  induction ls with
  | nil => rfl
  | cons line ls ih =>
    obtain ⟨hline, hne⟩ := h line List.mem_cons_self
    cases ls with
    | nil =>
      rw [List.intercalate_singleton]
      exact lines_of_oneLine hline hne
    | cons next ls =>
      have hrest := ih fun l hl => h l (List.mem_cons_of_mem line hl)
      rw [List.intercalate_cons_cons, lines_append hline hend, hrest]

/-! ### What lines are made of -/

/-- Lines with their line ends are joined lines with a line end behind them. -/
theorem flatMap_append_ending (ending line : List Char) (ls : List (List Char)) :
    (line :: ls).flatMap (· ++ ending) = ending.intercalate (line :: ls) ++ ending := by
  induction ls generalizing line with
  | nil => simp
  | cons next ls ih =>
    rw [List.flatMap_cons, ih next, List.intercalate_cons_cons]
    simp only [List.append_assoc]

/-- Joined lines start with the first one. -/
theorem exists_intercalate_cons (ending line : List Char) (ls : List (List Char)) :
    ∃ more, ending.intercalate (line :: ls) = line ++ more := by
  cases ls with
  | nil => exact ⟨[], by rw [List.intercalate_singleton, List.append_nil]⟩
  | cons next ls => exact ⟨_, by rw [List.intercalate_cons_cons, List.append_assoc]⟩

/-- The parts of a text between separators hold no separator. -/
theorem not_mem_of_mem_splitOn {separator : Char} {text part : List Char}
    (h : part ∈ text.splitOn separator) : separator ∉ part := by
  induction text generalizing part with
  | nil =>
    rw [List.splitOn_nil, List.mem_singleton] at h
    rw [h]
    exact List.not_mem_nil
  | cons c text ih =>
    obtain ⟨first, others, hparts⟩ :=
      List.exists_cons_of_ne_nil (List.splitOn_ne_nil separator text)
    rw [List.splitOn_cons_eq_if_modifyHead, hparts] at h
    rw [hparts] at ih
    split at h
    case isTrue =>
      rcases List.mem_cons.mp h with rfl | hmem
      · exact List.not_mem_nil
      · exact ih hmem
    case isFalse hc =>
      -- The character is put in front of the first part of the rest.
      rcases List.mem_cons.mp h with rfl | hmem
      · have hne : separator ≠ c := fun heq => hc (beq_iff_eq.mpr heq.symm)
        exact List.not_mem_cons_of_ne_of_not_mem hne (ih List.mem_cons_self)
      · exact ih (List.mem_cons_of_mem first hmem)

/-- A line that is left was a part, perhaps with a carriage return behind it. -/
theorem exists_mem_of_mem_finishLines {parts : List (List Char)} {line : List Char}
    (h : line ∈ finishLines parts) : ∃ part ∈ parts, line <+: part := by
  fun_induction finishLines parts with
  | case1 => cases h
  | case2 => cases h
  | case3 last =>
    rw [List.mem_singleton.mp h]
    exact ⟨last, List.mem_cons_self, List.prefix_rfl⟩
  | case4 part parts hne ih =>
    cases List.mem_cons.mp h with
    | inl heq =>
      rw [heq]
      exact ⟨part, List.mem_cons_self, isPrefix_dropCarriageReturn part⟩
    | inr hmem =>
      obtain ⟨other, hother, hline⟩ := ih hmem
      exact ⟨other, List.mem_cons_of_mem part hother, hline⟩

/-- A line holds no line feed. -/
theorem noFeed_of_mem_lines {cs line : List Char} (h : line ∈ lines cs) : '\n' ∉ line := by
  obtain ⟨part, hpart, hline⟩ := exists_mem_of_mem_finishLines h
  exact fun hmem => not_mem_of_mem_splitOn hpart (hline.subset hmem)

/-- The first line stands at the front. -/
theorem prefix_of_lines_eq_cons {cs line : List Char} {rest : List (List Char)}
    (h : lines cs = line :: rest) : line <+: cs := by
  obtain ⟨part, parts, hparts⟩ := List.exists_cons_of_ne_nil (List.splitOn_ne_nil '\n' cs)
  have hpart : part <+: cs := by
    obtain ⟨more, hmore⟩ := exists_intercalate_cons ['\n'] part parts
    rw [← hparts, List.intercalate_splitOn] at hmore
    exact ⟨more, hmore.symm⟩
  unfold lines at h
  rw [hparts] at h
  -- The last part is a line if it is not empty, and keeps its carriage return. The others lose it.
  cases parts with
  | nil =>
    rw [finishLines] at h
    split at h
    case isTrue => cases h
    case isFalse => rwa [← (List.cons.inj h).1]
  | cons next parts =>
    rw [← (List.cons.inj h).1]
    exact (isPrefix_dropCarriageReturn part).trans hpart

end ServiceTypes.Text
