import Mathlib.Data.List.DropRight
import ServiceTypes.Text.Blank

/-!
# `ServiceTypes.Proofs.Text.Blank`: trimming

Blanks are dropped at the ends of a text and nowhere else. The theorems:

* `trimEnd_append`: the blanks at the end of two texts in a row.
* `trim_trimEnd`: blanks at the end may be dropped beforehand.
* `trim_of_trimmed`: a text without blanks at its ends stays as it is.
* `trimmed_trim`: trimming leaves no blank at either end.
-/

set_option autoImplicit false

namespace ServiceTypes.Text

/-- A text without blanks at its ends. -/
structure Trimmed (cs : List Char) : Prop where
  first : ∀ c ∈ cs.head?, isBlank c = false
  last : ∀ c ∈ cs.getLast?, isBlank c = false

/-- Whether a text is trimmed is read off its ends. -/
instance (cs : List Char) : Decidable (Trimmed cs) :=
  decidable_of_iff ((cs.head?.any isBlank || cs.getLast?.any isBlank) = false) <| by
    rw [Bool.or_eq_false_iff, Option.any_eq_false, Option.any_eq_false]
    exact ⟨fun h => ⟨h.1, h.2⟩, fun h => ⟨h.first, h.last⟩⟩

/-- The empty text has no blanks at its ends. -/
theorem trimmed_nil : Trimmed [] where
  first _ h := by cases h
  last _ h := by cases h

/-- The second text loses its blanks; the first does only if nothing of the second is left. -/
theorem trimEnd_append (cs ds : List Char) :
    trimEnd (cs ++ ds) = if (trimEnd ds).isEmpty then trimEnd cs else cs ++ trimEnd ds := by
  unfold trimEnd
  rw [List.reverse_append, List.dropWhile_append, List.isEmpty_reverse]
  split
  · rfl
  · rw [List.reverse_append, List.reverse_reverse]

/-- A text that does not end in a blank is kept. -/
theorem trimEnd_eq_self {cs : List Char} (h : ∀ c ∈ cs.getLast?, isBlank c = false) :
    trimEnd cs = cs := by
  refine List.rdropWhile_eq_self_iff.mpr fun hne => ?_
  rw [h _ (List.getLast?_eq_some_getLast hne)]
  exact Bool.false_ne_true

/-- Trimming the end again changes nothing. -/
theorem trimEnd_trimEnd (cs : List Char) : trimEnd (trimEnd cs) = trimEnd cs :=
  List.rdropWhile_idempotent isBlank cs

/-- Blanks may be dropped at either end first. -/
theorem trimStart_trimEnd (cs : List Char) :
    trimStart (trimEnd cs) = trimEnd (trimStart cs) := by
  induction cs with
  | nil => rfl
  | cons c cs ih =>
    have hcons : trimEnd (c :: cs)
        = if (trimEnd cs).isEmpty then trimEnd [c] else c :: trimEnd cs :=
      trimEnd_append [c] cs
    -- A blank at the front goes in either order, and any other character stays in either.
    by_cases hblank : isBlank c
    · have hdrop : trimStart (c :: cs) = trimStart cs := List.dropWhile_cons_of_pos hblank
      rw [hdrop, ← ih, hcons]
      split
      case isTrue hempty =>
        have hone : trimEnd [c] = [] := by
          unfold trimEnd
          rw [List.reverse_singleton, List.dropWhile_cons_of_pos hblank]
          rfl
        rw [hone, List.isEmpty_iff.mp hempty]
      case isFalse => exact List.dropWhile_cons_of_pos hblank
    · have hkeep : ∀ ds, trimStart (c :: ds) = c :: ds := fun ds =>
        List.dropWhile_cons_of_neg hblank
      rw [hkeep, hcons]
      split
      case isTrue =>
        have hone : trimEnd [c] = [c] := trimEnd_eq_self fun d hd => by
          rw [← Option.some.inj hd]
          exact eq_false_of_ne_true hblank
        rw [hone, hkeep]
      case isFalse => exact hkeep _

/-- Blanks at the end that are gone before do not count. -/
theorem trim_trimEnd (cs : List Char) : trim (trimEnd cs) = trim cs := by
  unfold trim
  rw [trimStart_trimEnd, trimEnd_trimEnd]

/-- A text without blanks at its ends is kept. -/
theorem trim_of_trimmed {cs : List Char} (h : Trimmed cs) : trim cs = cs := by
  have hstart : trimStart cs = cs := by
    cases cs with
    | nil => rfl
    | cons c cs =>
      refine List.dropWhile_cons_of_neg ?_
      rw [h.first c rfl]
      exact Bool.false_ne_true
  unfold trim
  rw [hstart, trimEnd_eq_self h.last]

/-- What is left does not start with a blank. -/
theorem isBlank_of_mem_head?_trimStart {cs : List Char} {c : Char}
    (h : c ∈ (trimStart cs).head?) : isBlank c = false := by
  have hnot := List.head?_dropWhile_not isBlank cs
  unfold trimStart at h
  rw [Option.mem_def.mp h] at hnot
  exact hnot

/-- What is left has no blanks at its ends. -/
theorem trimmed_trim (cs : List Char) : Trimmed (trim cs) where
  first c hc := by
    unfold trim at hc
    rw [← trimStart_trimEnd] at hc
    exact isBlank_of_mem_head?_trimStart hc
  last c hc := by
    unfold trim trimEnd at hc
    rw [List.getLast?_reverse] at hc
    exact isBlank_of_mem_head?_trimStart hc

/-- Trimming adds no characters. -/
theorem mem_of_mem_trim {cs : List Char} {c : Char} (h : c ∈ trim cs) : c ∈ cs := by
  unfold trim trimEnd at h
  have hstart := (List.dropWhile_sublist isBlank).subset (List.mem_reverse.mp h)
  exact (List.dropWhile_sublist isBlank).subset (List.mem_reverse.mp hstart)

/-- A decimal digit is not blank. -/
theorem isBlank_of_isDigit {c : Char} (h : c.isDigit) : isBlank c = false := by
  have hbounds : 48 ≤ c.toNat ∧ c.toNat ≤ 57 := by
    simp only [Char.isDigit, Bool.and_eq_true, decide_eq_true_eq, ge_iff_le,
      UInt32.le_iff_toNat_le] at h
    exact h
  obtain ⟨hlow, hhigh⟩ := hbounds
  simp only [isBlank, Bool.or_eq_false_iff, Bool.and_eq_false_iff, decide_eq_false_iff_not,
    beq_eq_false_iff_ne]
  omega

end ServiceTypes.Text
