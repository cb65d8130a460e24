import Mathlib.Data.List.Infix
import ServiceTypes.Http.Message

/-!
# `ServiceTypes.Proofs.Http.Search`: where a pattern stands

`splitAround` splits octets around the first place of a pattern. The theorems:

* `append_of_splitAround`: nothing is lost but the pattern.
* `splitAround_eq_none_iff`: nothing is split exactly if the pattern stands
  nowhere.
* `splitAround_append`: octets without the first one of the pattern are passed
  over.
* `append_of_splitHead?`: what follows a head stands directly behind an empty
  line.
-/

set_option autoImplicit false

namespace ServiceTypes.Http

/-- What is split are the octets, less the pattern between the parts. -/
theorem append_of_splitAround {pattern seen octets before behind : List UInt8}
    (h : splitAround pattern seen octets = some (before, behind)) :
    seen.reverse ++ octets = before ++ (pattern ++ behind) := by
  induction octets generalizing seen with
  | nil =>
    rw [splitAround] at h
    obtain ⟨hempty, heq⟩ := Option.ite_none_right_eq_some.mp h
    obtain ⟨rfl, rfl⟩ := Prod.mk.inj (Option.some.inj heq)
    rw [List.isEmpty_iff.mp hempty]
    rfl
  | cons b rest ih =>
    rw [splitAround] at h
    split at h
    case isTrue hstarts =>
      -- The pattern is the front of what is left.
      obtain ⟨rfl, rfl⟩ := Prod.mk.inj (Option.some.inj h)
      rw [List.prefix_iff_eq_append.mp (List.isPrefixOf_iff_prefix.mp hstarts)]
    case isFalse =>
      -- The octet is passed over and counts as seen.
      have hrest := ih h
      rw [List.reverse_cons, List.append_assoc] at hrest
      exact hrest

/-- Nothing is split where the pattern stands nowhere. -/
theorem splitAround_eq_none_iff (pattern seen octets : List UInt8) :
    splitAround pattern seen octets = none ↔ ¬ pattern <:+: octets := by
  induction octets generalizing seen with
  | nil =>
    rw [splitAround, List.infix_nil, ← List.isEmpty_iff]
    split
    case isTrue hempty => simp [hempty]
    case isFalse hempty => simp [hempty]
  | cons b rest ih =>
    rw [splitAround, List.infix_cons_iff, ← List.isPrefixOf_iff_prefix]
    split
    case isTrue hstarts => simp [hstarts]
    case isFalse hstarts => simp [hstarts, ih]

/-- A pattern is not found among octets without its first one. -/
theorem splitAround_append {first : UInt8} {octets : List UInt8} (h : first ∉ octets)
    (pattern seen rest : List UInt8) :
    splitAround (first :: pattern) seen (octets ++ rest)
      = splitAround (first :: pattern) (octets.reverse ++ seen) rest := by
  induction octets generalizing seen with
  | nil => rfl
  | cons b octets ih =>
    have hne : first ≠ b := fun heq => h (heq ▸ List.mem_cons_self)
    -- Already the first octet tells this window from the pattern.
    have hstarts : ¬ (first :: pattern).isPrefixOf (b :: (octets ++ rest)) = true := by
      rw [List.isPrefixOf_cons_cons, beq_eq_false_iff_ne.mpr hne, Bool.false_and]
      exact Bool.false_ne_true
    rw [List.cons_append, splitAround, if_neg hstarts,
      ih (fun hmem => h (List.mem_cons_of_mem b hmem)) (b :: seen), List.reverse_cons,
      List.append_assoc]
    rfl

/-- A pattern is found where it stands. -/
theorem splitAround_self (first : UInt8) (pattern seen rest : List UInt8) :
    splitAround (first :: pattern) seen (first :: pattern ++ rest) = some (seen.reverse, rest) := by
  have hstarts : (first :: pattern).isPrefixOf (first :: (pattern ++ rest)) = true :=
    List.isPrefixOf_iff_prefix.mpr (List.prefix_append (first :: pattern) rest)
  rw [List.cons_append, splitAround, if_pos hstarts, ← List.cons_append, List.drop_left]

/-- Octets are a head, an empty line of either kind, and what follows. -/
theorem append_of_splitHead? {octets head behind : List UInt8}
    (h : splitHead? octets = some (head, behind)) :
    octets = head ++ (emptyLine ++ behind) ∨ octets = head ++ (bareEmptyLine ++ behind) := by
  unfold splitHead? at h
  split at h
  case h_1 parts hfound =>
    rw [Option.some.inj h] at hfound
    exact .inl (append_of_splitAround hfound)
  case h_2 => exact .inr (append_of_splitAround h)

end ServiceTypes.Http
