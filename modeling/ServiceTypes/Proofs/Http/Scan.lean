import Mathlib.Data.List.Infix
import ServiceTypes.Http.Scan

/-!
# `ServiceTypes.Proofs.Http.Scan`: reading by index

Reading a response by index comes to the same as splitting the octets, and no
cut is refused. The theorems:

* `splitAround_eq_map_position?`: octets are split at the index of the pattern.
* `cutAround?_eq` / `cutHead?_eq`: the cuts are in range.
* `scan?_eq`: the same response is read, or the same error is found.
-/

set_option autoImplicit false

namespace ServiceTypes.Http

/-! ### The index of a pattern -/

/-- In nothing only the empty pattern is found. -/
theorem position?_nil (pattern : List UInt8) :
    position? pattern [] = if pattern.isEmpty then some 0 else none := by
  cases pattern with
  | nil => rfl
  | cons first pattern => simp [position?]

/-- The window at the front is the first one to be looked at. -/
theorem position?_cons (pattern : List UInt8) (b : UInt8) (rest : List UInt8) :
    position? pattern (b :: rest)
      = if pattern.isPrefixOf (b :: rest) then some 0
        else (position? pattern rest).map (· + 1) := by
  have hwindow : ((b :: rest).take pattern.length == pattern) = pattern.isPrefixOf (b :: rest) := by
    rw [Bool.eq_iff_iff, beq_iff_eq, List.isPrefixOf_iff_prefix, List.prefix_iff_eq_take, eq_comm]
  unfold position?
  by_cases hfits : pattern.length ≤ rest.length + 1
  · -- The windows are the one at the front and those of the rest, one place further on.
    have hcount : (b :: rest).length + 1 - pattern.length
        = rest.length + 1 - pattern.length + 1 := by
      rw [List.length_cons]
      omega
    rw [hcount, List.range_succ_eq_map, List.find?_cons, List.drop_zero, hwindow, List.find?_map]
    cases pattern.isPrefixOf (b :: rest) <;> rfl
  · -- The pattern is longer than all octets, so there is no window.
    have hnone : pattern.isPrefixOf (b :: rest) = false := by
      rw [Bool.eq_false_iff, ne_eq, List.isPrefixOf_iff_prefix]
      intro hstarts
      exact hfits hstarts.length_le
    have hcount : (b :: rest).length + 1 - pattern.length = 0 := by
      rw [List.length_cons]
      omega
    have hcountRest : rest.length + 1 - pattern.length = 0 := by omega
    rw [hcount, hcountRest, hnone]
    rfl

/-- Octets are split at the index of the pattern. -/
theorem splitAround_eq_map_position? (pattern seen octets : List UInt8) :
    splitAround pattern seen octets
      = (position? pattern octets).map fun i =>
          (seen.reverse ++ octets.take i, octets.drop (i + pattern.length)) := by
  induction octets generalizing seen with
  | nil =>
    rw [splitAround, position?_nil]
    split <;> simp
  | cons b rest ih =>
    rw [splitAround, position?_cons]
    split
    case isTrue => simp
    case isFalse =>
      rw [ih, Option.map_map]
      refine congrArg (fun f => (position? pattern rest).map f) (funext fun i => ?_)
      simp [Nat.add_right_comm]

/-- A window lies within the octets. -/
theorem position?_add_length_le {pattern octets : List UInt8} {i : Nat}
    (h : position? pattern octets = some i) : i + pattern.length ≤ octets.length := by
  obtain ⟨hwindow, hi, -⟩ := List.find?_range_eq_some.mp h
  have hlt := List.mem_range.mp hi
  omega

/-! ### Cuts -/

/-- No cut around a pattern is out of range. -/
theorem cutAround?_eq (pattern octets : List UInt8) :
    cutAround? pattern octets = some (splitAround pattern [] octets) := by
  rw [splitAround_eq_map_position?]
  unfold cutAround?
  cases hi : position? pattern octets with
  | none => rfl
  | some i =>
    have hle := position?_add_length_le hi
    have hbefore : cut? octets 0 i = some (octets.take i) := by
      unfold cut?
      rw [if_pos ⟨Nat.zero_le i, by omega⟩, List.drop_zero]
    have hbehind : cut? octets (i + pattern.length) octets.length
        = some (octets.drop (i + pattern.length)) := by
      unfold cut?
      rw [if_pos ⟨hle, Nat.le_refl _⟩, List.take_length]
    simp only [hbefore, hbehind]
    rfl

/-- No cut around a head is out of range. -/
theorem cutHead?_eq (octets : List UInt8) : cutHead? octets = some (splitHead? octets) := by
  unfold cutHead? splitHead?
  rw [cutAround?_eq, cutAround?_eq]
  cases splitAround emptyLine [] octets <;> rfl

/-! ### Reading -/

/-- Octets without an end of the head have none for the scan either. -/
theorem scan?_of_splitHead?_eq_none {octets : List UInt8} (h : splitHead? octets = none) :
    scan? octets = some (.error .missingTerminator) := by
  have hcut := cutHead?_eq octets
  rw [h] at hcut
  rw [scan?]
  split
  case h_1 hnone => rw [hcut] at hnone; cases hnone
  case h_2 => rfl
  case h_3 hsome => rw [hcut] at hsome; cases hsome

/-- With an end of the head the scan reads the head, and goes on behind it if it is skipped. -/
theorem scan?_of_splitHead?_eq_some {octets headOctets behind : List UInt8}
    (h : splitHead? octets = some (headOctets, behind)) :
    scan? octets =
      match Head.ofOctets headOctets with
      | .error cause => some (.error cause)
      | .ok head =>
        if head.isSkipped behind then scan? behind
        else some (.ok { head with body := behind }) := by
  -- The cut is in range, so that the scan comes to its last case.
  have hcut := cutHead?_eq octets
  rw [h] at hcut
  rw [scan?]
  split
  case h_1 hnone => rw [hcut] at hnone; cases hnone
  case h_2 hnone => rw [hcut] at hnone; cases hnone
  case h_3 hsome =>
    rw [hcut] at hsome
    obtain ⟨rfl, rfl⟩ := Prod.mk.inj (Option.some.inj (Option.some.inj hsome))
    rfl

/-- Reading by index has an answer, and it is the one of reading by parts. -/
theorem scan?_eq (octets : List UInt8) : scan? octets = some (Response.ofOctets octets) := by
  -- Both readings go on with the same octets, so the recursion of one carries the other.
  fun_induction Response.ofOctets octets with
  | case1 octets hnone => exact scan?_of_splitHead?_eq_none hnone
  | case2 octets headOctets behind hsplit cause hhead =>
    rw [scan?_of_splitHead?_eq_some hsplit, hhead]
  | case3 octets headOctets behind hsplit head hhead hskipped ih =>
    rw [scan?_of_splitHead?_eq_some hsplit, hhead]
    dsimp only
    rw [if_pos hskipped, ih]
  | case4 octets headOctets behind hsplit head hhead hfinal =>
    rw [scan?_of_splitHead?_eq_some hsplit, hhead]
    dsimp only
    rw [if_neg hfinal]

end ServiceTypes.Http
