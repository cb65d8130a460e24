import ServiceTypes.Http.Message

/-!
# `ServiceTypes.Http.Scan`: reading responses by index

The end of a head is looked for by the index of its empty line, and the
head and the octets behind it are cut out by index.

* `cut?` cuts octets out, unless an index is out of range;
* `position?` is the index of the first window that is a pattern;
* `cutHead?` cuts a head and what follows it, and `scan?` reads the final
  response. They have no answer if a cut is refused.
-/

set_option autoImplicit false

namespace ServiceTypes.Http

/-- The octets from one index up to another, if both are in range. -/
def cut? (octets : List UInt8) (start stop : Nat) : Option (List UInt8) :=
  if start ≤ stop ∧ stop ≤ octets.length then some ((octets.take stop).drop start) else none

/-- The index of the first window that is the pattern. -/
def position? (pattern octets : List UInt8) : Option Nat :=
  (List.range (octets.length + 1 - pattern.length)).find? fun i =>
    (octets.drop i).take pattern.length == pattern

/-- Cuts out what stands before and behind the first place of a pattern. Nothing is cut if
the pattern stands nowhere. -/
def cutAround? (pattern octets : List UInt8) : Option (Option (List UInt8 × List UInt8)) :=
  match position? pattern octets with
  | none => some none
  | some i => do
    let before ← cut? octets 0 i
    let behind ← cut? octets (i + pattern.length) octets.length
    return some (before, behind)

/-- Cuts out a head and what follows its empty line. -/
def cutHead? (octets : List UInt8) : Option (Option (List UInt8 × List UInt8)) := do
  match ← cutAround? emptyLine octets with
  | some parts => return some parts
  | none => cutAround? bareEmptyLine octets

/-- A part is as long as its range. -/
theorem length_of_cut? {octets part : List UInt8} {start stop : Nat}
    (h : cut? octets start stop = some part) : part.length + start = stop := by
  obtain ⟨⟨hstart, hstop⟩, heq⟩ := Option.ite_none_right_eq_some.mp h
  rw [← Option.some.inj heq, List.length_drop, List.length_take, Nat.min_eq_left hstop]
  omega

/-- What follows a pattern that is not empty is shorter than the whole. -/
theorem length_of_cutAround? {pattern octets before behind : List UInt8} (hne : pattern ≠ [])
    (h : cutAround? pattern octets = some (some (before, behind))) :
    behind.length < octets.length := by
  have hpos : 0 < pattern.length := List.length_pos_iff.mpr hne
  unfold cutAround? at h
  split at h
  case h_1 => cases h
  case h_2 i hi =>
    obtain ⟨_, -, h⟩ := Option.bind_eq_some_iff.mp h
    obtain ⟨_, hbehind, heq⟩ := Option.bind_eq_some_iff.mp h
    obtain ⟨-, rfl⟩ := Prod.mk.inj (Option.some.inj (Option.some.inj heq))
    have hlength := length_of_cut? hbehind
    omega

/-- What follows a head is shorter than the whole. -/
theorem length_of_cutHead? {octets head behind : List UInt8}
    (h : cutHead? octets = some (some (head, behind))) : behind.length < octets.length := by
  obtain ⟨found, hfound, h⟩ := Option.bind_eq_some_iff.mp h
  cases found with
  | some parts =>
    rw [Option.some.inj h] at hfound
    exact length_of_cutAround? (by simp [emptyLine]) hfound
  | none => exact length_of_cutAround? (by simp [bareEmptyLine]) h

/-- Reads the final response. -/
def scan? (octets : List UInt8) : Option (Except MessageError Response) :=
  match _h : cutHead? octets with
  | none => none
  | some none => some (.error .missingTerminator)
  | some (some (headOctets, behind)) =>
    match Head.ofOctets headOctets with
    | .error cause => some (.error cause)
    | .ok head =>
      if head.isSkipped behind then scan? behind
      else some (.ok { head with body := behind })
termination_by octets.length
decreasing_by exact length_of_cutHead? _h

end ServiceTypes.Http
