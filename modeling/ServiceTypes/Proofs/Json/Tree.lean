import ServiceTypes.Json.Tree
import ServiceTypes.Proofs.Keyed

/-!
# `ServiceTypes.Proofs.Json.Tree`: members in any order

Putting the members of objects into order changes nothing that a reader of
members by name can see, as long as no object has two members of one name. The
theorems:

* `lookup_ofEntries`: entries with distinct keys keep their values when they are
  entered into a table.
* `Value.required_eq_bind`: reading a member is looking it up.
* `Value.lookup_sorted`: a sorted object has the same members.
* `Value.required_sorted` / `Value.optional_sorted`: what is read from a member
  of a sorted object.
-/

set_option autoImplicit false

namespace ServiceTypes

variable {α : Type}

/-- Under distinct keys, a table has the value of each entry. -/
theorem lookup_ofEntries {pairs : List (String × α)} (h : (pairs.map Prod.fst).Nodup)
    (key : String) : (ofEntries pairs).lookup key = pairs.lookup key := by
  -- What is already in the table shows under the keys that are still to come nowhere.
  have hfold : ∀ (rest table : List (String × α)), (rest.map Prod.fst).Nodup →
      (rest.foldl (fun table pair => insertEntry pair.1 pair.2 table) table).lookup key
        = (rest.lookup key).or (table.lookup key) := by
    intro rest
    induction rest with
    | nil => intro table _; rfl
    | cons pair rest ih =>
      intro table hnodup
      obtain ⟨hnew, hrest⟩ := List.nodup_cons.mp hnodup
      rw [List.foldl_cons, ih _ hrest]
      by_cases hkey : key = pair.1
      · have hnone : rest.lookup pair.1 = none := lookup_eq_none_iff_notMem.mpr hnew
        rw [hkey, hnone, lookup_insertEntry_self, List.lookup_cons_self]
        rfl
      · have hmiss : (key == pair.1) = false := by simpa using hkey
        rw [lookup_insertEntry_of_ne hkey, List.lookup_cons, hmiss]
  have hempty := hfold pairs [] h
  rw [List.lookup_nil, Option.or_none] at hempty
  exact hempty

namespace Json.Value

/-- Reading a member is looking it up. -/
theorem required_eq_bind (v : Value) (name : String) (read : Value → Option α) :
    (v.required name fun w _ => read w) = (v.members.lookup name).bind read := by
  unfold required
  split
  case h_1 w hsome => simp only [hsome, Option.bind_some]
  case h_2 hnone => simp only [hnone, Option.bind_none]

/-- The members of an object are sorted inside, one by one. -/
theorem sortedMembers_eq_map (members : List (String × Value)) :
    sortedMembers members = members.map fun pair => (pair.1, pair.2.sorted) := by
  induction members with
  | nil => rfl
  | cons pair rest ih => rw [sortedMembers, ih, List.map_cons]

/-- Their names stay as they are. -/
theorem keys_sortedMembers (members : List (String × Value)) :
    (sortedMembers members).map Prod.fst = members.map Prod.fst := by
  rw [sortedMembers_eq_map, List.map_map]
  rfl

/-- A member is found under its name, sorted inside. -/
theorem lookup_sortedMembers (members : List (String × Value)) (name : String) :
    (sortedMembers members).lookup name = (members.lookup name).map sorted := by
  induction members with
  | nil => rfl
  | cons pair rest ih =>
    obtain ⟨key, value⟩ := pair
    rw [sortedMembers, List.lookup_cons, List.lookup_cons, ih]
    split <;> rfl

/-- No two members of the value have one name. Values inside the members may be otherwise. -/
def Distinct (v : Value) : Prop :=
  (v.members.map Prod.fst).Nodup

/-- A sorted object has the same members. -/
theorem lookup_sorted {v : Value} (h : v.Distinct) (name : String) :
    v.sorted.members.lookup name = (v.members.lookup name).map sorted := by
  cases v with
  | object members =>
    show (ofEntries (sortedMembers members)).lookup name = (members.lookup name).map sorted
    rw [lookup_ofEntries (by rw [keys_sortedMembers]; exact h), lookup_sortedMembers]
  | _ => rfl

/-- What is read from a member of a sorted object is read from the sorted member. -/
theorem required_sorted {v : Value} (h : v.Distinct) (name : String) (read : Value → Option α) :
    (v.sorted.required name fun w _ => read w)
      = (v.members.lookup name).bind fun w => read w.sorted := by
  rw [required_eq_bind, lookup_sorted h, Option.bind_map]
  rfl

/-- What is read from a member that may be missing is read from the sorted member. -/
theorem optional_sorted {v : Value} (h : v.Distinct) (name : String) (read : Value → Option α) :
    v.sorted.optional name read
      = match v.members.lookup name with
        | some w => (read w.sorted).map some
        | none => some none := by
  unfold optional
  rw [lookup_sorted h]
  cases v.members.lookup name <;> rfl

end Json.Value

end ServiceTypes
