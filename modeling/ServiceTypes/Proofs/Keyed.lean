import Mathlib.Data.List.Sort
import ServiceTypes.Keyed

/-!
# `ServiceTypes.Proofs.Keyed`: tables by their look-ups

A table is a list, but only its look-ups matter. The theorems:

* `lookup_eq_some_iff_mem`: in ascending entries, looking a key up is
  asking for membership.
* `Ascending.ext`: ascending entries with the same members are the same
  list. A listing in key order is settled by what it says of each key.
* `ofEntries_of_ascending`: ascending entries are the table of their pairs.
* `Keyed.length_insert`: a table grows by one entry for a new key, and
  keeps its length for an old one.
* `Keyed.get?_modify`: changing the value of a key in place changes
  nothing else.
-/

set_option autoImplicit false

namespace ServiceTypes

variable {α : Type}

/-! ### Entries with distinct keys -/

/-- Under distinct keys, the value found under a key is the value of its entry. -/
theorem lookup_eq_some_iff_of_nodup {entries : List (String × α)}
    (h : (entries.map Prod.fst).Nodup) (key : String) (value : α) :
    entries.lookup key = some value ↔ (key, value) ∈ entries := by
  induction entries with
  | nil => simp
  | cons head rest ih =>
    obtain ⟨k, v⟩ := head
    rw [List.map_cons] at h
    obtain ⟨hnew, hrest⟩ := List.nodup_cons.mp h
    by_cases hk : key = k
    · subst hk
      rw [List.lookup_cons_self, List.mem_cons]
      constructor
      · intro hv
        exact Or.inl (by rw [Option.some.inj hv])
      · rintro (heq | hmem)
        · rw [(Prod.mk.inj heq).2]
        · -- The key is not met again behind its first place.
          exact absurd (List.mem_map_of_mem hmem) hnew
    · have hmiss : (key == k) = false := by simpa using hk
      rw [List.lookup_cons, hmiss, List.mem_cons]
      constructor
      · intro hv
        exact Or.inr ((ih hrest).mp hv)
      · rintro (heq | hmem)
        · exact absurd (Prod.mk.inj heq).1 hk
        · exact (ih hrest).mpr hmem

/-- Under distinct keys, an entry is the only one of its key. -/
theorem filter_eq_singleton_of_nodup {entries : List (String × α)}
    (h : (entries.map Prod.fst).Nodup) {key : String} {value : α} (hmem : (key, value) ∈ entries) :
    entries.filter (fun pair => pair.1 = key) = [(key, value)] := by
  induction entries with
  | nil => cases hmem
  | cons head rest ih =>
    rw [List.map_cons] at h
    obtain ⟨hnew, hrest⟩ := List.nodup_cons.mp h
    rcases List.mem_cons.mp hmem with rfl | hmem
    · have hnone : rest.filter (fun pair => pair.1 = key) = [] := by
        refine List.filter_eq_nil_iff.mpr fun pair hpair heq => hnew ?_
        exact List.mem_map.mpr ⟨pair, hpair, of_decide_eq_true heq⟩
      rw [List.filter_cons_of_pos (by simp), hnone]
    · have hne : head.1 ≠ key := fun heq => hnew (heq ▸ List.mem_map_of_mem hmem)
      rw [List.filter_cons_of_neg (by simpa using hne), ih hrest hmem]

/-- A key is not found exactly if no entry has it. -/
theorem lookup_eq_none_iff_notMem {entries : List (String × α)} {key : String} :
    entries.lookup key = none ↔ key ∉ entries.map Prod.fst := by
  rw [List.lookup_eq_none_iff, List.mem_map]
  constructor
  · rintro hne ⟨pair, hpair, rfl⟩
    exact absurd (hne pair hpair) (by simp)
  · intro hkey pair hpair
    exact bne_iff_ne.mpr fun heq => hkey ⟨pair, hpair, heq.symm⟩

/-! ### Ascending entries -/

/-- Whether entries ascend is decided pair by pair. -/
instance (entries : List (String × α)) : Decidable (Ascending entries) :=
  inferInstanceAs (Decidable (entries.Pairwise fun a b => a.1 < b.1))

/-- Ascending entries have no key twice. -/
theorem Ascending.nodup_keys {entries : List (String × α)} (h : Ascending entries) :
    (entries.map Prod.fst).Nodup := by
  refine List.pairwise_map.mpr (List.Pairwise.imp ?_ h)
  exact fun hlt heq => Std.lt_irrefl (heq ▸ hlt)

/-- In ascending entries the value found under a key is the value of its entry. -/
theorem lookup_eq_some_iff_mem {entries : List (String × α)} (h : Ascending entries)
    (key : String) (value : α) :
    entries.lookup key = some value ↔ (key, value) ∈ entries :=
  lookup_eq_some_iff_of_nodup h.nodup_keys key value

/-- Ascending entries are determined by their members. -/
theorem Ascending.ext {as bs : List (String × α)} (has : Ascending as) (hbs : Ascending bs)
    (h : ∀ pair, pair ∈ as ↔ pair ∈ bs) : as = bs := by
  have hirrefl : Std.Irrefl fun a b : String × α => a.1 < b.1 :=
    ⟨fun a => Std.lt_irrefl (a := a.1)⟩
  have hantisymm : Std.Antisymm fun a b : String × α => a.1 < b.1 :=
    ⟨fun a b hab hba => absurd hab (Std.not_lt.mpr (Std.le_of_lt hba))⟩
  exact List.Pairwise.eq_of_mem_iff has hbs h

/-- A key above all others comes last. -/
theorem insertEntry_of_forall_lt {key : String} {entries : List (String × α)}
    (h : ∀ pair ∈ entries, pair.1 < key) (value : α) :
    insertEntry key value entries = entries ++ [(key, value)] := by
  induction entries with
  | nil => rfl
  | cons head rest ih =>
    obtain ⟨k, v⟩ := head
    obtain ⟨hk, hrest⟩ := List.forall_mem_cons.mp h
    have hne : k ≠ key := fun heq => Std.lt_irrefl (heq ▸ hk)
    have hnlt : ¬ key < k := Std.not_lt.mpr (Std.le_of_lt hk)
    rw [insertEntry, if_neg hne, if_neg hnlt, ih hrest]
    rfl

/-- Entering ascending entries one by one gives them back. -/
theorem ofEntries_of_ascending {entries : List (String × α)} (h : Ascending entries) :
    ofEntries entries = entries := by
  -- What is already entered is the front of the list.
  have hfold : ∀ rest front : List (String × α), Ascending (front ++ rest) →
      rest.foldl (fun table pair => insertEntry pair.1 pair.2 table) front = front ++ rest := by
    intro rest
    induction rest with
    | nil =>
      intro front _
      rw [List.append_nil]
      rfl
    | cons pair rest ih =>
      intro front hfront
      have hbelow : ∀ other ∈ front, other.1 < pair.1 := fun other hother =>
        (List.pairwise_append.mp hfront).2.2 other hother pair List.mem_cons_self
      rw [List.append_cons] at hfront ⊢
      rw [List.foldl_cons, insertEntry_of_forall_lt hbelow]
      exact ih _ hfront
  exact hfold entries [] h

/-- A value for a key that has none makes the entries longer by one. -/
theorem length_insertEntry_of_lookup_eq_none {key : String} {entries : List (String × α)}
    (h : entries.lookup key = none) (value : α) :
    (insertEntry key value entries).length = entries.length + 1 := by
  induction entries with
  | nil => rfl
  | cons head rest ih =>
    obtain ⟨k, v⟩ := head
    have hk : k ≠ key := by
      rintro rfl
      rw [List.lookup_cons_self] at h
      cases h
    have hmiss : (key == k) = false := by simpa using hk.symm
    rw [List.lookup_cons, hmiss] at h
    rw [insertEntry, if_neg hk]
    split
    · rfl
    · rw [List.length_cons, ih h, List.length_cons]

/-- A further value for a key that has one leaves the number of entries as it is. -/
theorem length_insertEntry_of_lookup_eq_some {key : String} {old : α}
    {entries : List (String × α)} (hasc : Ascending entries)
    (h : entries.lookup key = some old) (value : α) :
    (insertEntry key value entries).length = entries.length := by
  induction entries with
  | nil => cases h
  | cons head rest ih =>
    obtain ⟨k, v⟩ := head
    obtain ⟨hbelow, hrest⟩ := List.pairwise_cons.mp hasc
    rw [insertEntry]
    split
    · rfl
    case isFalse hk =>
      have hmiss : (key == k) = false := by simpa using Ne.symm hk
      rw [List.lookup_cons, hmiss] at h
      -- The key is further on, so it is not entered in front.
      have hlt : k < key := hbelow _ ((lookup_eq_some_iff_mem hrest key old).mp h)
      rw [if_neg (Std.not_lt.mpr (Std.le_of_lt hlt)), List.length_cons, ih hrest h,
        List.length_cons]

/-! ### Tables -/

namespace Keyed

/-- Changes the value of a key, if it has one. -/
def modify (table : Keyed α) (key : String) (change : α → α) : Keyed α :=
  match table.get? key with
  | some value => table.insert key (change value)
  | none => table

/-- A table holds an entry exactly if its key is looked up to its value. -/
theorem mem_entries_iff (table : Keyed α) (key : String) (value : α) :
    (key, value) ∈ table.entries ↔ table.get? key = some value :=
  (lookup_eq_some_iff_mem table.ascending key value).symm

/-- An inserted value is found under its key, and the other keys are as before. -/
theorem get?_insert (table : Keyed α) (key other : String) (value : α) :
    (table.insert key value).get? other
      = if other = key then some value else table.get? other := by
  by_cases h : other = key
  · rw [if_pos h, h]
    exact table.get?_insert_self key value
  · rw [if_neg h]
    exact table.get?_insert_of_ne h value

/-- A change in place shows under its own key only. -/
theorem get?_modify (table : Keyed α) (key other : String) (change : α → α) :
    (table.modify key change).get? other
      = if other = key then (table.get? key).map change else table.get? other := by
  unfold modify
  cases h : table.get? key with
  | none =>
    by_cases hk : other = key
    · rw [if_pos hk, hk]
      exact h
    · rw [if_neg hk]
  | some value => exact table.get?_insert key other (change value)

/-- A new key makes a table one entry longer, and a known key does not. -/
theorem length_insert (table : Keyed α) (key : String) (value : α) :
    (table.insert key value).entries.length
      = if (table.get? key).isSome then table.entries.length
        else table.entries.length + 1 := by
  cases h : table.get? key with
  | none => exact length_insertEntry_of_lookup_eq_none h value
  | some old => exact length_insertEntry_of_lookup_eq_some table.ascending h value

/-- A change in place keeps the number of entries. -/
theorem length_modify (table : Keyed α) (key : String) (change : α → α) :
    (table.modify key change).entries.length = table.entries.length := by
  unfold modify
  cases h : table.get? key with
  | none => rfl
  | some value =>
    show (table.insert key (change value)).entries.length = table.entries.length
    rw [length_insert, h]
    rfl

end Keyed

end ServiceTypes
