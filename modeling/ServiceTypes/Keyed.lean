/-!
# `ServiceTypes.Keyed`: entries in ascending key order

A table from texts to values is kept as the list of its entries in
ascending key order, one entry for each key. Keys compare by their
characters, which is also the order of their UTF-8 octets. Equal tables
are therefore equal lists.

* `insertEntry` puts an entry into such a list, in place of an older
  one of the same key; `ofEntries` enters a list of pairs one by one,
  so that the last of equal keys stays.
* `Keyed` is such a list with the proof of its order.
* `Keyed.get?_insert_self` and `Keyed.get?_insert_of_ne` say what an
  insertion does to every key.
-/

set_option autoImplicit false

namespace ServiceTypes

variable {α : Type}

/-! ### Entry lists -/

/-- Enters a value under a key, in place of an older one. -/
def insertEntry (key : String) (value : α) : List (String × α) → List (String × α)
  | [] => [(key, value)]
  | (k, v) :: rest =>
    if k = key then (key, value) :: rest
    else if key < k then (key, value) :: (k, v) :: rest
    else (k, v) :: insertEntry key value rest

/-- The table of a list of pairs: the last of equal keys stays. -/
def ofEntries (pairs : List (String × α)) : List (String × α) :=
  pairs.foldl (fun table pair => insertEntry pair.1 pair.2 table) []

/-- Each key is below all later ones. -/
def Ascending (entries : List (String × α)) : Prop :=
  entries.Pairwise fun a b => a.1 < b.1

/-- Entering a value adds no other pair. -/
theorem mem_insertEntry {key : String} {value : α} {entries : List (String × α)}
    {pair : String × α} (h : pair ∈ insertEntry key value entries) :
    pair = (key, value) ∨ pair ∈ entries := by
  induction entries with
  | nil => simpa [insertEntry] using h
  | cons head rest ih =>
    obtain ⟨k, v⟩ := head
    simp only [insertEntry] at h
    split at h
    · simp only [List.mem_cons] at h ⊢
      exact h.imp_right .inr
    · split at h
      · simpa using h
      · simp only [List.mem_cons] at h ⊢
        rcases h with h | h
        · exact .inr (.inl h)
        · exact (ih h).imp_right .inr

/-- Entering a value keeps the keys in ascending order. -/
theorem ascending_insertEntry {entries : List (String × α)} (h : Ascending entries)
    (key : String) (value : α) : Ascending (insertEntry key value entries) := by
  induction entries with
  | nil => simp [insertEntry, Ascending]
  | cons head rest ih =>
    obtain ⟨k, v⟩ := head
    obtain ⟨below, ascending⟩ := List.pairwise_cons.1 h
    simp only [insertEntry]
    split
    case isTrue eq =>
      subst eq
      exact List.pairwise_cons.2 ⟨below, ascending⟩
    case isFalse ne =>
      split
      case isTrue lt =>
        refine List.pairwise_cons.2 ⟨fun pair hp => ?_, h⟩
        rcases List.mem_cons.1 hp with rfl | hp
        · exact lt
        · exact String.lt_trans lt (below _ hp)
      case isFalse nlt =>
        refine List.pairwise_cons.2 ⟨fun pair hp => ?_, ih ascending⟩
        rcases mem_insertEntry hp with rfl | hp
        · exact Std.lt_of_le_of_ne (Std.not_lt.1 nlt) ne
        · exact below _ hp

/-- The value just entered is found. -/
theorem lookup_insertEntry_self (key : String) (value : α) (entries : List (String × α)) :
    (insertEntry key value entries).lookup key = some value := by
  induction entries with
  | nil => exact List.lookup_cons_self
  | cons head rest ih =>
    obtain ⟨k, v⟩ := head
    simp only [insertEntry]
    split
    · exact List.lookup_cons_self
    · split
      · exact List.lookup_cons_self
      · rename_i ne _
        have miss : (key == k) = false := by simpa using Ne.symm ne
        rw [List.lookup_cons, miss]
        exact ih

/-- Under the other keys the values stay as they were. -/
theorem lookup_insertEntry_of_ne {key other : String} (ne : other ≠ key) (value : α)
    (entries : List (String × α)) :
    (insertEntry key value entries).lookup other = entries.lookup other := by
  have miss : (other == key) = false := by simpa using ne
  induction entries with
  | nil => simp [insertEntry, List.lookup_cons, miss]
  | cons head rest ih =>
    obtain ⟨k, v⟩ := head
    simp only [insertEntry]
    split
    · rename_i eq
      subst eq
      simp [List.lookup_cons, miss]
    · split
      · simp [List.lookup_cons, miss]
      · simp only [List.lookup_cons, ih]

/-! ### Tables -/

/-- A table: its entries in ascending key order. -/
structure Keyed (α : Type) where
  entries : List (String × α)
  ascending : Ascending entries

namespace Keyed

/-- The table without entries. -/
def empty : Keyed α := ⟨[], List.Pairwise.nil⟩

/-- A table starts out empty. -/
instance : Inhabited (Keyed α) := ⟨empty⟩

/-- The value under a key. -/
def get? (table : Keyed α) (key : String) : Option α :=
  table.entries.lookup key

/-- Enters a value under a key, in place of an older one. -/
def insert (table : Keyed α) (key : String) (value : α) : Keyed α :=
  ⟨insertEntry key value table.entries, ascending_insertEntry table.ascending key value⟩

/-- Nothing is found in the table without entries. -/
@[simp] theorem get?_empty (key : String) : (empty : Keyed α).get? key = none := rfl

/-- The value just entered is found. -/
@[simp] theorem get?_insert_self (table : Keyed α) (key : String) (value : α) :
    (table.insert key value).get? key = some value :=
  lookup_insertEntry_self key value table.entries

/-- Under the other keys the values stay as they were. -/
theorem get?_insert_of_ne (table : Keyed α) {key other : String} (ne : other ≠ key)
    (value : α) : (table.insert key value).get? other = table.get? other :=
  lookup_insertEntry_of_ne ne value table.entries

end Keyed

end ServiceTypes
