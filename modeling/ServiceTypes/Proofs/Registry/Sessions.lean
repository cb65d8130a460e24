import ServiceTypes.Proofs.Registry.Slots
import ServiceTypes.Proofs.Text.Octets

/-!
# `ServiceTypes.Proofs.Registry.Sessions`: a registry is an ordered map

A session is a registry in use: it starts empty and takes changes one by
one, and whoever uses it keeps the handles it returned. Beside it runs a
plain table from keys to structs. Entering a key puts an empty struct
into the table, and a change through a handle changes the entry of the
key that the handle was first returned for. A handle that was never
returned changes nothing.

`Mirrors` is the invariant of the two: the registry is indexed, both find
the same under every key, and the handles returned so far are the slots
of the arena. `Mirrors.step` keeps it through one change, and
`mirrors_afterChanges` through all.

`refinesMap_afterChanges` is the main statement: after any changes the
registry answers as the table does (`RefinesMap`). Look-ups and the size
agree, handles stay good, and every listing holds exactly the entries of
the table, in the order of the octets of the keys. A change in place may
rename a struct. The index does not see it, and the key stays.
-/

set_option autoImplicit false

namespace ServiceTypes.Registry

open Model (Field Struct qualifiedKey)

/-! ### Sessions and their tables -/

/-- A change of a registry. -/
inductive Change where
  /-- Enters a key with an empty struct. -/
  | enter (package name : String)
  /-- Replaces the fields of the struct behind a handle. -/
  | fill (id : SlotId) (fields : List Field)
  /-- Changes the struct behind a handle in any way. -/
  | edit (id : SlotId) (change : Struct → Struct)

/-- A registry in use, and the handles it returned so far with the keys they were
returned for, earliest first. -/
structure Session where
  registry : Registry
  returned : List (SlotId × String)

namespace Session

/-- The session before all changes. -/
def start : Session := ⟨Registry.empty, []⟩

/-- One change of the registry. -/
def step (s : Session) : Change → Session
  | .enter package name =>
    let entered := s.registry.enter package name
    ⟨entered.2, s.returned ++ [(entered.1, qualifiedKey package name)]⟩
  | .fill id fields => { s with registry := s.registry.fill id fields }
  | .edit id change => { s with registry := s.registry.modify id change }

/-- Changes the entry of the key that a handle was first returned for. -/
def editEntry (s : Session) (table : Keyed Struct) (id : SlotId)
    (change : Struct → Struct) : Keyed Struct :=
  match s.returned.lookup id with
  | some key => table.modify key change
  | none => table

/-- The same change of a table. -/
def stepTable (s : Session) (table : Keyed Struct) : Change → Keyed Struct
  | .enter package name =>
    table.insert (qualifiedKey package name) (Struct.empty package name)
  | .fill id fields => s.editEntry table id fun x => { x with fields }
  | .edit id change => s.editEntry table id change

end Session

/-- A session and its table after changes, from the empty registry and the empty table
on. -/
def afterChanges (changes : List Change) : Session × Keyed Struct :=
  changes.foldl (fun (s, table) change => (s.step change, s.stepTable table change))
    (Session.start, Keyed.empty)

/-! ### The invariant -/

/-- A session and its table go together. -/
structure Mirrors (s : Session) (table : Keyed Struct) : Prop where
  indexed : Indexed s.registry
  found : ∀ key, s.registry.find? key = table.get? key
  size : s.registry.size = table.entries.length
  kept : ∀ {id key}, (id, key) ∈ s.returned → s.registry.idOf? key = some id
  covered : ∀ {id : SlotId}, id.number < s.registry.size → ∃ key, (id, key) ∈ s.returned
  bounded : s.registry.size ≤ s.returned.length

/-- Before the first change both sides are empty. -/
theorem mirrors_start : Mirrors Session.start Keyed.empty where
  indexed := indexed_empty
  found _ := rfl
  size := rfl
  kept h := by cases h
  covered h := absurd h (Nat.not_lt_zero _)
  bounded := Nat.le_refl _

/-- An indexed registry finds a struct under each of its keys. -/
theorem Indexed.contains_eq {r : Registry} (h : Indexed r) (key : String) :
    r.contains key = (r.find? key).isSome := by
  unfold contains find?
  cases hid : r.idOf? key with
  | none => rfl
  | some id => exact ((r.slot?_isSome_iff id).mpr (h.inArena hid)).symm

/-- A key that was entered before gets the handle it has. -/
theorem fst_enter_of_idOf? {r : Registry} {package name : String} {id : SlotId}
    (h : r.idOf? (qualifiedKey package name) = some id) : (r.enter package name).1 = id := by
  rw [enter_of_idOf?_eq_some h]

/-- Entering a key keeps session and table together. -/
theorem Mirrors.enter {s : Session} {table : Keyed Struct} (h : Mirrors s table)
    (package name : String) :
    Mirrors (s.step (.enter package name)) (s.stepTable table (.enter package name)) where
  indexed := h.indexed.enter package name
  found key := by
    show (s.registry.enter package name).2.find? key = (table.insert _ _).get? key
    rw [h.indexed.find?_enter, table.get?_insert, h.found]
  size := by
    show (s.registry.enter package name).2.size = (table.insert _ _).entries.length
    rw [size_enter, table.length_insert, h.indexed.contains_eq, h.found, h.size]
  kept {id key} hmem := by
    show (s.registry.enter package name).2.idOf? key = some id
    rw [idOf?_enter]
    rcases List.mem_append.mp hmem with hold | hnew
    · split
      case isTrue hk => rw [fst_enter_of_idOf? (hk ▸ h.kept hold)]
      case isFalse => exact h.kept hold
    · obtain ⟨rfl, rfl⟩ := Prod.mk.inj (List.mem_singleton.mp hnew)
      rw [if_pos rfl]
  covered {id} hid := by
    have hlt : id.number < (s.registry.enter package name).2.size := hid
    by_cases hold : id.number < s.registry.size
    · obtain ⟨key, hkey⟩ := h.covered hold
      exact ⟨key, List.mem_append_left _ hkey⟩
    · -- Only a new key makes the arena longer, and its slot is the one behind the old ones.
      refine ⟨qualifiedKey package name, List.mem_append_right _ (List.mem_singleton.mpr ?_)⟩
      rw [size_enter] at hlt
      unfold contains at hlt
      cases hq : s.registry.idOf? (qualifiedKey package name) with
      | some old =>
        rw [hq] at hlt
        exact absurd hlt hold
      | none =>
        rw [hq] at hlt
        have hnumber : id.number = s.registry.size := by
          have : id.number < s.registry.size + 1 := hlt
          omega
        rw [enter_of_idOf?_eq_none hq]
        exact Prod.ext (SlotId.ext hnumber) rfl
  bounded := by
    show (s.registry.enter package name).2.size ≤ (s.returned ++ [_]).length
    have hold := h.bounded
    rw [size_enter, List.length_append, List.length_singleton]
    split <;> omega

/-- A change through a handle keeps session and table together. -/
theorem Mirrors.edit {s : Session} {table : Keyed Struct} (h : Mirrors s table) (id : SlotId)
    (change : Struct → Struct) :
    Mirrors { s with registry := s.registry.modify id change } (s.editEntry table id change) := by
  unfold Session.editEntry
  cases hlookup : s.returned.lookup id with
  | some key =>
    -- The handle is the slot of the key that it was first returned for.
    have hid : s.registry.idOf? key = some id := by
      obtain ⟨before, after, heq, -⟩ := List.lookup_eq_some_iff.mp hlookup
      exact h.kept (heq ▸ List.mem_append_right _ List.mem_cons_self)
    exact {
      indexed := h.indexed.modify id change
      found := fun other => by
        show (s.registry.modify id change).find? other = (table.modify key change).get? other
        rw [h.indexed.find?_modify hid, table.get?_modify, h.found, h.found]
      size := by
        show (s.registry.modify id change).size = (table.modify key change).entries.length
        rw [size_modify, table.length_modify, h.size]
      kept := h.kept
      covered := fun hlt => h.covered (size_modify s.registry id change ▸ hlt)
      bounded := by
        show (s.registry.modify id change).size ≤ s.returned.length
        rw [size_modify]
        exact h.bounded }
  | none =>
    -- A handle that was never returned lies behind the arena.
    have hout : s.registry.size ≤ id.number := by
      refine Nat.le_of_not_lt fun hlt => ?_
      obtain ⟨key, hkey⟩ := h.covered hlt
      have hmiss := List.lookup_eq_none_iff.mp hlookup _ hkey
      simp at hmiss
    rw [modify_of_size_le hout]
    exact h

/-- One change keeps session and table together. -/
theorem Mirrors.step {s : Session} {table : Keyed Struct} (h : Mirrors s table)
    (change : Change) : Mirrors (s.step change) (s.stepTable table change) := by
  cases change with
  | enter package name => exact h.enter package name
  | fill id fields => exact h.edit id _
  | edit id change => exact h.edit id change

/-- A session and its table go together after all changes. -/
theorem mirrors_afterChanges (changes : List Change) :
    Mirrors (afterChanges changes).1 (afterChanges changes).2 := by
  unfold afterChanges
  suffices hrun : ∀ (p : Session × Keyed Struct), Mirrors p.1 p.2 →
      Mirrors (changes.foldl (fun (s, table) change =>
          (s.step change, s.stepTable table change)) p).1
        (changes.foldl (fun (s, table) change =>
          (s.step change, s.stepTable table change)) p).2 from
    hrun _ mirrors_start
  induction changes with
  | nil => intro p h; exact h
  | cons change rest ih => intro p h; exact ih _ (h.step change)

/-! ### The refinement -/

/-- The registry of a session answers as a table does. -/
structure RefinesMap (s : Session) (table : Keyed Struct) : Prop where
  /-- Under every key the same is found. -/
  found : ∀ key, s.registry.find? key = table.get? key
  /-- The same keys are there. -/
  contains : ∀ key, s.registry.contains key = (table.get? key).isSome
  /-- There are as many slots as entries. -/
  size : s.registry.size = table.entries.length
  /-- A handle that was returned for a key still is the slot of the key, and entering the
  key again returns it again. -/
  stable : ∀ id key, (id, key) ∈ s.returned →
    s.registry.idOf? key = some id ∧
      ∀ package name, qualifiedKey package name = key →
        (s.registry.enter package name).1 = id
  /-- No key points behind the arena. -/
  inArena : ∀ key id, (key, id) ∈ s.registry.index.entries → id.number < s.registry.size
  /-- No two keys share a slot. -/
  ownSlot : (s.registry.index.entries.map Prod.snd).Nodup
  /-- The listing is the table. -/
  listed : s.registry.toList = table.entries
  /-- The written registry is the written table. -/
  written : s.registry.toJson = .object (table.entries.map fun (key, x) => (key, x.toJson))
  /-- What is given away is the table. -/
  givenAway : s.registry.handOver = table.entries
  /-- The entries stand in the order of the octets of their keys. -/
  ordered : table.entries.Pairwise fun a b => Text.utf8 a.1 < Text.utf8 b.1
  /-- Handles stay below the number of keys entered, repetitions counted. -/
  small : ∀ id key, (id, key) ∈ s.returned → id.number < s.returned.length

/-- After any changes, a registry that started empty answers as the table of the same
changes does. -/
theorem refinesMap_afterChanges (changes : List Change) :
    RefinesMap (afterChanges changes).1 (afterChanges changes).2 := by
  -- Every clause is read off the invariant that all changes keep.
  have h := mirrors_afterChanges changes
  have hlist := toList_eq_entries h.found
  exact {
    found := h.found
    contains := fun key => by rw [h.indexed.contains_eq, h.found]
    size := h.size
    stable := fun id key hmem => by
      have hid := h.kept hmem
      exact ⟨hid, fun package name hkey => fst_enter_of_idOf? (hkey ▸ hid)⟩
    inArena := fun key id hmem => h.indexed.inArena ((Keyed.mem_entries_iff _ key id).mp hmem)
    ownSlot := h.indexed.nodup_slots
    listed := hlist
    written := by
      unfold toJson
      rw [hlist]
    givenAway := by rw [h.indexed.handOver_eq_toList, hlist]
    ordered := (afterChanges changes).2.ascending.imp Text.utf8_lt
    small := fun id key hmem =>
      Nat.lt_of_lt_of_le (h.indexed.inArena (h.kept hmem)) h.bounded }

end ServiceTypes.Registry
