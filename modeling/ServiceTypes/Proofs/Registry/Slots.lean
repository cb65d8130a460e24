import ServiceTypes.Proofs.Keyed
import ServiceTypes.Registry

/-!
# `ServiceTypes.Proofs.Registry.Slots`: keys and slots of a registry

A registry keeps its structs in slots and its keys in an index. `Indexed`
is what holds them together: the slot of each key lies in the arena, and
no two keys share one. The theorems:

* `idOf?_enter`, `slot?_enter`, `find?_enter`, `size_enter`: what entering
  a key does to every handle, every slot, every key and the size.
* `find?_modify`: changing the struct in the slot of a key changes what is
  found under that key, and nothing else.
* `Indexed.enter` / `Indexed.modify`: both keep the invariant.
* `toList_eq_entries` / `handOver_eq_toList`: an indexed registry lists
  exactly what is found under its keys, and gives away what it lists.
-/

set_option autoImplicit false

namespace ServiceTypes

/-- A handle is its number. -/
theorem SlotId.ext {a b : SlotId} (h : a.number = b.number) : a = b := by
  cases a
  cases b
  exact congrArg SlotId.mk h

namespace Registry

open Model (Field Struct qualifiedKey)

/-! ### Single slots -/

/-- A change in place shows in its own slot only. -/
theorem slot?_modify (r : Registry) (id other : SlotId) (change : Struct → Struct) :
    (r.modify id change).slot? other
      = if other = id then (r.slot? id).map change else r.slot? other := by
  show (r.slots.modify id.number change)[other.number]? = _
  rw [Array.getElem?_modify]
  by_cases h : other = id
  · rw [if_pos h, if_pos (by rw [h])]
    rw [h]
    rfl
  · have hne : id.number ≠ other.number := fun heq => h (SlotId.ext heq.symm)
    rw [if_neg h, if_neg hne]
    rfl

/-- A change in place keeps the number of slots. -/
theorem size_modify (r : Registry) (id : SlotId) (change : Struct → Struct) :
    (r.modify id change).size = r.size :=
  Array.size_modify

/-- The slots are those whose number is below the size. -/
theorem slot?_isSome_iff (r : Registry) (id : SlotId) :
    (r.slot? id).isSome ↔ id.number < r.size := by
  show (r.slots[id.number]?).isSome ↔ id.number < r.slots.size
  simp

/-- Behind the arena there is nothing to change. -/
theorem modify_of_size_le {r : Registry} {id : SlotId} (h : r.size ≤ id.number)
    (change : Struct → Struct) : r.modify id change = r := by
  show { r with slots := r.slots.modify id.number change } = r
  have hslots : r.slots.modify id.number change = r.slots := by
    apply Array.ext_getElem?
    intro i
    rw [Array.getElem?_modify]
    split
    case isTrue hi =>
      have hnone : r.slots[id.number]? = none := Array.getElem?_eq_none h
      rw [← hi, hnone]
      rfl
    case isFalse => rfl
  rw [hslots]

/-- Entering a known key clears its slot. -/
theorem enter_of_idOf?_eq_some {r : Registry} {package name : String} {id : SlotId}
    (h : r.idOf? (qualifiedKey package name) = some id) :
    r.enter package name = (id, r.modify id fun _ => Struct.empty package name) := by
  unfold idOf? at h
  simp only [enter, h]

/-- Entering a new key allocates the next slot. -/
theorem enter_of_idOf?_eq_none {r : Registry} {package name : String}
    (h : r.idOf? (qualifiedKey package name) = none) :
    r.enter package name
      = (⟨r.size⟩,
          { slots := r.slots.push (Struct.empty package name)
            index := r.index.insert (qualifiedKey package name) ⟨r.size⟩ }) := by
  unfold idOf? at h
  simp only [enter, h]
  rfl

/-- The entered key has the slot that `enter` returns, and the others keep theirs. -/
theorem idOf?_enter (r : Registry) (package name key : String) :
    (r.enter package name).2.idOf? key
      = if key = qualifiedKey package name then some (r.enter package name).1
        else r.idOf? key := by
  cases h : r.idOf? (qualifiedKey package name) with
  | some id =>
    rw [enter_of_idOf?_eq_some h]
    by_cases hk : key = qualifiedKey package name
    · rw [if_pos hk, hk]
      exact h
    · rw [if_neg hk]
      rfl
  | none =>
    rw [enter_of_idOf?_eq_none h]
    exact r.index.get?_insert (qualifiedKey package name) key ⟨r.size⟩

/-- A new key makes the arena longer by one slot. -/
theorem size_enter (r : Registry) (package name : String) :
    (r.enter package name).2.size
      = if r.contains (qualifiedKey package name) then r.size else r.size + 1 := by
  unfold contains
  cases h : r.idOf? (qualifiedKey package name) with
  | some id =>
    rw [enter_of_idOf?_eq_some h]
    exact r.size_modify id _
  | none =>
    rw [enter_of_idOf?_eq_none h]
    exact Array.size_push _

/-! ### The invariant -/

/-- The slot of each key lies in the arena, and it is the slot of no other key. -/
structure Indexed (r : Registry) : Prop where
  inArena : ∀ {key : String} {id : SlotId}, r.idOf? key = some id → id.number < r.size
  ownSlot : ∀ {key other : String} {id : SlotId},
    r.idOf? key = some id → r.idOf? other = some id → key = other

/-- An empty registry is indexed. -/
theorem indexed_empty : Indexed Registry.empty where
  inArena h := by cases h
  ownSlot h := by cases h

/-- Changes in place do not touch the index. -/
theorem Indexed.modify {r : Registry} (h : Indexed r) (id : SlotId)
    (change : Struct → Struct) : Indexed (r.modify id change) where
  inArena hkey := by
    rw [size_modify]
    exact h.inArena hkey
  ownSlot := h.ownSlot

/-- The returned slot lies in the arena. -/
theorem Indexed.fst_enter_lt {r : Registry} (h : Indexed r) (package name : String) :
    (r.enter package name).1.number < (r.enter package name).2.size := by
  rw [size_enter]
  unfold contains
  cases hid : r.idOf? (qualifiedKey package name) with
  | some id =>
    rw [enter_of_idOf?_eq_some hid]
    exact h.inArena hid
  | none =>
    rw [enter_of_idOf?_eq_none hid]
    exact Nat.lt_succ_self r.size

/-- No other key has the returned slot. -/
theorem Indexed.idOf?_ne_fst_enter {r : Registry} (h : Indexed r) {package name key : String}
    (hkey : key ≠ qualifiedKey package name) :
    r.idOf? key ≠ some (r.enter package name).1 := by
  intro hid
  cases hq : r.idOf? (qualifiedKey package name) with
  | some id =>
    rw [enter_of_idOf?_eq_some hq] at hid
    exact hkey (h.ownSlot hid hq)
  | none =>
    rw [enter_of_idOf?_eq_none hq] at hid
    exact absurd (h.inArena hid) (Nat.lt_irrefl r.size)

/-- No slot is lost when a struct is entered. -/
theorem size_le_size_enter (r : Registry) (package name : String) :
    r.size ≤ (r.enter package name).2.size := by
  rw [size_enter]
  split <;> omega

/-- A registry stays indexed when a struct is entered. -/
theorem Indexed.enter {r : Registry} (h : Indexed r) (package name : String) :
    Indexed (r.enter package name).2 where
  inArena {key id} hid := by
    rw [idOf?_enter] at hid
    split at hid
    · rw [← Option.some.inj hid]
      exact h.fst_enter_lt package name
    · exact Nat.lt_of_lt_of_le (h.inArena hid) (r.size_le_size_enter package name)
  ownSlot {key other id} hid hother := by
    rw [idOf?_enter] at hid hother
    split at hid <;> split at hother
    case isTrue.isTrue hk ho => rw [hk, ho]
    case isTrue.isFalse hk ho =>
      exact absurd (hother.trans hid.symm) (h.idOf?_ne_fst_enter ho)
    case isFalse.isTrue hk ho =>
      exact absurd (hid.trans hother.symm) (h.idOf?_ne_fst_enter hk)
    case isFalse.isFalse => exact h.ownSlot hid hother

/-! ### What is found under keys -/

/-- The returned slot holds the empty struct, and the others keep theirs. -/
theorem Indexed.slot?_enter {r : Registry} (h : Indexed r) (package name : String)
    (id : SlotId) :
    (r.enter package name).2.slot? id
      = if id = (r.enter package name).1 then some (Struct.empty package name)
        else r.slot? id := by
  cases hid : r.idOf? (qualifiedKey package name) with
  | some old =>
    -- A known key has its slot emptied in place.
    obtain ⟨s, hs⟩ := Option.isSome_iff_exists.mp ((r.slot?_isSome_iff old).mpr (h.inArena hid))
    rw [enter_of_idOf?_eq_some hid, slot?_modify, hs]
    rfl
  | none =>
    -- A new key gets the slot behind all others.
    rw [enter_of_idOf?_eq_none hid]
    show (r.slots.push (Struct.empty package name))[id.number]? = _
    rw [Array.getElem?_push]
    have hnumber : id.number = r.slots.size ↔ id = ⟨r.size⟩ :=
      ⟨SlotId.ext, congrArg SlotId.number⟩
    simp only [hnumber]
    rfl

/-- An entered key finds the empty struct, and the other keys find what they found before. -/
theorem Indexed.find?_enter {r : Registry} (h : Indexed r) (package name key : String) :
    (r.enter package name).2.find? key
      = if key = qualifiedKey package name then some (Struct.empty package name)
        else r.find? key := by
  unfold find?
  rw [idOf?_enter]
  by_cases hk : key = qualifiedKey package name
  · rw [if_pos hk, if_pos hk, Option.bind_some, h.slot?_enter, if_pos rfl]
  · rw [if_neg hk, if_neg hk]
    cases hid : r.idOf? key with
    | none => rfl
    | some id =>
      have hne : id ≠ (r.enter package name).1 := by
        rintro rfl
        exact h.idOf?_ne_fst_enter hk hid
      rw [Option.bind_some, Option.bind_some, h.slot?_enter, if_neg hne]

/-- A change in the slot of a key is found under this key only. -/
theorem Indexed.find?_modify {r : Registry} (h : Indexed r) {key : String} {id : SlotId}
    (hid : r.idOf? key = some id) (other : String) (change : Struct → Struct) :
    (r.modify id change).find? other
      = if other = key then (r.find? key).map change else r.find? other := by
  show (r.idOf? other).bind (r.modify id change).slot? = _
  by_cases hk : other = key
  · rw [if_pos hk, hk]
    unfold find?
    rw [hid, Option.bind_some, Option.bind_some, slot?_modify, if_pos rfl]
  · rw [if_neg hk]
    unfold find?
    cases hother : r.idOf? other with
    | none => rfl
    | some j =>
      -- Another key has a slot of its own.
      have hne : j ≠ id := by
        rintro rfl
        exact hk (h.ownSlot hother hid)
      rw [Option.bind_some, Option.bind_some, slot?_modify, if_neg hne]

/-! ### Listings -/

/-- A struct is listed under a key exactly if it is found under it. -/
theorem mem_toList_iff (r : Registry) (key : String) (s : Struct) :
    (key, s) ∈ r.toList ↔ r.find? key = some s := by
  unfold toList find?
  rw [List.mem_filterMap, Option.bind_eq_some_iff]
  constructor
  · rintro ⟨⟨k, id⟩, hmem, hslot⟩
    obtain ⟨t, ht, heq⟩ := Option.map_eq_some_iff.mp hslot
    obtain ⟨rfl, rfl⟩ := Prod.mk.inj heq
    exact ⟨id, (r.index.mem_entries_iff k id).mp hmem, ht⟩
  · rintro ⟨id, hid, hslot⟩
    refine ⟨(key, id), (r.index.mem_entries_iff key id).mpr hid, ?_⟩
    show (r.slot? id).map (fun s => (key, s)) = some (key, s)
    rw [hslot]
    rfl

/-- The structs are listed in ascending order of their keys. -/
theorem ascending_toList (r : Registry) : Ascending r.toList := by
  refine List.Pairwise.filterMap _ ?_ r.index.ascending
  intro a b hab x hx y hy
  obtain ⟨s, -, rfl⟩ := Option.map_eq_some_iff.mp hx
  obtain ⟨t, -, rfl⟩ := Option.map_eq_some_iff.mp hy
  exact hab

/-- A registry lists a table as soon as it finds what the table holds. -/
theorem toList_eq_entries {r : Registry} {table : Keyed Struct}
    (h : ∀ key, r.find? key = table.get? key) : r.toList = table.entries := by
  refine r.ascending_toList.ext table.ascending fun ⟨key, s⟩ => ?_
  rw [mem_toList_iff, h, table.mem_entries_iff]

/-- Slots that are asked for once are handed out as they are. -/
theorem handOut_eq_filterMap (slots : Array (Option Struct))
    (entries : List (String × SlotId)) (h : (entries.map Prod.snd).Nodup) :
    handOut slots entries
      = entries.filterMap fun pair =>
          slots[pair.2.number]?.join.map fun s => (pair.1, s) := by
  induction entries generalizing slots with
  | nil => rfl
  | cons head rest ih =>
    obtain ⟨key, id⟩ := head
    rw [List.map_cons, List.nodup_cons] at h
    obtain ⟨hid, hrest⟩ := h
    simp only [handOut, List.filterMap_cons]
    cases slots[id.number]?.join with
    | none => exact ih slots hrest
    | some s =>
      simp only [Option.map_some]
      rw [ih _ hrest]
      -- The slot just emptied is not asked for again.
      refine congrArg _ (List.filterMap_congr fun pair hpair => ?_)
      have hne : id.number ≠ pair.2.number := by
        intro heq
        have hsame : pair.2 = id := SlotId.ext heq.symm
        exact hid (List.mem_map.mpr ⟨pair, hpair, hsame⟩)
      rw [Array.getElem?_setIfInBounds_ne hne]

/-- The slots of an indexed registry are pairwise different. -/
theorem Indexed.nodup_slots {r : Registry} (h : Indexed r) :
    (r.index.entries.map Prod.snd).Nodup := by
  refine List.Pairwise.map _ ?_ (List.Pairwise.and_mem.mp r.index.ascending)
  intro a b hab heq
  obtain ⟨ha, hb, hlt⟩ := hab
  have hka := (r.index.mem_entries_iff a.1 a.2).mp ha
  have hkb := (r.index.mem_entries_iff b.1 b.2).mp hb
  rw [← heq] at hkb
  exact absurd hlt (h.ownSlot hka hkb ▸ Std.lt_irrefl)

/-- An indexed registry gives away exactly what it lists. -/
theorem Indexed.handOver_eq_toList {r : Registry} (h : Indexed r) : r.handOver = r.toList := by
  unfold handOver toList
  rw [handOut_eq_filterMap _ _ h.nodup_slots]
  refine List.filterMap_congr fun ⟨key, id⟩ _ => ?_
  rw [Array.getElem?_map]
  show ((r.slot? id).map some).join.map (fun s => (key, s))
    = (r.slot? id).map fun s => (key, s)
  cases r.slot? id <;> rfl

end Registry

end ServiceTypes
