import Mathlib.Data.List.Induction
import ServiceTypes.Proofs.Extraction.Visible
import ServiceTypes.Proofs.Registry.Slots

/-!
# `ServiceTypes.Proofs.Extraction.LastDeclaration`: the last declaration wins

A package may declare a name several times, in several files, each with
imports of its own. The registry then has one slot for the name, in the
place of its first declaration and with the fields of its last one. The
theorems:

* `KeepsLast.register`: one more declaration keeps `KeepsLast`, which says
  what the registry of a list of declarations is.
* `keepsLast_foldl`: so do any number of them.
* `keepsLast_extract`: the registry of a package has a slot for each name
  that a visible declaration has, and it holds the last of them.
-/

set_option autoImplicit false

namespace ServiceTypes

open Model (Field Struct qualifiedKey)
open Source (Package)

/-! ### Names and their last declarations -/

/-- The declared names, each in the place of its first declaration. -/
def declaredNames (ds : List TypeDeclaration) : List String :=
  (ds.map TypeDeclaration.name).eraseDups

/-- The last declaration of a name. -/
def lastDeclaration? (ds : List TypeDeclaration) (name : String) : Option TypeDeclaration :=
  (ds.filter fun d => d.name = name).getLast?

/-- One more declaration adds its name at the end, unless it is there already. -/
theorem declaredNames_concat (ds : List TypeDeclaration) (d : TypeDeclaration) :
    declaredNames (ds ++ [d])
      = if d.name ∈ declaredNames ds then declaredNames ds
        else declaredNames ds ++ [d.name] := by
  unfold declaredNames
  rw [List.map_append, List.eraseDups_append]
  show _ ++ ([d.name].removeAll (ds.map TypeDeclaration.name)).eraseDups = _
  unfold List.removeAll
  by_cases h : d.name ∈ (ds.map TypeDeclaration.name).eraseDups
  · have hmem := List.mem_eraseDups.mp h
    rw [if_pos h, List.filter_cons_of_neg (by simpa using hmem), List.filter_nil]
    exact List.append_nil _
  · have hmem : d.name ∉ ds.map TypeDeclaration.name := fun hd => h (List.mem_eraseDups.mpr hd)
    rw [if_neg h, List.filter_cons_of_pos (by simpa using hmem), List.filter_nil]
    rfl

/-- No name is listed twice, however often it is declared. -/
theorem nodup_declaredNames (ds : List TypeDeclaration) : (declaredNames ds).Nodup := by
  induction ds using List.reverseRecOn with
  | nil => exact List.nodup_nil
  | append_singleton ds d ih =>
    rw [declaredNames_concat]
    by_cases h : d.name ∈ declaredNames ds
    · rw [if_pos h]
      exact ih
    · rw [if_neg h, ← List.concat_eq_append]
      exact List.Nodup.concat h ih

/-- One more declaration is the last one of its own name and of no other. -/
theorem lastDeclaration?_concat (ds : List TypeDeclaration) (d : TypeDeclaration)
    (name : String) :
    lastDeclaration? (ds ++ [d]) name
      = if name = d.name then some d else lastDeclaration? ds name := by
  unfold lastDeclaration?
  rw [List.filter_append]
  by_cases h : d.name = name
  · rw [if_pos h.symm, List.filter_cons_of_pos (by simpa using h), List.filter_nil,
      List.getLast?_concat]
  · rw [if_neg fun heq => h heq.symm, List.filter_cons_of_neg (by simpa using h),
      List.filter_nil, List.append_nil]

/-- A declared name keeps its place. -/
theorem declaredNames_concat_of_getElem? {ds : List TypeDeclaration} {i : Nat} {name : String}
    (h : (declaredNames ds)[i]? = some name) (d : TypeDeclaration) :
    (declaredNames (ds ++ [d]))[i]? = some name := by
  rw [declaredNames_concat]
  split
  · exact h
  · rw [List.getElem?_append_left (List.getElem?_eq_some_iff.mp h).1]
    exact h

/-- A name of the longer list is the new one or an old one in its old place. -/
theorem getElem?_declaredNames_of_concat {ds : List TypeDeclaration} {d : TypeDeclaration}
    {i : Nat} {name : String} (h : (declaredNames (ds ++ [d]))[i]? = some name)
    (hne : name ≠ d.name) : (declaredNames ds)[i]? = some name := by
  rw [declaredNames_concat] at h
  split at h
  · exact h
  · rw [List.getElem?_append] at h
    split at h
    · exact h
    · exact absurd (List.mem_singleton.mp (List.mem_of_getElem? h)) hne

/-- A name has one place. -/
theorem declaredNames_inj {ds : List TypeDeclaration} {i j : Nat} {name : String}
    (hi : (declaredNames ds)[i]? = some name) (hj : (declaredNames ds)[j]? = some name) :
    i = j := by
  have hlt := (List.getElem?_eq_some_iff.mp hi).1
  exact (List.getElem?_inj hlt (nodup_declaredNames ds)).mp (hi.trans hj.symm)

/-! ### One declaration -/

/-- Within a package, names have different keys. -/
theorem qualifiedKey_inj {path a b : String} (h : qualifiedKey path a = qualifiedKey path b) :
    a = b := by
  unfold qualifiedKey at h
  exact String.append_right_inj _ |>.mp h

section Register

variable {options : Options} {path : String} {r : Registry} {d : TypeDeclaration}

/-- Registering a declaration gives its key a slot and leaves the other keys theirs. -/
theorem idOf?_registerVisible (h : options.admits d.name) (key : String) :
    (registerVisible options path r d).idOf? key
      = if key = qualifiedKey path d.name then some (r.enter path d.name).1
        else r.idOf? key := by
  rw [registerVisible_eq path r h, ← Registry.idOf?_enter]
  split <;> rfl

/-- Filling a slot does not change how many there are. -/
theorem size_registerVisible (h : options.admits d.name) :
    (registerVisible options path r d).size = (r.enter path d.name).2.size := by
  rw [registerVisible_eq path r h]
  split
  · exact Registry.size_modify _ _ _
  · rfl

/-- The slot of the name holds the declaration, whatever it held before. -/
theorem slot?_registerVisible (hr : r.Indexed) (h : options.admits d.name) (id : SlotId) :
    (registerVisible options path r d).slot? id
      = if id = (r.enter path d.name).1 then some ⟨d.name, path, d.fields options path⟩
        else r.slot? id := by
  rw [registerVisible_eq path r h]
  obtain ⟨name, underlying, imports⟩ := d
  cases underlying with
  | struct lines =>
    -- Entering has cleared the slot, so nothing of an earlier struct is left in it.
    show ((r.enter path name).2.modify (r.enter path name).1 _).slot? id = _
    rw [Registry.slot?_modify, hr.slot?_enter, hr.slot?_enter, if_pos rfl]
    split <;> rfl
  | _ => exact hr.slot?_enter path name id

end Register

/-! ### The registry of a list of declarations -/

/-- A registry of declarations: a slot for each declared name, in the order of the first
declarations and under the key of the name, with the last declaration of the name. -/
structure KeepsLast (options : Options) (path : String) (ds : List TypeDeclaration)
    (r : Registry) : Prop where
  size : r.size = (declaredNames ds).length
  slot : ∀ {i : Nat} {name : String}, (declaredNames ds)[i]? = some name →
    ∃ d, lastDeclaration? ds name = some d ∧
      r.slot? ⟨i⟩ = some ⟨name, path, d.fields options path⟩
  index : ∀ (key : String) (id : SlotId), r.idOf? key = some id ↔
    ∃ name, (declaredNames ds)[id.number]? = some name ∧ qualifiedKey path name = key

namespace KeepsLast

variable {options : Options} {path : String} {ds : List TypeDeclaration} {r : Registry}

/-- The empty registry keeps the last declarations of no declarations. -/
theorem empty (options : Options) (path : String) :
    KeepsLast options path [] Registry.empty where
  size := rfl
  slot h := by cases h
  index key id := by
    constructor
    · intro h
      cases h
    · rintro ⟨name, h, -⟩
      cases h

/-- A registry that keeps last declarations has a slot of its own for each key. -/
theorem indexed (hr : KeepsLast options path ds r) : r.Indexed where
  inArena hid := by
    obtain ⟨name, hname, -⟩ := (hr.index _ _).mp hid
    rw [hr.size]
    exact (List.getElem?_eq_some_iff.mp hname).1
  ownSlot hid hother := by
    obtain ⟨name, hname, hkey⟩ := (hr.index _ _).mp hid
    obtain ⟨other, hotherName, hotherKey⟩ := (hr.index _ _).mp hother
    have hsame : name = other := Option.some.inj (hname.symm.trans hotherName)
    rw [← hkey, ← hotherKey, hsame]

/-- The declared names are the ones that have a slot. -/
theorem contains_iff (hr : KeepsLast options path ds r) (name : String) :
    r.contains (qualifiedKey path name) ↔ name ∈ declaredNames ds := by
  unfold Registry.contains
  rw [Option.isSome_iff_exists, List.mem_iff_getElem?]
  constructor
  · rintro ⟨id, hid⟩
    obtain ⟨other, hother, hkey⟩ := (hr.index _ id).mp hid
    rw [qualifiedKey_inj hkey] at hother
    exact ⟨id.number, hother⟩
  · rintro ⟨i, hi⟩
    exact ⟨⟨i⟩, (hr.index _ ⟨i⟩).mpr ⟨name, hi, rfl⟩⟩

/-- The slot that a declaration gets stands where its name does. -/
theorem getElem?_fst_enter (hr : KeepsLast options path ds r) (d : TypeDeclaration) :
    (declaredNames (ds ++ [d]))[(r.enter path d.name).1.number]? = some d.name := by
  cases hid : r.idOf? (qualifiedKey path d.name) with
  | some id =>
    -- The slot is the one of the first declaration of the name.
    obtain ⟨name, hname, hkey⟩ := (hr.index _ id).mp hid
    rw [qualifiedKey_inj hkey] at hname
    rw [Registry.enter_of_idOf?_eq_some hid]
    exact declaredNames_concat_of_getElem? hname d
  | none =>
    -- The name is new, so it stands behind the others, and so does the slot.
    have hnew : d.name ∉ declaredNames ds := by
      rw [← hr.contains_iff]
      unfold Registry.contains
      rw [hid]
      exact Bool.false_ne_true
    rw [Registry.enter_of_idOf?_eq_none hid, declaredNames_concat, if_neg hnew]
    show (declaredNames ds ++ [d.name])[r.size]? = some d.name
    rw [hr.size]
    exact List.getElem?_concat_length

/-- One more declaration, of a new name or of an old one. -/
theorem register (hr : KeepsLast options path ds r) {d : TypeDeclaration}
    (hd : options.admits d.name) :
    KeepsLast options path (ds ++ [d]) (registerVisible options path r d) where
  size := by
    rw [size_registerVisible hd, Registry.size_enter, declaredNames_concat]
    by_cases h : d.name ∈ declaredNames ds
    · rw [if_pos h, if_pos ((hr.contains_iff d.name).mpr h)]
      exact hr.size
    · rw [if_neg h, if_neg (mt (hr.contains_iff d.name).mp h), List.length_append, hr.size]
      rfl
  slot {i name} hi := by
    have hplace := hr.getElem?_fst_enter d
    rw [lastDeclaration?_concat, slot?_registerVisible hr.indexed hd]
    by_cases hname : name = d.name
    · subst hname
      have hslot : (⟨i⟩ : SlotId) = (r.enter path d.name).1 :=
        SlotId.ext (declaredNames_inj hi hplace)
      rw [if_pos rfl, if_pos hslot]
      exact ⟨d, rfl, rfl⟩
    · -- another name keeps its slot, which is not the one of the declaration
      have hslot : (⟨i⟩ : SlotId) ≠ (r.enter path d.name).1 := by
        intro heq
        rw [← heq, hi] at hplace
        exact hname (Option.some.inj hplace)
      rw [if_neg hname, if_neg hslot]
      exact hr.slot (getElem?_declaredNames_of_concat hi hname)
  index key id := by
    have hplace := hr.getElem?_fst_enter d
    rw [idOf?_registerVisible hd]
    by_cases hkey : key = qualifiedKey path d.name
    · rw [if_pos hkey]
      constructor
      · intro hid
        rw [← Option.some.inj hid]
        exact ⟨d.name, hplace, hkey.symm⟩
      · rintro ⟨name, hname, hk⟩
        rw [qualifiedKey_inj (hk.trans hkey)] at hname
        exact congrArg some (SlotId.ext (declaredNames_inj hplace hname))
    · rw [if_neg hkey, hr.index]
      constructor
      · rintro ⟨name, hname, hk⟩
        exact ⟨name, declaredNames_concat_of_getElem? hname d, hk⟩
      · rintro ⟨name, hname, hk⟩
        have hne : name ≠ d.name := by
          rintro rfl
          exact hkey hk.symm
        exact ⟨name, getElem?_declaredNames_of_concat hname hne, hk⟩

end KeepsLast

/-- A list of declarations, after the ones that came before. -/
theorem keepsLast_foldl {options : Options} {path : String} {before : List TypeDeclaration}
    {r : Registry} (hr : KeepsLast options path before r) {ds : List TypeDeclaration}
    (hds : ∀ d ∈ ds, options.admits d.name) :
    KeepsLast options path (before ++ ds) (ds.foldl (registerVisible options path) r) := by
  -- The registry that a step leaves is one of all declarations up to it.
  induction ds generalizing before r with
  | nil =>
    rw [List.append_nil]
    exact hr
  | cons d ds ih =>
    have hstep := hr.register (hds d List.mem_cons_self)
    have hrest := ih hstep fun e he => hds e (List.mem_cons_of_mem d he)
    rw [List.append_assoc] at hrest
    exact hrest

/-! ### Packages -/

/-- The visible declarations pass the visibility option. -/
theorem admits_of_mem_visible {options : Options} {package : Package} {d : TypeDeclaration}
    (h : d ∈ package.visible options) : options.admits d.name := by
  obtain ⟨file, -, hfile⟩ := List.mem_flatMap.mp h
  obtain ⟨declaration, -, hd⟩ := List.mem_filterMap.mp hfile
  cases declaration with
  | type name underlying =>
    rw [Source.Declaration.visible?] at hd
    split at hd
    case isTrue hadmits =>
      rw [← Option.some.inj hd]
      exact hadmits
    case isFalse => cases hd
  | func name => cases hd
  | value names => cases hd

/-- The registry of a package has exactly one slot for each name that a visible declaration
has, in the order of first declarations. The slot holds the last declaration of the name,
with the fields that it has under the imports of its own file. -/
theorem keepsLast_extract (package : Package) (path : String) (options : Options) :
    KeepsLast options path (package.visible options) (package.extract path options).result := by
  rw [result_extract]
  exact keepsLast_foldl (KeepsLast.empty options path) fun d hd => admits_of_mem_visible hd

/-- A later file takes the fields of a struct away. -/
example :
    let first : Source.File :=
      ⟨"a.go", [], [.type "A" (.struct [⟨["X"], .ident "int", none⟩])]⟩
    let second : Source.File := ⟨"b.go", [], [.type "A" .chan]⟩
    ((Package.mk "p" [first, second]).extract "p" {}).result.find? "p.A"
      = some ⟨"A", "p", []⟩ := by
  rfl

end ServiceTypes
