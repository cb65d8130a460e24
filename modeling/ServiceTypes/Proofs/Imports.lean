import ServiceTypes.Imports
import ServiceTypes.Proofs.Keyed

/-!
# `ServiceTypes.Proofs.Imports`: look-up in the imports of a file

The table of a file is built by entering its imports one after another. The
theorems:

* `path?_add`: an import gives its path to its own local name and leaves
  every other name as it was.
* `ownPath_ofImports`: imports do not touch the path of the package itself.
* `path?_ofImports` / `path?_of_last`: a name stands for the path of the last import
  with it.
* `path?_explicit_iff`: a name that an import gives itself stands for another
  path only if a later import is guessed to have the same name.
-/

set_option autoImplicit false

namespace ServiceTypes.ImportTable

open Source (Import)

/-- No import declares the empty name, which stands for the package itself. -/
theorem localName?_ne_empty (i : Import) : localName? i ≠ some "" := by
  -- Given names and guessed names go through the same test.
  have guarded : ∀ name : String, (if name.isEmpty then none else some name) ≠ some "" := by
    intro name h
    split at h
    case isTrue => cases h
    case isFalse hne => exact hne (by rw [Option.some.inj h]; rfl)
  intro h
  unfold localName? at h
  split at h
  case h_1 => cases h
  case h_2 => exact guarded _ h
  case h_3 => exact guarded (defaultName i.path) h

/-- An import does not change the path of the package itself. -/
theorem ownPath_add (table : ImportTable) (i : Import) : (table.add i).ownPath = table.ownPath := by
  unfold add
  split <;> rfl

/-- Several imports do not change it either. -/
theorem ownPath_foldl_add (table : ImportTable) (imports : List Import) :
    (imports.foldl add table).ownPath = table.ownPath := by
  induction imports generalizing table with
  | nil => rfl
  | cons i imports ih => rw [List.foldl_cons, ih, ownPath_add]

/-- The path of the package itself is the one that is given. -/
theorem ownPath_ofImports (imports : List Import) (path : String) :
    (ofImports imports path).ownPath = path :=
  ownPath_foldl_add _ imports

/-- An import takes its local name from the imports before it. -/
theorem path?_add (table : ImportTable) (i : Import) (name : String) :
    (table.add i).path? name
      = if localName? i = some name then some i.path else table.path? name := by
  unfold path?
  rw [ownPath_add]
  -- The empty name stands for the package itself and is never entered.
  by_cases hempty : name.isEmpty
  · have hname : localName? i ≠ some name := by
      rw [String.isEmpty_iff.mp hempty]
      exact localName?_ne_empty i
    rw [if_pos hempty, if_neg hname, if_pos hempty]
  · rw [if_neg hempty, if_neg hempty]
    unfold add
    cases h : localName? i with
    | none => rw [if_neg (by simp)]
    | some own =>
      show (table.paths.insert own i.path).get? name = _
      rw [Keyed.get?_insert]
      by_cases hown : name = own
      · rw [if_pos hown, if_pos (by rw [hown])]
      · rw [if_neg hown, if_neg fun heq => hown (Option.some.inj heq).symm]

/-! ### The last import of a name -/

/-- After some more imports a name stands for the path of the last of them that declares it, or for
what it stood for before. -/
theorem path?_foldl_add (table : ImportTable) (imports : List Import) (name : String) :
    (imports.foldl add table).path? name
      = ((imports.filter fun i => localName? i = some name).getLast?.map Import.path).or
          (table.path? name) := by
  induction imports generalizing table with
  | nil => rfl
  | cons i imports ih =>
    rw [List.foldl_cons, ih, path?_add]
    by_cases h : localName? i = some name
    · simp [h, List.getLast?_cons]
    · simp [h]

/-- A name stands for the path of the last import that declares it. -/
theorem path?_ofImports (imports : List Import) (ownPath : String) {name : String}
    (hname : name ≠ "") :
    (ofImports imports ownPath).path? name
      = (imports.filter fun i => localName? i = some name).getLast?.map Import.path := by
  have hempty : (⟨ownPath, Keyed.empty⟩ : ImportTable).path? name = none := by
    simp [path?, hname]
  unfold ofImports
  rw [path?_foldl_add, hempty, Option.or_none]

/-- An import with a local name that no later import declares gives its path to the name. -/
theorem path?_of_last {before after : List Import} {i : Import} {name : String}
    (h : localName? i = some name) (hlast : ∀ j ∈ after, localName? j ≠ some name)
    (ownPath : String) : (ofImports (before ++ i :: after) ownPath).path? name = some i.path := by
  have hname : name ≠ "" := by
    rintro rfl
    exact localName?_ne_empty i h
  have hafter : (after.filter fun j => localName? j = some name) = [] :=
    List.filter_eq_nil_iff.mpr fun j hj => by simpa using hlast j hj
  have hself : decide (localName? i = some name) = true := decide_eq_true h
  rw [path?_ofImports _ _ hname, List.filter_append, List.filter_cons, if_pos hself, hafter,
    List.getLast?_concat, Option.map_some]

/-! ### Given and guessed names -/

/-- The import does not give its local name, and the name is guessed from its path. -/
def isGuessed (name : String) (i : Import) : Bool :=
  i.name = none ∧ defaultName i.path = name

/-- An import has a name that it gives, unless it is blank. -/
theorem localName?_of_explicit {i : Import} {name : String} (h : i.name = some name)
    (hempty : name ≠ "") (hblank : name ≠ "_") : localName? i = some name := by
  simp [localName?, h, hempty]

/-- An import that does not give a name itself has it by a guess or not at all. -/
theorem localName?_eq_some_iff {i : Import} {name : String} (hempty : name ≠ "")
    (hother : i.name ≠ some name) : localName? i = some name ↔ isGuessed name i := by
  obtain ⟨own, path⟩ := i
  cases own with
  | none =>
    -- Without a name of its own the import has the guessed one, unless that is empty.
    have hguess : localName? ⟨none, path⟩
        = if (defaultName path).isEmpty then none else some (defaultName path) := rfl
    simp only [hguess, isGuessed, Option.ite_none_left_eq_some, Option.some.injEq]
    constructor
    · rintro ⟨-, hname⟩
      simp [hname]
    · intro hname
      obtain rfl : defaultName path = name := by simpa using hname
      simpa using hempty
  | some own =>
    -- With a name of its own it has no other, and that one is excluded.
    have hown : own ≠ name := fun heq => hother (congrArg some heq)
    refine iff_of_false ?_ (by simp [isGuessed])
    unfold localName?
    split <;> simp_all

variable {before after : List Import} {i : Import} {name : String}

/-- A name that an import gives itself stands for its path, or for that of the last import
behind it that is guessed to have the name. -/
theorem path?_explicit (h : i.name = some name) (hempty : name ≠ "") (hblank : name ≠ "_")
    (honly : ∀ j ∈ after, j.name ≠ some name) (ownPath : String) :
    (ofImports (before ++ i :: after) ownPath).path? name
      = some ((after.filter (isGuessed name)).getLast?.getD i).path := by
  have hafter : (after.filter fun j => localName? j = some name)
      = after.filter (isGuessed name) := by
    refine List.filter_congr fun j hj => ?_
    rw [Bool.eq_iff_iff, decide_eq_true_iff, localName?_eq_some_iff hempty (honly j hj)]
  have hself : decide (localName? i = some name) = true :=
    decide_eq_true (localName?_of_explicit h hempty hblank)
  rw [path?_ofImports _ _ hempty, List.filter_append, List.filter_cons, if_pos hself, hafter,
    List.getLast?_append_cons, List.getLast?_cons]
  rfl

/-- A name that an import gives itself stands for its path exactly if no import behind it is
guessed to have the name, or if the last such import has the same path. The imports before it do
not count. -/
theorem path?_explicit_iff (h : i.name = some name) (hempty : name ≠ "") (hblank : name ≠ "_")
    (honly : ∀ j ∈ after, j.name ≠ some name) (ownPath : String) :
    (ofImports (before ++ i :: after) ownPath).path? name = some i.path
      ↔ ∀ j ∈ (after.filter (isGuessed name)).getLast?, j.path = i.path := by
  rw [path?_explicit h hempty hblank honly]
  cases (after.filter (isGuessed name)).getLast? with
  | none => simp
  | some j => simp

/-- The name is guessed for another path before the import, and for another one behind it, but for
its own path in the end. -/
theorem path?_explicit_again :
    let before : List Import := [⟨none, "example.com/yaml"⟩]
    let i : Import := ⟨some "yaml", "example.com/yaml/v2"⟩
    let after : List Import :=
      [⟨none, "gopkg.in/yaml.v3"⟩, ⟨some "_", "example.com/yaml"⟩, ⟨none, "example.com/yaml/v2"⟩]
    (i.name = some "yaml" ∧ "yaml" ≠ "" ∧ "yaml" ≠ "_" ∧ ∀ j ∈ after, j.name ≠ some "yaml") ∧
      (ofImports (before ++ i :: after) "example.com/demo").path? "yaml"
        = some "example.com/yaml/v2" := by
  intro before i after
  have hname : i.name = some "yaml" := rfl
  have honly : ∀ j ∈ after, j.name ≠ some "yaml" := by decide
  refine ⟨⟨hname, by decide, by decide, honly⟩, ?_⟩
  exact (path?_explicit_iff hname (by decide) (by decide) honly _).mpr (by decide +kernel)

/-- A guess takes the name from the only import that gives it. -/
theorem path?_explicit_taken :
    let imports : List Import := [⟨some "yaml", "example.com/config"⟩, ⟨none, "gopkg.in/yaml.v2"⟩]
    (imports.filterMap Import.name).Nodup ∧
      (ofImports imports "example.com/demo").path? "yaml" = some "gopkg.in/yaml.v2" ∧
      (ofImports imports "example.com/demo").path? "yaml" ≠ some "example.com/config" := by
  decide +kernel

end ServiceTypes.ImportTable
