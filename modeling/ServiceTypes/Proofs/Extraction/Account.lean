import ServiceTypes.Proofs.Extraction.Contents
import ServiceTypes.Proofs.Extraction.Events
import ServiceTypes.Proofs.Typing.Events

/-!
# `ServiceTypes.Proofs.Extraction.Account`: the diagnostics account for every declaration

Each visible declaration is announced by one event, which says whether it is
a struct, and what its lines report stands behind the announcement. A
declaration of a name that was declared before has its duplicate reported
directly in front of the announcement. So the events can be counted against
the declarations, and against the slots of the registry. The theorems:

* `events_eq_announcement_cons`: the events of a declaration.
* `countP_announced` / `count_duplicateType` / `length_add_countP_duplicate`:
  what is counted along the steps of a package.
* `redeclaredAt_of_duplicateType`: what stands around a duplicate.
* `accounts_extract`: all of this for the events of a package.
-/

set_option autoImplicit false

namespace ServiceTypes

open Model (qualifiedKey)
open Source (File Package)

/-! ### Kinds of events -/

namespace Diagnostic

/-- The name of the file that is read. -/
def file? : Diagnostic → Option String
  | .readingFile name => some name
  | _ => none

/-- Whether a struct is announced. -/
def isReadingStruct : Diagnostic → Bool
  | .readingStruct _ => true
  | _ => false

/-- Whether a declaration of something else than a struct is announced. -/
def isNotAStruct : Diagnostic → Bool
  | .notAStruct _ _ => true
  | _ => false

/-- Whether a declaration is announced. -/
def isAnnouncement (e : Diagnostic) : Bool := e.isReadingStruct || e.isNotAStruct

/-- Whether a duplicate is reported. -/
def isDuplicateType : Diagnostic → Bool
  | .duplicateType _ => true
  | _ => false

/-- An event on a member announces no declaration. -/
theorem isAnnouncement_of_isOnMember {e : Diagnostic} (h : e.isOnMember) :
    e.isAnnouncement = false := by
  cases e <;> first | rfl | cases h

end Diagnostic

/-! ### The events of a declaration -/

/-- The event that announces a declaration. -/
def TypeDeclaration.announcement (path : String) (d : TypeDeclaration) : Diagnostic :=
  match d.underlying with
  | .struct _ => .readingStruct (qualifiedKey path d.name)
  | other => .notAStruct (qualifiedKey path d.name) other.form

section Declaration

variable (options : Options) (path : String) (d : TypeDeclaration)

/-- What a declaration is announced by is an announcement. -/
theorem TypeDeclaration.isAnnouncement_announcement : (d.announcement path).isAnnouncement := by
  obtain ⟨name, underlying, imports⟩ := d
  cases underlying <;> rfl

/-- A declaration is announced, and all else that it reports concerns members. -/
theorem events_eq_announcement_cons :
    ∃ members, d.events options path = d.announcement path :: members ∧
      ∀ e ∈ members, e.isOnMember := by
  obtain ⟨name, underlying, imports⟩ := d
  cases underlying with
  | struct lines => exact ⟨_, rfl, Scope.fieldsOf_onMembers _ _ lines⟩
  | _ => exact ⟨[], rfl, List.forall_mem_nil _⟩

variable {options path d}

/-- Of the events of a declaration only the announcement is counted, unless events on members
are. -/
theorem countP_events {p : Diagnostic → Bool} (hp : ∀ e, e.isOnMember → p e = false) :
    (d.events options path).countP p = if p (d.announcement path) then 1 else 0 := by
  obtain ⟨members, hevents, hmembers⟩ := events_eq_announcement_cons options path d
  have hnone : members.countP p = 0 := by
    rw [List.countP_eq_zero]
    intro e he
    rw [hp e (hmembers e he)]
    exact Bool.false_ne_true
  rw [hevents, List.countP_cons, hnone, Nat.zero_add]

/-- A declaration is announced once, as a struct or as none. -/
theorem countP_announced_events :
    (d.events options path).countP Diagnostic.isReadingStruct
      + (d.events options path).countP Diagnostic.isNotAStruct = 1 := by
  have hstruct : ∀ e : Diagnostic, e.isOnMember → e.isReadingStruct = false := fun _ he =>
    (Bool.or_eq_false_iff.mp (Diagnostic.isAnnouncement_of_isOnMember he)).1
  have hother : ∀ e : Diagnostic, e.isOnMember → e.isNotAStruct = false := fun _ he =>
    (Bool.or_eq_false_iff.mp (Diagnostic.isAnnouncement_of_isOnMember he)).2
  rw [countP_events hstruct, countP_events hother]
  obtain ⟨name, underlying, imports⟩ := d
  cases underlying <;> rfl

/-- A declaration reports nothing but its announcement and events on members. -/
theorem not_mem_events {e : Diagnostic} (hmember : e.isOnMember = false)
    (hann : e.isAnnouncement = false) : e ∉ d.events options path := by
  obtain ⟨members, hevents, hmembers⟩ := events_eq_announcement_cons options path d
  rw [hevents, List.mem_cons]
  rintro (heq | hmem)
  · rw [heq, d.isAnnouncement_announcement path] at hann
    cases hann
  · rw [hmembers e hmem] at hmember
    cases hmember

end Declaration

/-- What is reported in front of a declaration: a duplicate, if the name was seen before. -/
def duplicateReport (path : String) (seen : List String) (d : TypeDeclaration) :
    List Diagnostic :=
  if d.name ∈ seen then [.duplicateType (qualifiedKey path d.name)] else []

/-- The report of a duplicate is no other event. -/
theorem countP_duplicateReport_eq_zero {p : Diagnostic → Bool}
    (hp : ∀ key, p (.duplicateType key) = false) (path : String) (seen : List String)
    (d : TypeDeclaration) : (duplicateReport path seen d).countP p = 0 := by
  unfold duplicateReport
  split
  · rw [List.countP_singleton, hp]
    rfl
  · rfl

/-- A name that was declared before is reported once, and another name not at all. -/
theorem countP_isDuplicateType_duplicateReport (path : String) (seen : List String)
    (d : TypeDeclaration) :
    (duplicateReport path seen d).countP Diagnostic.isDuplicateType
      = if d.name ∈ seen then 1 else 0 := by
  unfold duplicateReport
  split <;> rfl

/-- Only the name of the declaration itself is reported, and only if it was declared before. -/
theorem mem_duplicateReport {path : String} {seen : List String} {d : TypeDeclaration}
    {e : Diagnostic} (h : e ∈ duplicateReport path seen d) :
    d.name ∈ seen ∧ e = .duplicateType (qualifiedKey path d.name) := by
  unfold duplicateReport at h
  split at h
  case isTrue hseen => exact ⟨hseen, List.mem_singleton.mp h⟩
  case isFalse => cases h

/-- A duplicate among the events of a declaration is the first of them, and the announcement
follows. -/
theorem eq_nil_of_duplicateType {options : Options} {path : String} {seen : List String}
    {d : TypeDeclaration} {key : String} {front more : List Diagnostic}
    (h : duplicateReport path seen d ++ d.events options path
      = front ++ .duplicateType key :: more) :
    front = [] ∧ d.name ∈ seen ∧ qualifiedKey path d.name = key ∧
      more = d.events options path := by
  -- The events of a declaration hold no duplicate, so the report is the one in front of them.
  have hown : ∀ front, d.events options path ≠ front ++ .duplicateType key :: more := by
    intro front heq
    have hmem : .duplicateType key ∈ d.events options path := by
      rw [heq]
      exact List.mem_append_right _ List.mem_cons_self
    exact not_mem_events rfl rfl hmem
  unfold duplicateReport at h
  split at h
  case isTrue hseen =>
    cases front with
    | nil =>
      obtain ⟨hkey, hmore⟩ := List.cons.inj h
      exact ⟨rfl, hseen, Diagnostic.duplicateType.inj hkey, hmore.symm⟩
    | cons e front => exact absurd (List.cons.inj h).2 (hown front)
  case isFalse => exact absurd h (hown front)

/-- A declaration is announced once, duplicate or not. -/
theorem countP_isAnnouncement_declaration (options : Options) (path : String)
    (seen : List String) (d : TypeDeclaration) :
    (duplicateReport path seen d ++ d.events options path).countP Diagnostic.isAnnouncement
      = 1 := by
  rw [List.countP_append, countP_duplicateReport_eq_zero fun _ => rfl,
    countP_events fun _ => Diagnostic.isAnnouncement_of_isOnMember,
    if_pos (d.isAnnouncement_announcement path)]

/-! ### Counting along the steps of a package -/

/-- The file that begins with a step. -/
def Step.file? : Step → Option String
  | .file name => some name
  | .declaration _ => none

/-- The files of a package are entered one after the other. -/
theorem filterMap_file?_steps (options : Options) (package : Package) :
    (package.steps options).filterMap Step.file? = package.files.map File.name := by
  have hfile : ∀ file : File, (file.steps options).filterMap Step.file? = [file.name] := by
    intro file
    show file.name :: List.filterMap Step.file? ((file.visible options).map Step.declaration) = _
    rw [List.filterMap_map]
    exact congrArg _ (List.filterMap_eq_nil_iff.mpr fun _ _ => rfl)
  unfold Source.Package.steps
  rw [List.filterMap_flatMap]
  simp only [hfile]
  exact List.map_eq_flatMap.symm

section Steps

variable {options : Options} {path : String}

/-- A step with a declaration reports a duplicate first, then what is in the declaration, and goes
on with one more name seen. -/
theorem eventsFrom_cons_declaration (seen : List String) (d : TypeDeclaration)
    (steps : List Step) :
    eventsFrom options path seen (.declaration d :: steps)
      = duplicateReport path seen d ++ d.events options path
        ++ eventsFrom options path (seen ++ [d.name]) steps := rfl

/-- The package itself is announced before all steps. -/
theorem readingPackage_notMem_eventsFrom (seen : List String) (steps : List Step)
    (name : String) : .readingPackage name ∉ eventsFrom options path seen steps := by
  induction steps generalizing seen with
  | nil => exact List.not_mem_nil
  | cons step steps ih =>
    intro hmem
    cases step with
    | file name =>
      rcases List.mem_cons.mp hmem with heq | hrest
      · cases heq
      · exact ih seen hrest
    | declaration d =>
      rw [eventsFrom_cons_declaration, List.mem_append, List.mem_append] at hmem
      rcases hmem with (hduplicate | hown) | hrest
      · cases (mem_duplicateReport hduplicate).2
      · exact not_mem_events rfl rfl hown
      · exact ih _ hrest

/-- Each file is read once, in order. -/
theorem filterMap_file?_eventsFrom (seen : List String) (steps : List Step) :
    (eventsFrom options path seen steps).filterMap Diagnostic.file?
      = steps.filterMap Step.file? := by
  induction steps generalizing seen with
  | nil => rfl
  | cons step steps ih =>
    cases step with
    | file name => exact congrArg (name :: ·) (ih seen)
    | declaration d =>
      -- Neither a duplicate nor the events of a declaration announce a file.
      have hduplicate : (duplicateReport path seen d).filterMap Diagnostic.file? = [] := by
        rw [List.filterMap_eq_nil_iff]
        intro e he
        rw [(mem_duplicateReport he).2]
        rfl
      have hown : (d.events options path).filterMap Diagnostic.file? = [] := by
        rw [List.filterMap_eq_nil_iff]
        intro e he
        cases e with
        | readingFile name => exact absurd he (not_mem_events rfl rfl)
        | _ => rfl
      rw [eventsFrom_cons_declaration, List.filterMap_append, List.filterMap_append, hduplicate,
        hown, ih]
      rfl

/-- Each declaration is announced once. -/
theorem countP_announced (seen : List String) (steps : List Step) :
    (eventsFrom options path seen steps).countP Diagnostic.isReadingStruct
        + (eventsFrom options path seen steps).countP Diagnostic.isNotAStruct
      = (steps.filterMap Step.declaration?).length := by
  induction steps generalizing seen with
  | nil => rfl
  | cons step steps ih =>
    cases step with
    | file name => exact ih seen
    | declaration d =>
      -- A declaration is announced once, as a struct or as none.
      have hevents : (d.events options path).countP Diagnostic.isReadingStruct
          + (d.events options path).countP Diagnostic.isNotAStruct = 1 := countP_announced_events
      have hrest := ih (seen ++ [d.name])
      rw [eventsFrom_cons_declaration, List.countP_append, List.countP_append,
        List.countP_append, List.countP_append,
        countP_duplicateReport_eq_zero fun _ => rfl, countP_duplicateReport_eq_zero fun _ => rfl]
      show _ = (steps.filterMap Step.declaration?).length + 1
      omega

/-- A key is reported as a duplicate for each of its declarations but the first. -/
theorem count_duplicateType (seen : List String) (steps : List Step) (key : String) :
    (eventsFrom options path seen steps).count (.duplicateType key)
      = ((steps.filterMap Step.declaration?).countP fun d => qualifiedKey path d.name = key)
        - if key ∈ seen.map (qualifiedKey path) then 0 else 1 := by
  induction steps generalizing seen with
  | nil =>
    show 0 = 0 - _
    omega
  | cons step steps ih =>
    cases step with
    | file name => exact ih seen
    | declaration d =>
      have hown : (d.events options path).count (.duplicateType key) = 0 :=
        List.count_eq_zero.mpr (not_mem_events rfl rfl)
      have hseen : d.name ∈ seen ↔ qualifiedKey path d.name ∈ seen.map (qualifiedKey path) := by
        rw [List.mem_map_of_injective]
        exact fun _ _ => qualifiedKey_inj
      rw [eventsFrom_cons_declaration, List.count_append, List.count_append, hown, ih]
      show _ = List.countP _ (d :: steps.filterMap Step.declaration?) - _
      unfold duplicateReport
      rw [List.countP_cons, List.map_append]
      simp only [hseen, List.mem_append, List.map_singleton, List.mem_singleton]
      by_cases hkey : qualifiedKey path d.name = key
      · -- A declaration of the key counts once, and is a duplicate unless it is the first.
        rw [hkey]
        by_cases hmem : key ∈ seen.map (qualifiedKey path)
        · simp [hmem]
          omega
        · simp [hmem]
      · have hne : Diagnostic.duplicateType (qualifiedKey path d.name) ≠ .duplicateType key :=
          fun heq => hkey (Diagnostic.duplicateType.inj heq)
        have hne' : key ≠ qualifiedKey path d.name := Ne.symm hkey
        split <;> simp [hkey, hne, hne']

/-- Each declaration is a new name or a duplicate. -/
theorem length_add_countP_duplicate (before : List TypeDeclaration) (steps : List Step) :
    (declaredNames (before ++ steps.filterMap Step.declaration?)).length
        + (eventsFrom options path (before.map TypeDeclaration.name) steps).countP
            Diagnostic.isDuplicateType
      = (declaredNames before).length + (steps.filterMap Step.declaration?).length := by
  induction steps generalizing before with
  | nil => exact congrArg (fun ds => (declaredNames ds).length) (List.append_nil before)
  | cons step steps ih =>
    cases step with
    | file name => exact ih before
    | declaration d =>
      have hown : (d.events options path).countP Diagnostic.isDuplicateType = 0 := by
        rw [List.countP_eq_zero]
        intro e he
        cases e with
        | duplicateType key => exact absurd he (not_mem_events rfl rfl)
        | _ => exact Bool.false_ne_true
      have hrest := ih (before ++ [d])
      rw [List.map_append, List.map_singleton, List.append_assoc, List.singleton_append,
        declaredNames_concat] at hrest
      have hseen : d.name ∈ declaredNames before ↔ d.name ∈ before.map TypeDeclaration.name :=
        List.mem_eraseDups
      rw [eventsFrom_cons_declaration, List.countP_append, List.countP_append, hown,
        countP_isDuplicateType_duplicateReport]
      show (declaredNames (before ++ d :: steps.filterMap Step.declaration?)).length + _
        = _ + ((steps.filterMap Step.declaration?).length + 1)
      -- A new name makes the list of names longer, and any other name is reported.
      by_cases hmem : d.name ∈ before.map TypeDeclaration.name
      · rw [if_pos (hseen.mpr hmem)] at hrest
        rw [if_pos hmem]
        omega
      · rw [if_neg (mt hseen.mp hmem), List.length_append, List.length_singleton] at hrest
        rw [if_neg hmem]
        omega

/-- The events in `back` start with the announcement of one of the declarations `ds`, which has
the key and repeats a name: one that was seen before, or that of an earlier declaration. Which
one it is can be told from the announcements in `front`. -/
def RedeclaredAt (path : String) (seen : List String) (ds : List TypeDeclaration) (key : String)
    (front back : List Diagnostic) : Prop :=
  ∃ before d after rest, ds = before ++ d :: after ∧ qualifiedKey path d.name = key ∧
    d.name ∈ seen ++ before.map TypeDeclaration.name ∧ back = d.announcement path :: rest ∧
    front.countP Diagnostic.isAnnouncement = before.length

/-- A duplicate stands directly in front of the announcement of the redeclaration. -/
theorem redeclaredAt_of_duplicateType {seen : List String} {steps : List Step} {key : String}
    {front back : List Diagnostic}
    (h : eventsFrom options path seen steps = front ++ .duplicateType key :: back) :
    RedeclaredAt path seen (steps.filterMap Step.declaration?) key front back := by
  induction steps generalizing seen front with
  | nil => exact absurd h.symm (List.append_ne_nil_of_right_ne_nil _ (List.cons_ne_nil _ _))
  | cons step steps ih =>
    cases step with
    | file name =>
      cases front with
      | nil => cases h
      | cons e front =>
        obtain ⟨rfl, hrest⟩ := List.cons.inj h
        obtain ⟨before, d, after, rest, hsteps, hkey, hseen, hback, hcount⟩ := ih hrest
        refine ⟨before, d, after, rest, hsteps, hkey, hseen, hback, ?_⟩
        rw [List.countP_cons_of_neg Bool.false_ne_true, hcount]
    | declaration d =>
      -- Behind the events of this declaration, the duplicate belongs to a later one.
      have hlater : ∀ more,
          front = duplicateReport path seen d ++ d.events options path ++ more →
          eventsFrom options path (seen ++ [d.name]) steps = more ++ .duplicateType key :: back →
          RedeclaredAt path seen (d :: steps.filterMap Step.declaration?) key front back := by
        intro more hfront hrest
        obtain ⟨before, d', after, rest, hsteps, hkey, hseen, hback, hcount⟩ := ih hrest
        refine ⟨d :: before, d', after, rest, congrArg (d :: ·) hsteps, hkey, ?_, hback, ?_⟩
        · rwa [List.append_assoc] at hseen
        · rw [hfront, List.countP_append, countP_isAnnouncement_declaration, hcount,
            List.length_cons, Nat.add_comm]
      rw [eventsFrom_cons_declaration] at h
      rcases List.append_eq_append_iff.mp h with ⟨more, hfront, hrest⟩ | ⟨more, hown, hback⟩
      · exact hlater more hfront hrest
      · cases more with
        | nil =>
          rw [List.append_nil] at hown
          exact hlater [] (by rw [List.append_nil, hown]) hback.symm
        | cons e more =>
          -- Otherwise it is the first of these events.
          obtain ⟨rfl, htail⟩ := List.cons.inj hback
          obtain ⟨rfl, hseen, hkey, rfl⟩ := eq_nil_of_duplicateType hown
          obtain ⟨members, hevents, -⟩ := events_eq_announcement_cons options path d
          rw [hevents] at htail
          refine ⟨[], d, steps.filterMap Step.declaration?, _, rfl, hkey, ?_, htail, rfl⟩
          rwa [List.map_nil, List.append_nil]

end Steps

/-! ### Packages -/

/-- Events that account for the declarations of a package: its files, its visible declarations
`ds`, and the registry that they leave. -/
structure Accounts (path : String) (files : List String) (ds : List TypeDeclaration)
    (r : Registry) (events : List Diagnostic) : Prop where
  /-- The package is announced first, and nowhere else. -/
  package : ∃ rest, events = .readingPackage path :: rest ∧ ∀ name, .readingPackage name ∉ rest
  /-- Each file is read once, in order. -/
  files : events.filterMap Diagnostic.file? = files
  /-- Each declaration is announced once, as a struct or as something else. -/
  declarations : ds.length
    = events.countP Diagnostic.isReadingStruct + events.countP Diagnostic.isNotAStruct
  /-- A key is reported as a duplicate for each of its declarations but the first. -/
  duplicates : ∀ key, events.count (.duplicateType key)
    = (ds.countP fun d => qualifiedKey path d.name = key) - 1
  /-- A duplicate stands directly in front of the announcement of the declaration that repeats
  the name. -/
  redeclared : ∀ front key back, events = front ++ .duplicateType key :: back →
    RedeclaredAt path [] ds key front back
  /-- Each declaration that is no duplicate has a slot. -/
  slots : r.size + events.countP Diagnostic.isDuplicateType
    = events.countP Diagnostic.isReadingStruct + events.countP Diagnostic.isNotAStruct

/-- The diagnostics of a package account for its files, for every visible declaration and for
every slot of its registry. -/
theorem accounts_extract (package : Package) (path : String) (options : Options) :
    Accounts path (package.files.map File.name) (package.visible options)
      (package.extract path options).result (package.extract path options).events := by
  have hsize : (package.extract path options).result.size
      = (declaredNames (package.visible options)).length :=
    (keepsLast_extract package path options).size
  have hannounced := @countP_announced options path [] (package.steps options)
  have hnames := @length_add_countP_duplicate options path [] (package.steps options)
  rw [filterMap_steps] at hannounced hnames
  rw [events_extract]
  -- The announcement of the package is none of the events that are counted.
  exact {
    package := ⟨_, rfl, readingPackage_notMem_eventsFrom [] _⟩
    files := (filterMap_file?_eventsFrom [] _).trans (filterMap_file?_steps options package)
    declarations := hannounced.symm
    duplicates := by
      intro key
      rw [List.count_cons_of_ne (Ne.symm Diagnostic.noConfusion), count_duplicateType,
        filterMap_steps]
      rfl
    redeclared := by
      intro front key back h
      cases front with
      | nil => cases h
      | cons e front =>
        obtain ⟨rfl, hrest⟩ := List.cons.inj h
        have hredeclared := redeclaredAt_of_duplicateType hrest
        rw [filterMap_steps] at hredeclared
        obtain ⟨before, d, after, rest, hds, hkey, hseen, hback, hcount⟩ := hredeclared
        exact ⟨before, d, after, rest, hds, hkey, hseen, hback, hcount⟩
    slots := by
      rw [hsize]
      exact hnames.trans ((Nat.zero_add _).trans hannounced.symm) }

end ServiceTypes
