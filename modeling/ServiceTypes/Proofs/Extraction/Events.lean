import ServiceTypes.Proofs.Extraction.LastDeclaration

/-!
# `ServiceTypes.Proofs.Extraction.Events`: what extraction reports

What a declaration reports depends on the declarations before it in one
point only: whether its name was declared already. This module writes the
diagnostics of a package down without a registry.

A package is a row of steps, each a file that begins or a visible
declaration. `eventsFrom` goes along the steps and keeps the names that it
has seen. The theorems:

* `events_extractVisible`: the diagnostics of one declaration.
* `extract_eq_foldlM`: extraction goes along the steps.
* `events_extract`: the diagnostics of a package are those of its steps.
* `eventsFrom_append`: steps report what they do after all names before them.
-/

set_option autoImplicit false

namespace ServiceTypes

open Model (qualifiedKey)
open Source (File Package)

/-- A loop over all items of lists is a loop over the lists. -/
theorem Reported.foldlM_flatMap {α β σ : Type} (f : α → List β) (g : σ → β → Reported σ)
    (xs : List α) (init : σ) :
    (xs.flatMap f).foldlM g init = xs.foldlM (fun s x => (f x).foldlM g s) init := by
  induction xs generalizing init with
  | nil => rfl
  | cons x xs ih =>
    rw [List.flatMap_cons, List.foldlM_append, List.foldlM_cons]
    congr 1
    funext next
    exact ih next

/-! ### Single declarations -/

/-- What a declaration reports, apart from a duplicate: its key, and for a struct type
whatever its lines report. -/
def TypeDeclaration.events (options : Options) (path : String) (d : TypeDeclaration) :
    List Diagnostic :=
  match d.underlying with
  | .struct lines =>
    .readingStruct (qualifiedKey path d.name) ::
      ((d.scope options path).fieldsOf (qualifiedKey path d.name) lines).events
  | other => [.notAStruct (qualifiedKey path d.name) other.form]

section Declaration

variable {options : Options} {path : String} {r : Registry} {d : TypeDeclaration}

/-- A declaration whose key has a slot reports a duplicate first. -/
theorem events_extractVisible (h : options.admits d.name) :
    (extractVisible options path r d).events
      = (if r.contains (qualifiedKey path d.name) then
          [Diagnostic.duplicateType (qualifiedKey path d.name)] else [])
        ++ d.events options path := by
  obtain ⟨name, underlying, imports⟩ := d
  unfold extractVisible extractDeclaration TypeDeclaration.events
  simp only [if_pos h]
  split <;> cases underlying <;> simp [TypeDeclaration.scope]

/-- A declaration gives its own key a slot, and no other key. -/
theorem contains_registerVisible (h : options.admits d.name) (key : String) :
    (registerVisible options path r d).contains key
      ↔ key = qualifiedKey path d.name ∨ r.contains key := by
  have hid : (registerVisible options path r d).idOf? key
      = (r.enter path d.name).2.idOf? key := by
    rw [registerVisible_eq path r h]
    split <;> rfl
  unfold Registry.contains
  rw [hid, Registry.idOf?_enter]
  by_cases hkey : key = qualifiedKey path d.name
  · simp [hkey]
  · simp [hkey]

end Declaration

/-! ### Steps -/

/-- What extraction comes upon on its way through a package. -/
inductive Step where
  /-- A file begins. -/
  | file (name : String)
  /-- A declaration that passes the visibility option. -/
  | declaration (d : TypeDeclaration)

/-- Takes one step. -/
def Step.extract (options : Options) (path : String) (registry : Registry) :
    Step → Reported Registry
  | .file name => do
    Reported.report (.readingFile name)
    return registry
  | .declaration d => extractVisible options path registry d

/-- The steps of a file: its beginning and its visible declarations. -/
def Source.File.steps (options : Options) (file : File) : List Step :=
  .file file.name :: (file.visible options).map .declaration

/-- The steps of a package, file by file. -/
def Source.Package.steps (options : Options) (package : Package) : List Step :=
  package.files.flatMap (File.steps options)

/-- The declarations among steps. -/
def Step.declaration? : Step → Option TypeDeclaration
  | .file _ => none
  | .declaration d => some d

/-- The names that steps declare. -/
def stepNames (steps : List Step) : List String :=
  (steps.filterMap Step.declaration?).map TypeDeclaration.name

/-- The declarations among the steps of a package are its visible ones, in order. -/
theorem filterMap_steps (options : Options) (package : Package) :
    (package.steps options).filterMap Step.declaration? = package.visible options := by
  unfold Source.Package.steps Source.Package.visible
  rw [List.filterMap_flatMap]
  congr 1
  funext file
  show List.filterMap Step.declaration? ((file.visible options).map Step.declaration) = _
  rw [List.filterMap_map]
  exact List.filterMap_some

/-- Extraction goes along the steps of a package. -/
theorem extract_eq_foldlM (package : Package) (path : String) (options : Options) :
    package.extract path options
      = Reported.report (.readingPackage path) >>= fun _ =>
          (package.steps options).foldlM (Step.extract options path) Registry.empty := by
  unfold Source.Package.extract Source.Package.steps
  rw [Reported.foldlM_flatMap]
  congr 1
  funext _
  congr 1
  funext registry file
  rw [extractFile_eq_foldlM]
  simp only [File.steps, List.foldlM_cons, List.foldlM_map]
  rfl

/-! ### Diagnostics of steps -/

/-- What steps report after declarations of the given names. -/
def eventsFrom (options : Options) (path : String) (seen : List String) :
    List Step → List Diagnostic
  | [] => []
  | .file name :: rest => .readingFile name :: eventsFrom options path seen rest
  | .declaration d :: rest =>
    (if d.name ∈ seen then [.duplicateType (qualifiedKey path d.name)] else [])
      ++ d.events options path ++ eventsFrom options path (seen ++ [d.name]) rest

section Steps

variable {options : Options} {path : String}

/-- Steps report what `eventsFrom` says, as long as the registry has slots for exactly the
names seen so far. -/
theorem events_foldlM_extract {steps : List Step} {r : Registry} {seen : List String}
    (hseen : ∀ name, r.contains (qualifiedKey path name) ↔ name ∈ seen)
    (hsteps : ∀ d, Step.declaration d ∈ steps → options.admits d.name) :
    (steps.foldlM (Step.extract options path) r).events = eventsFrom options path seen steps := by
  -- Each step hands on a registry that has slots for one name more, or for the same names.
  induction steps generalizing r seen with
  | nil => rfl
  | cons step rest ih =>
    have hrest : ∀ d, Step.declaration d ∈ rest → options.admits d.name :=
      fun d hd => hsteps d (List.mem_cons_of_mem _ hd)
    rw [List.foldlM_cons, Reported.events_bind]
    cases step with
    | file name =>
      have htail := ih hseen hrest
      rw [eventsFrom, ← htail]
      rfl
    | declaration d =>
      have hd : options.admits d.name := hsteps d List.mem_cons_self
      have hnext : ∀ name, (registerVisible options path r d).contains (qualifiedKey path name)
          ↔ name ∈ seen ++ [d.name] := by
        intro name
        rw [contains_registerVisible hd, hseen, List.mem_append, List.mem_singleton, or_comm]
        exact or_congr_right ⟨qualifiedKey_inj, congrArg _⟩
      have htail := ih hnext hrest
      have hhead : (extractVisible options path r d).events = _ := events_extractVisible hd
      simp only [hseen] at hhead
      rw [eventsFrom, ← htail, ← hhead]
      rfl

/-- The diagnostics of a package are those of its steps. -/
theorem events_extract (package : Package) (path : String) (options : Options) :
    (package.extract path options).events
      = .readingPackage path :: eventsFrom options path [] (package.steps options) := by
  rw [extract_eq_foldlM, Reported.events_bind]
  refine congrArg _ (events_foldlM_extract ?_ fun d hd => ?_)
  · intro name
    exact iff_of_false Bool.false_ne_true List.not_mem_nil
  · have hmem : d ∈ package.visible options := by
      rw [← filterMap_steps]
      exact List.mem_filterMap.mpr ⟨_, hd, rfl⟩
    exact admits_of_mem_visible hmem

/-- Later steps report what they do after the names of the earlier ones. -/
theorem eventsFrom_append (seen : List String) (steps rest : List Step) :
    eventsFrom options path seen (steps ++ rest)
      = eventsFrom options path seen steps
        ++ eventsFrom options path (seen ++ stepNames steps) rest := by
  induction steps generalizing seen with
  | nil => rw [List.nil_append, stepNames, List.filterMap_nil, List.map_nil, List.append_nil]; rfl
  | cons step steps ih =>
    cases step with
    | file name =>
      rw [List.cons_append, eventsFrom, eventsFrom, ih]
      rfl
    | declaration d =>
      -- The name of the declaration counts as seen for all later steps.
      have hnames : seen ++ stepNames (.declaration d :: steps)
          = seen ++ [d.name] ++ stepNames steps := by
        rw [List.append_assoc]
        rfl
      rw [List.cons_append, eventsFrom, eventsFrom, ih, hnames]
      simp only [List.append_assoc]

/-- A declaration among steps. What the others report depends on its name only. -/
theorem eventsFrom_declaration (seen : List String) (steps rest : List Step)
    (d : TypeDeclaration) :
    eventsFrom options path seen (steps ++ [.declaration d] ++ rest)
      = eventsFrom options path seen steps
        ++ (if d.name ∈ seen ++ stepNames steps then
            [.duplicateType (qualifiedKey path d.name)] else [])
        ++ d.events options path
        ++ eventsFrom options path (seen ++ stepNames steps ++ [d.name]) rest := by
  rw [List.append_assoc, eventsFrom_append, List.singleton_append, eventsFrom]
  simp only [List.append_assoc]

end Steps

end ServiceTypes
