import Mathlib.Data.List.DropRight
import ServiceTypes.Proofs.Imports

/-!
# `ServiceTypes.Proofs.Imports.Versions`: versions in package paths

Behind the name of its package a path may carry a version, as a suffix
(`gopkg.in/yaml.v2`), as a segment of its own (`github.com/foo/bar/v3`) or
as both, and slashes at its end. The name that is guessed from the path leaves
all of them out. The theorems:

* `isMajorVersion_iff`: the segments that are skipped are the marks of versions.
* `dropVersionSuffix_suffixed` / `dropVersionSuffix_cases`: a suffix is cut, and
  nothing else is.
* `namingSegment_last` / `namingSegment_version`: the last segment names the
  package, or the one before it if the last one is the mark of a version.
* `decorates_defaultName`: every path decorates the name that is guessed from it.
* `defaultName_eq_iff`: a name without a version is guessed from exactly the paths
  that decorate it.
* `path?_of_decorates`: each of these paths is found under the name.
-/

set_option autoImplicit false

namespace ServiceTypes

open Source (Import)
open ImportTable (localName? ofImports isGuessed)

/-! ### Decorations -/

/-- The number of a version: at least one digit. -/
structure VersionNumber where
  digits : List Char
  digits_ne_nil : digits ≠ []
  isDigit_of_mem : ∀ c ∈ digits, c.isDigit

/-- The mark of a version, such as `v2`. -/
def VersionNumber.mark (n : VersionNumber) : List Char := 'v' :: n.digits

/-- The mark of a version behind a separator, if there is a version. -/
def marked (separator : Char) : Option VersionNumber → List Char
  | none => []
  | some n => separator :: n.mark

/-- What a path may carry behind the name of its package: the version as a suffix, the version
as a segment, and slashes. -/
structure Decoration where
  suffix : Option VersionNumber
  segment : Option VersionNumber
  slashes : Nat

/-- A decoration as it is written. -/
def Decoration.text (d : Decoration) : List Char :=
  marked '.' d.suffix ++ marked '/' d.segment ++ List.replicate d.slashes '/'

/-- What may stand before a segment of a path: nothing, or a text that ends in a slash. -/
inductive IsParent : List Char → Prop where
  | empty : IsParent []
  | slash (above : List Char) : IsParent (above ++ ['/'])

/-- A path that decorates a name: a parent, the name and a decoration. -/
def Decorates (name path : List Char) : Prop :=
  ∃ (parent : List Char) (d : Decoration), IsParent parent ∧ path = parent ++ name ++ d.text

/-- A segment that shows no version: it is not the mark of one, and it does not end in a suffix
with one. A suffix that nothing stands before does not count. -/
structure Unversioned (name : List Char) : Prop where
  ne_nil : name ≠ []
  slashless : '/' ∉ name
  ne_mark : ∀ n : VersionNumber, name ≠ n.mark
  ne_suffixed : ∀ (stem : List Char) (n : VersionNumber),
    stem ≠ [] → name ≠ stem ++ marked '.' (some n)

namespace VersionNumber

/-- A mark has no characters but its `v` and digits. -/
theorem notMem_mark (n : VersionNumber) {c : Char} (hv : c ≠ 'v') (hdigit : c.isDigit = false) :
    c ∉ n.mark := by
  intro hc
  rcases List.mem_cons.mp hc with h | h
  · exact hv h
  · rw [n.isDigit_of_mem c h] at hdigit
    cases hdigit

/-- A mark is a segment. -/
theorem mark_slashless (n : VersionNumber) : '/' ∉ n.mark := n.notMem_mark (by decide) (by decide)

/-- A mark is not empty. -/
theorem mark_ne_nil (n : VersionNumber) : n.mark ≠ [] := List.cons_ne_nil _ _

end VersionNumber

/-- A mark stands behind its separator. -/
theorem append_marked (front : List Char) (separator : Char) (n : VersionNumber) :
    front ++ marked separator (some n) = front ++ [separator] ++ n.mark := by
  rw [List.append_assoc, List.singleton_append, marked]

/-! ### Marks and suffixes -/

/-- The segments that are skipped at the end are the marks of versions. -/
theorem isMajorVersion_iff {segment : List Char} :
    isMajorVersion segment ↔ ∃ n : VersionNumber, segment = n.mark := by
  constructor
  · intro h
    unfold isMajorVersion at h
    split at h
    case h_1 digits =>
      obtain ⟨hne, hdigits⟩ : digits ≠ [] ∧ ∀ c ∈ digits, c.isDigit := by simpa using h
      exact ⟨⟨digits, hne, hdigits⟩, rfl⟩
    case h_2 => cases h
  · rintro ⟨n, rfl⟩
    simpa [isMajorVersion, VersionNumber.mark] using And.intro n.digits_ne_nil n.isDigit_of_mem

/-- A suffix with a version is cut from the stem that it stands behind. -/
theorem dropVersionSuffix_suffixed {stem : List Char} (hne : stem ≠ []) (n : VersionNumber) :
    dropVersionSuffix (stem ++ marked '.' (some n)) = stem := by
  -- The mark is looked for from the back, where its digits come first.
  have hback : (stem ++ marked '.' (some n)).reverse
      = n.digits.reverse ++ 'v' :: '.' :: stem.reverse := by
    simp [marked, VersionNumber.mark]
  have hdigits : ∀ c ∈ n.digits.reverse, c.isDigit := fun c hc =>
    n.isDigit_of_mem c (List.mem_reverse.mp hc)
  obtain ⟨last, more, hcons⟩ :=
    List.exists_cons_of_ne_nil (List.reverse_ne_nil_iff.mpr n.digits_ne_nil)
  have htake : (n.digits.reverse ++ 'v' :: '.' :: stem.reverse).takeWhile Char.isDigit
      = last :: more := by
    rw [List.takeWhile_append_of_pos hdigits, List.takeWhile_cons_of_neg (by decide),
      List.append_nil, hcons]
  have hdrop : (n.digits.reverse ++ 'v' :: '.' :: stem.reverse).dropWhile Char.isDigit
      = 'v' :: '.' :: stem.reverse := by
    rw [List.dropWhile_append_of_pos hdigits, List.dropWhile_cons_of_neg (by decide)]
  unfold dropVersionSuffix
  simp only [hback, htake, hdrop]
  rw [if_neg (by simpa using hne), List.reverse_reverse]

/-- Nothing but a suffix with a version is cut, and only if something stands before it. -/
theorem dropVersionSuffix_cases (segment : List Char) :
    dropVersionSuffix segment = segment ∨
      dropVersionSuffix segment ≠ [] ∧
        ∃ n : VersionNumber, segment = dropVersionSuffix segment ++ marked '.' (some n) := by
  generalize hstem : dropVersionSuffix segment = stem
  simp only [dropVersionSuffix] at hstem
  split at hstem
  case h_1 last more head htake hdrop =>
    split at hstem
    case isTrue => exact .inl hstem.symm
    case isFalse hhead =>
      -- What has been taken from the back is a mark in reverse.
      have hdigits : ∀ c ∈ (last :: more).reverse, c.isDigit := by
        intro c hc
        rw [List.mem_reverse, ← htake] at hc
        exact List.mem_takeWhile_imp hc
      have hback : segment.reverse = last :: more ++ 'v' :: '.' :: head := by
        rw [← htake, ← hdrop, List.takeWhile_append_dropWhile]
      refine .inr ⟨by simpa [← hstem] using hhead, ⟨(last :: more).reverse, by simp, hdigits⟩, ?_⟩
      rw [← List.reverse_reverse segment, hback, ← hstem]
      simp [marked, VersionNumber.mark]
  case h_2 => exact .inl hstem.symm

namespace Unversioned

variable {name : List Char} (h : Unversioned name)
include h

/-- No suffix is cut from a name without a version. -/
theorem dropVersionSuffix_eq : dropVersionSuffix name = name := by
  rcases dropVersionSuffix_cases name with heq | ⟨hne, n, heq⟩
  · exact heq
  · exact absurd heq (h.ne_suffixed _ n hne)

/-- A name without a version is not skipped. -/
theorem isMajorVersion_eq : isMajorVersion name = false := by
  rw [← Bool.not_eq_true, isMajorVersion_iff]
  rintro ⟨n, hn⟩
  exact h.ne_mark n hn

/-- At most the suffix is cut from a name that may have one. -/
theorem dropVersionSuffix_marked (version : Option VersionNumber) :
    dropVersionSuffix (name ++ marked '.' version) = name := by
  cases version with
  | none => rw [marked, List.append_nil, h.dropVersionSuffix_eq]
  | some n => exact dropVersionSuffix_suffixed h.ne_nil n

/-- A name with a suffix is no mark of a version, which has no dot. -/
theorem isMajorVersion_marked (version : Option VersionNumber) :
    isMajorVersion (name ++ marked '.' version) = false := by
  cases version with
  | none => rw [marked, List.append_nil, h.isMajorVersion_eq]
  | some n =>
    rw [← Bool.not_eq_true, isMajorVersion_iff]
    rintro ⟨m, hm⟩
    have hdot : '.' ∉ m.mark := m.notMem_mark (by decide) (by decide)
    exact hdot (hm ▸ List.mem_append_right _ (List.mem_cons_self ..))

/-- A name with or without a suffix is one segment. -/
theorem slashless_marked (version : Option VersionNumber) :
    '/' ∉ name ++ marked '.' version := by
  cases version with
  | none =>
    rw [marked, List.append_nil]
    exact h.slashless
  | some n =>
    rw [List.mem_append, not_or]
    exact ⟨h.slashless, List.not_mem_cons_of_ne_of_not_mem (by decide) n.mark_slashless⟩

end Unversioned

/-- A segment shows no version exactly if it is neither skipped nor cut. -/
theorem unversioned_iff {name : List Char} :
    Unversioned name ↔ name ≠ [] ∧ '/' ∉ name ∧ isMajorVersion name = false ∧
      dropVersionSuffix name = name := by
  constructor
  · intro h
    exact ⟨h.ne_nil, h.slashless, h.isMajorVersion_eq, h.dropVersionSuffix_eq⟩
  · rintro ⟨hne, hslash, hmajor, hdrop⟩
    refine ⟨hne, hslash, fun n hn => ?_, fun stem n hstem hn => ?_⟩
    · rw [isMajorVersion_iff.mpr ⟨n, hn⟩] at hmajor
      cases hmajor
    · rw [hn, dropVersionSuffix_suffixed hstem] at hdrop
      exact List.cons_ne_nil _ _ (List.self_eq_append_right.mp hdrop)

/-- Whether a segment shows a version is decided by the two tests on it. -/
instance (name : List Char) : Decidable (Unversioned name) :=
  decidable_of_iff _ unversioned_iff.symm

/-! ### Segments -/

/-- Every path is its last segment with a parent before it. -/
theorem exists_parent (path : List Char) :
    ∃ parent segment, IsParent parent ∧ '/' ∉ segment ∧ path = parent ++ segment := by
  refine ⟨path.rdropWhile (· ≠ '/'), path.rtakeWhile (· ≠ '/'), ?_, ?_,
    List.rdropWhile_append_rtakeWhile.symm⟩
  · by_cases hnil : path.rdropWhile (· ≠ '/') = []
    · rw [hnil]
      exact .empty
    · have hlast : (path.rdropWhile (· ≠ '/')).getLast hnil = '/' := by
        simpa using List.rdropWhile_last_not _ _ hnil
      rw [← List.dropLast_append_getLast hnil, hlast]
      exact .slash _
  · intro hmem
    simpa using List.mem_rtakeWhile_imp hmem

/-- A segment behind its parent is the last one of the path. -/
theorem splitOn_parent {parent segment : List Char} (hparent : IsParent parent)
    (hslash : '/' ∉ segment) :
    ∃ segments, (parent ++ segment).splitOn '/' = segments ++ [segment] ∧
      (segments = [] ↔ parent = []) := by
  cases hparent with
  | empty => exact ⟨[], List.splitOn_eq_singleton hslash, by simp⟩
  | slash above =>
    refine ⟨above.splitOn '/', ?_, by simp [List.splitOn_ne_nil]⟩
    rw [List.append_assoc, List.singleton_append, List.splitOn_append_cons_self,
      List.splitOn_eq_singleton hslash]

section Segments

variable {parent segment : List Char} (hparent : IsParent parent) (hslash : '/' ∉ segment)
include hparent hslash

/-- The last segment names the package if it is not the mark of a version, or if it is the only
one. -/
theorem namingSegment_last (h : isMajorVersion segment = false ∨ parent = []) :
    namingSegment (parent ++ segment) = segment := by
  obtain ⟨segments, hsplit, hnil⟩ := splitOn_parent hparent hslash
  unfold namingSegment
  rw [hsplit, List.reverse_concat]
  cases hback : segments.reverse with
  | nil => rfl
  | cons previous more =>
    -- Another segment stands before the last one, so the parent is not empty.
    have hmajor : isMajorVersion segment = false := by
      refine h.resolve_right fun hempty => ?_
      rw [hnil.mpr hempty] at hback
      cases hback
    show (if isMajorVersion segment then previous else segment) = segment
    rw [if_neg (by simp [hmajor])]

/-- The segment before the mark of a version names the package. -/
theorem namingSegment_version (n : VersionNumber) :
    namingSegment (parent ++ segment ++ marked '/' (some n)) = segment := by
  obtain ⟨segments, hsplit, -⟩ := splitOn_parent hparent hslash
  unfold namingSegment
  rw [marked, List.splitOn_append_cons_self, hsplit,
    List.splitOn_eq_singleton n.mark_slashless, List.reverse_concat, List.reverse_concat]
  show (if isMajorVersion n.mark then segment else n.mark) = segment
  rw [if_pos (isMajorVersion_iff.mpr ⟨n, rfl⟩)]

end Segments

/-- Every path is the segment that names the package, with a parent before it and at most the mark
of a version behind it. -/
theorem exists_namingSegment (path : List Char) :
    ∃ parent version, IsParent parent ∧
      path = parent ++ namingSegment path ++ marked '/' version := by
  obtain ⟨parent, last, hparent, hlast, rfl⟩ := exists_parent path
  by_cases h : isMajorVersion last = false ∨ parent = []
  · refine ⟨parent, none, hparent, ?_⟩
    rw [namingSegment_last hparent hlast h, marked, List.append_nil]
  · obtain ⟨hmajor, hnil⟩ := not_or.mp h
    obtain ⟨n, rfl⟩ := isMajorVersion_iff.mp (Bool.not_eq_false _ ▸ hmajor)
    cases hparent with
    | empty => exact absurd rfl hnil
    | slash above =>
      -- The parent of the mark ends in the segment that names the package.
      obtain ⟨front, previous, hfront, hprevious, rfl⟩ := exists_parent above
      refine ⟨front, some n, hfront, ?_⟩
      rw [← append_marked, namingSegment_version hfront hprevious n]

/-! ### Slashes at the end -/

/-- The slashes behind a segment are cut, and no others. -/
theorem rdropWhile_slashes {last : List Char} (hne : last ≠ []) (hslash : '/' ∉ last)
    (front : List Char) (count : Nat) :
    (front ++ last ++ List.replicate count '/').rdropWhile (· = '/') = front ++ last := by
  induction count with
  | zero =>
    rw [List.replicate_zero, List.append_nil, List.rdropWhile_eq_self_iff]
    intro hnil hend
    rw [List.getLast_append_of_ne_nil _ hne, decide_eq_true_iff] at hend
    exact hslash (hend ▸ List.getLast_mem hne)
  | succ count ih =>
    rw [List.replicate_succ', ← List.append_assoc,
      List.rdropWhile_concat_pos (· = '/') _ _ (by simp), ih]

/-- The segment that names the package is found in front of the mark of a version and of slashes
at the end. -/
theorem namingSegment_decorated {parent segment : List Char} (hparent : IsParent parent)
    (hne : segment ≠ []) (hslash : '/' ∉ segment) (hmajor : isMajorVersion segment = false)
    (version : Option VersionNumber) (count : Nat) :
    namingSegment ((parent ++ segment ++ marked '/' version
      ++ List.replicate count '/').rdropWhile (· = '/')) = segment := by
  cases version with
  | none =>
    rw [marked, List.append_nil, rdropWhile_slashes hne hslash,
      namingSegment_last hparent hslash (.inl hmajor)]
  | some n =>
    rw [append_marked, rdropWhile_slashes n.mark_ne_nil n.mark_slashless, ← append_marked,
      namingSegment_version hparent hslash]

/-- Every path is what is left of it without the slashes at its end, and these slashes. -/
theorem exists_slashes (path : List Char) :
    ∃ count, path = path.rdropWhile (· = '/') ++ List.replicate count '/' := by
  have h : path.rtakeWhile (· = '/')
      = List.replicate (path.rtakeWhile (· = '/')).length '/' :=
    List.eq_replicate_of_mem fun c hc => by simpa using List.mem_rtakeWhile_imp hc
  exact ⟨_, by rw [← h, List.rdropWhile_append_rtakeWhile]⟩

/-! ### Guessed names -/

/-- The guess is made in three cuts: slashes at the end, the naming segment, its suffix. -/
theorem toList_defaultName (path : String) :
    (defaultName path).toList
      = dropVersionSuffix (namingSegment (path.toList.rdropWhile (· = '/'))) := by
  unfold defaultName
  rw [String.toList_ofList]
  rfl

/-- Every path decorates the name that is guessed from it. -/
theorem decorates_defaultName (path : String) :
    Decorates (defaultName path).toList path.toList := by
  rw [toList_defaultName]
  -- What the three cuts take off is put back, from the end of the path inwards.
  obtain ⟨slashes, hpath⟩ := exists_slashes path.toList
  generalize path.toList.rdropWhile (· = '/') = trimmed at hpath ⊢
  obtain ⟨parent, segment, hparent, htrimmed⟩ := exists_namingSegment trimmed
  generalize namingSegment trimmed = naming at htrimmed ⊢
  obtain ⟨suffix, hsuffix⟩ : ∃ suffix, naming = dropVersionSuffix naming ++ marked '.' suffix := by
    rcases dropVersionSuffix_cases naming with heq | ⟨-, n, heq⟩
    · exact ⟨none, by rw [heq, marked, List.append_nil]⟩
    · exact ⟨some n, heq⟩
  refine ⟨parent, ⟨suffix, segment, slashes⟩, hparent, ?_⟩
  rw [Decoration.text, ← List.append_assoc, ← List.append_assoc, List.append_assoc parent,
    ← hsuffix, ← htrimmed, ← hpath]

section Names

variable {name : String} (hname : Unversioned name.toList)
include hname

/-- A decoration does not show in the guessed name. -/
theorem defaultName_of_decorates {path : String} (h : Decorates name.toList path.toList) :
    defaultName path = name := by
  obtain ⟨parent, d, hparent, hpath⟩ := h
  have hne : name.toList ++ marked '.' d.suffix ≠ [] :=
    List.append_ne_nil_of_left_ne_nil hname.ne_nil _
  have hwritten : path.toList = parent ++ (name.toList ++ marked '.' d.suffix)
      ++ marked '/' d.segment ++ List.replicate d.slashes '/' := by
    simp only [hpath, Decoration.text, List.append_assoc]
  rw [← String.toList_inj, toList_defaultName, hwritten,
    namingSegment_decorated hparent hne (hname.slashless_marked _) (hname.isMajorVersion_marked _),
    hname.dropVersionSuffix_marked]

/-- A name without a version is guessed from exactly the paths that decorate it. -/
theorem defaultName_eq_iff {path : String} :
    defaultName path = name ↔ Decorates name.toList path.toList := by
  constructor
  · rintro rfl
    exact decorates_defaultName path
  · exact defaultName_of_decorates hname

end Names

/-- A name without a version is guessed from exactly the paths that decorate it. An import of such
a path that gives no name itself is found under the name with the path as it is written, unless a
later import declares the name. -/
theorem path?_of_decorates {name : String} (hname : Unversioned name.toList) (path : String) :
    (defaultName path = name ↔ Decorates name.toList path.toList) ∧
      (Decorates name.toList path.toList → ∀ (before after : List Import) (ownPath : String),
        (∀ j ∈ after, localName? j ≠ some name) →
          (ofImports (before ++ ⟨none, path⟩ :: after) ownPath).path? name = some path) := by
  refine ⟨defaultName_eq_iff hname, fun h before after ownPath hafter => ?_⟩
  have hempty : name ≠ "" := by simpa using hname.ne_nil
  have hguess : isGuessed name ⟨none, path⟩ := by
    simp [isGuessed, defaultName_of_decorates hname h]
  exact ImportTable.path?_of_last
    ((ImportTable.localName?_eq_some_iff hempty (by simp)).mpr hguess) hafter ownPath

/-- A name with a dot and a `v` in it, behind a doubled slash and before both marks and two
slashes. The import before gives itself the name; behind it stand a path with the name before a
lone `v`, and a blank import. -/
theorem path?_of_decorates_schema :
    let name := "schema.v1beta"
    let path := "gopkg.in//schema.v1beta.v2/v10//"
    let before : List Import := [⟨some name, "example.com/schema"⟩]
    let after : List Import := [⟨none, "example.com/schema.v1beta/v"⟩, ⟨some "_", name⟩]
    (Unversioned name.toList ∧ Decorates name.toList path.toList ∧
        ∀ j ∈ after, localName? j ≠ some name) ∧
      defaultName path = name ∧
      (ofImports (before ++ ⟨none, path⟩ :: after) "example.com/demo").path? name
        = some path := by
  intro name path before after
  have hname : Unversioned name.toList := by decide +kernel
  -- There is an empty segment in front, and behind the name both marks and two slashes.
  have hpath : Decorates name.toList path.toList :=
    ⟨"gopkg.in//".toList, ⟨some ⟨['2'], by decide, List.all_eq_true.mp rfl⟩,
      some ⟨['1', '0'], by decide, List.all_eq_true.mp rfl⟩, 2⟩,
      .slash "gopkg.in/".toList, by decide +kernel⟩
  have hafter : ∀ j ∈ after, localName? j ≠ some name := by decide +kernel
  obtain ⟨hguess, hlookup⟩ := path?_of_decorates hname path
  exact ⟨⟨hname, hpath, hafter⟩, hguess.mpr hpath,
    hlookup hpath before after "example.com/demo" hafter⟩

end ServiceTypes
