import ServiceTypes.Model.Writing

/-!
# `ServiceTypes.Proofs.Model.Text`: types told apart by their texts

A declaration writes a type without brackets around the references in it, and
the fields of a struct in a row. With plain names, what stands in the text is
nevertheless clear: after an optional star there is a word, which says what
kind of type it is, and behind the word stand the types inside. The text leaves
out the encodings of fields, and nothing else. The theorems:

* `qualifiedKey_inj_of_dotless`: a key splits at its last dot.
* `FieldType.Legible.kindOf_word`: the word tells the kind of a type.
* `FieldType.Legible.split`: the star, the word and the rest of a text.
* `FieldType.Legible.toldApart`: a type is known from a text that starts with
  it.
* `FieldType.Legible.text_eq_iff`: types with the same text differ in encodings
  only.
-/

set_option autoImplicit false

namespace ServiceTypes

open Model (qualifiedKey)

/-! ### Keys -/

/-- A name without a dot. -/
def Dotless (name : String) : Prop := '.' ∉ name.toList

/-- Whether a name has a dot is decided by a search. -/
instance (name : String) : Decidable (Dotless name) :=
  inferInstanceAs (Decidable ('.' ∉ name.toList))

/-- Whatever dots the packages have, keys of dotless names are equal only if the packages and
the names are. -/
theorem qualifiedKey_inj_of_dotless {p q a b : String} (ha : Dotless a) (hb : Dotless b)
    (h : qualifiedKey p a = qualifiedKey q b) : p = q ∧ a = b := by
  have hlist : p.toList ++ '.' :: a.toList = q.toList ++ '.' :: b.toList := by
    simpa [qualifiedKey] using congrArg String.toList h
  -- If one package were longer, its last dot would stand in the name of the other.
  have hpq : p.toList = q.toList := by
    rcases List.append_eq_append_iff.mp hlist with ⟨more, hq, hrest⟩ | ⟨more, hp, hrest⟩
    · cases more with
      | nil => rw [hq, List.append_nil]
      | cons c more =>
        have hdot : '.' ∈ a.toList := by
          rw [(List.cons.inj hrest).2]
          exact List.mem_append_right _ List.mem_cons_self
        exact absurd hdot ha
    · cases more with
      | nil => rw [hp, List.append_nil]
      | cons c more =>
        have hdot : '.' ∈ b.toList := by
          rw [(List.cons.inj hrest).2]
          exact List.mem_append_right _ List.mem_cons_self
        exact absurd hdot hb
  rw [hpq] at hlist
  have hab := List.append_cancel_left hlist
  exact ⟨String.toList_inj.mp hpq, String.toList_inj.mp (List.cons.inj hab).2⟩

namespace Model

/-! ### What a text leaves out -/

mutual

/-- A type without the encodings of the fields inside it. -/
def FieldType.unencoded : FieldType → FieldType
  | ⟨shape, isPointer, keyword⟩ => ⟨shape.unencoded, isPointer, keyword⟩
termination_by structural t => t

/-- A shape without the encodings of the fields inside it. -/
def Shape.unencoded : Shape → Shape
  | .scalar kind => .scalar kind
  | .named target => .named target
  | .inline struct => .inline struct.unencoded
  | .array elem => .array elem.unencoded
  | .map key elem => .map key elem.unencoded
termination_by structural s => s

/-- A struct without the encodings of its fields. -/
def Struct.unencoded : Struct → Struct
  | ⟨name, package, fields⟩ => ⟨name, package, unencodedFields fields⟩
termination_by structural s => s

/-- Fields without their encodings. -/
def unencodedFields : List Field → List Field
  | [] => []
  | field :: rest => field.unencoded :: unencodedFields rest
termination_by structural fs => fs

/-- A field without its encoding, and without those of the fields inside its type. -/
def Field.unencoded : Field → Field
  | ⟨name, type, _⟩ => ⟨name, type.unencoded, none⟩
termination_by structural f => f

end

mutual

/-- Encodings are not written. -/
theorem FieldType.text_unencoded (t : FieldType) : t.unencoded.text = t.text := by
  match t with
  | ⟨.scalar _, _, _⟩ => rfl
  | ⟨.named _, _, _⟩ => rfl
  | ⟨.inline struct, _, _⟩ =>
    have hstruct := struct.text_unencoded
    simp only [FieldType.unencoded, Shape.unencoded, FieldType.text, hstruct]
  | ⟨.array elem, _, _⟩ =>
    have helem := elem.text_unencoded
    simp only [FieldType.unencoded, Shape.unencoded, FieldType.text, helem]
  | ⟨.map _ elem, _, _⟩ =>
    have helem := elem.text_unencoded
    simp only [FieldType.unencoded, Shape.unencoded, FieldType.text, helem]
termination_by structural t

/-- The text of a struct does not show encodings. -/
theorem Struct.text_unencoded (s : Struct) : s.unencoded.text = s.text := by
  match s with
  | ⟨_, _, fields⟩ => rw [Struct.unencoded, Struct.text, Struct.text, fieldTexts_unencoded fields]
termination_by structural s

/-- The texts of fields do not show encodings. -/
theorem fieldTexts_unencoded (fields : List Field) :
    fieldTexts (unencodedFields fields) = fieldTexts fields := by
  match fields with
  | [] => rfl
  | ⟨_, type, _⟩ :: rest =>
    have htype := type.text_unencoded
    have hrest := fieldTexts_unencoded rest
    simp only [unencodedFields, Field.unencoded, fieldTexts, htype, hrest]
termination_by structural fields

end

/-! ### Plain names -/

/-- A character of a plain name: a letter, a digit or an underscore. Whatever is beyond ASCII
counts as a letter. -/
def isWordChar (c : Char) : Bool :=
  c.isAlphanum || c == '_' || 0x80 ≤ c.toNat

/-- A character of a plain package path. -/
def isPathChar (c : Char) : Bool :=
  isWordChar c || ['-', '~', '/', '.'].contains c

/-- A plain name. -/
def IsWord (name : String) : Prop :=
  name ≠ "" ∧ ∀ c ∈ name.toList, isWordChar c

/-- A plain package path, which may be empty. -/
def IsPath (path : String) : Prop :=
  ∀ c ∈ path.toList, isPathChar c

/-- Whether a text is a path is decided character by character. -/
instance (path : String) : Decidable (IsPath path) :=
  List.decidableBAll (fun c => isPathChar c = true) path.toList

/-- Whether a text is a word is decided character by character. -/
instance (name : String) : Decidable (IsWord name) :=
  @instDecidableAnd _ _ inferInstance
    (List.decidableBAll (fun c => isWordChar c = true) name.toList)

/-- The characters of words can stand in paths. -/
theorem isPathChar_of_isWordChar {c : Char} (h : isWordChar c) : isPathChar c := by
  simp [isPathChar, h]

/-- Every word is a path. -/
theorem IsWord.isPath {name : String} (h : IsWord name) : IsPath name :=
  fun c hc => isPathChar_of_isWordChar (h.2 c hc)

/-- No word has a dot. -/
theorem IsWord.dotless {name : String} (h : IsWord name) : Dotless name := by
  intro hdot
  exact absurd (h.2 '.' hdot) (by decide)

/-! ### Where words end -/

/-- What stands behind a word does not belong to it. -/
def Stops (rest : List Char) : Prop := rest.takeWhile isPathChar = []

/-- A path stops before a character that cannot stand in it. -/
theorem stops_cons {c : Char} (h : isPathChar c = false) (rest : List Char) :
    Stops (c :: rest) :=
  List.takeWhile_cons_of_neg (by rw [h]; exact Bool.false_ne_true)

/-- A word ends where its characters end. -/
theorem append_inj_of_takeWhile {p : Char → Bool} {word word' rest rest' : List Char}
    (hword : ∀ c ∈ word, p c) (hword' : ∀ c ∈ word', p c) (hrest : rest.takeWhile p = [])
    (hrest' : rest'.takeWhile p = []) (h : word ++ rest = word' ++ rest') :
    word = word' ∧ rest = rest' := by
  have htake := congrArg (List.takeWhile p) h
  rw [List.takeWhile_append_of_pos hword, List.takeWhile_append_of_pos hword', hrest, hrest',
    List.append_nil, List.append_nil] at htake
  rw [htake] at h
  exact ⟨htake, List.append_cancel_left h⟩

/-- The word for a key ends at the bracket behind it. -/
theorem Scalar.text_append_inj {key key' : Scalar} {rest rest' : List Char}
    (h : key.text.toList ++ ']' :: rest = key'.text.toList ++ ']' :: rest') :
    key = key' ∧ rest = rest' := by
  have hbracket : ∀ k : Scalar, ∀ c ∈ k.text.toList, (c != ']') = true := by
    intro k c hc
    refine bne_iff_ne.mpr ?_
    rintro rfl
    exact absurd hc (by cases k <;> decide)
  obtain ⟨htext, hrests⟩ := append_inj_of_takeWhile (hbracket key) (hbracket key') rfl rfl h
  refine ⟨?_, (List.cons.inj hrests).2⟩
  cases key <;> cases key' <;> first | rfl | exact absurd htext (by decide)

/-! ### Legible types -/

/-- A type with plain names: a scalar has a keyword, no other type has one, and a struct that is
written in place has no name. -/
inductive FieldType.Legible : FieldType → Prop where
  | scalar {keyword : String} (isPointer : Bool) : Scalar.ofKeyword keyword ≠ .none →
    Legible ⟨.scalar (.ofKeyword keyword), isPointer, some keyword⟩
  | named {package name : String} (isPointer : Bool) : IsPath package → IsWord name →
    Legible ⟨.named ⟨package, name⟩, isPointer, none⟩
  | inline {fields : List Field} (isPointer : Bool) : (∀ field ∈ fields, IsWord field.name) →
    (∀ field ∈ fields, field.type.Legible) →
      Legible ⟨.inline (.anonymous fields), isPointer, none⟩
  | array {elem : FieldType} (isPointer : Bool) : elem.Legible →
    Legible ⟨.array elem, isPointer, none⟩
  | map {key : Scalar} {elem : FieldType} (isPointer : Bool) : elem.Legible →
    Legible ⟨.map key elem, isPointer, none⟩

/-- A pointer to a legible type is legible. -/
theorem FieldType.Legible.pointer {t : FieldType} (h : t.Legible) : t.pointer.Legible := by
  cases h with
  | scalar _ hkeyword => exact .scalar true hkeyword
  | named _ hpackage hname => exact .named true hpackage hname
  | inline _ hnames htypes => exact .inline true hnames htypes
  | array _ helem => exact .array true helem
  | map _ helem => exact .map true helem

/-! ### The parts of a text -/

/-- The text behind the fields of a struct: more of them, or the end. -/
def fieldsTail : List Field → List Char
  | [] => [' ', '\x7d']
  | field :: rest =>
    ';' :: ' ' :: (field.name.toList ++ ' ' :: (field.type.text.toList ++ fieldsTail rest))

/-- The text of all fields of a struct and the end. -/
def fieldsBody : List Field → List Char
  | [] => [' ', '\x7d']
  | field :: rest => field.name.toList ++ ' ' :: (field.type.text.toList ++ fieldsTail rest)

/-- The texts of the fields between semicolons, with the end, are the body of a struct. -/
theorem toList_intercalate_fieldTexts (fields : List Field) :
    ("; ".intercalate (fieldTexts fields)).toList ++ [' ', '\x7d'] = fieldsBody fields := by
  match fields with
  | [] => rfl
  | [⟨name, type, _⟩] => simp [fieldTexts, fieldsBody, fieldsTail]
  | ⟨name, type, _⟩ :: ⟨name', type', encoding'⟩ :: rest =>
    have hrest := toList_intercalate_fieldTexts (⟨name', type', encoding'⟩ :: rest)
    rw [fieldTexts, fieldTexts, String.intercalate_cons_cons, ← fieldTexts]
    simpa [fieldsBody, fieldsTail] using hrest

namespace FieldType

/-- The word in front of a type, behind its star. -/
def word : FieldType → String
  | ⟨.scalar kind, _, keyword⟩ => keyword.getD kind.text
  | ⟨.named target, _, _⟩ => target.key
  | ⟨.inline _, _, _⟩ => "struct"
  | ⟨.array _, _, _⟩ => ""
  | ⟨.map _ _, _, _⟩ => "map"

/-- The text behind the word. -/
def tail : FieldType → List Char
  | ⟨.scalar _, _, _⟩ | ⟨.named _, _, _⟩ => []
  | ⟨.inline struct, _, _⟩ => ' ' :: '\x7b' :: ' ' :: fieldsBody struct.fields
  | ⟨.array elem, _, _⟩ => '[' :: ']' :: elem.text.toList
  | ⟨.map key elem, _, _⟩ => '[' :: (key.text.toList ++ ']' :: elem.text.toList)

/-- The text of a type is a star, if it is a pointer, its word and the text behind the word. -/
theorem toList_text (t : FieldType) :
    t.text.toList = (if t.isPointer then ['*'] else []) ++ (t.word.toList ++ t.tail) := by
  have hstarred (text : String) : (starred t.isPointer text).toList
      = (if t.isPointer then ['*'] else []) ++ text.toList := by
    unfold starred
    split <;> simp
  obtain ⟨shape, isPointer, keyword⟩ := t
  cases shape with
  | inline struct =>
    obtain ⟨name, package, fields⟩ := struct
    have hfields := toList_intercalate_fieldTexts fields
    simpa [FieldType.text, Struct.text, hstarred, word, tail] using hfields
  | _ => simp [FieldType.text, hstarred, word, tail]

end FieldType

/-! ### Kinds of types -/

/-- The kinds of shapes. -/
inductive Kind where
  | scalar
  | named
  | inline
  | array
  | map
  deriving DecidableEq

/-- The kind of a shape. -/
def Shape.kind : Shape → Kind
  | .scalar _ => .scalar
  | .named _ => .named
  | .inline _ => .inline
  | .array _ => .array
  | .map _ _ => .map

/-- The kind of a type that starts with a word. -/
def kindOf (word : String) : Kind :=
  if '.' ∈ word.toList then .named
  else if word = "struct" then .inline
  else if word = "map" then .map
  else if word = "" then .array
  else .scalar

/-- The built-in names that stand for scalars. -/
def keywords : List String :=
  ["string", "bool", "int", "int8", "int16", "int32", "int64", "uint", "uint8", "uint16", "uint32",
    "uint64", "uintptr", "byte", "rune", "float", "float32", "float64"]

/-- Every name that stands for a scalar is one of the keywords. -/
theorem mem_keywords {keyword : String} (h : Scalar.ofKeyword keyword ≠ .none) :
    keyword ∈ keywords := by
  unfold Scalar.ofKeyword at h
  split at h
  case isTrue hstring => simp [hstring, keywords]
  case isFalse =>
    split at h
    case isTrue hbool => simp [hbool, keywords]
    case isFalse =>
      split at h
      case isTrue hnumber => exact List.mem_cons_of_mem _ (List.mem_cons_of_mem _ hnumber)
      case isFalse => exact absurd rfl h

namespace FieldType

/-- The word in front of a legible type is one, and tells its kind. -/
theorem Legible.kindOf_word {t : FieldType} (h : t.Legible) :
    IsPath t.word ∧ kindOf t.word = t.shape.kind := by
  cases h with
  | @scalar keyword isPointer hkeyword =>
    have htable : ∀ k ∈ keywords, IsPath k ∧ kindOf k = .scalar := by decide +kernel
    exact htable keyword (mem_keywords hkeyword)
  | @named package name isPointer hpackage hname =>
    -- The dot between the package and the name is in the word.
    have hkey : (qualifiedKey package name).toList = package.toList ++ '.' :: name.toList := by
      simp [qualifiedKey]
    refine ⟨?_, ?_⟩
    · have hdot : ∀ c ∈ '.' :: name.toList, isPathChar c :=
        List.forall_mem_cons.mpr ⟨by decide, hname.isPath⟩
      have hall := List.forall_mem_append.mpr ⟨hpackage, hdot⟩
      rw [← hkey] at hall
      exact hall
    · refine if_pos ?_
      show '.' ∈ (qualifiedKey package name).toList
      rw [hkey]
      exact List.mem_append_right _ List.mem_cons_self
  | inline _ _ _ =>
    have hstruct : IsPath "struct" ∧ kindOf "struct" = .inline := by decide
    exact hstruct
  | array _ _ =>
    have hempty : IsPath "" ∧ kindOf "" = .array := by decide
    exact hempty
  | map _ _ =>
    have hmap : IsPath "map" ∧ kindOf "map" = .map := by decide
    exact hmap

/-- What stands behind the word of a type does not belong to it. -/
theorem stops_tail (t : FieldType) {rest : List Char} (h : Stops rest) :
    Stops (t.tail ++ rest) := by
  obtain ⟨shape, isPointer, keyword⟩ := t
  cases shape with
  | scalar kind => exact h
  | named target => exact h
  | inline struct => exact stops_cons (by decide) _
  | array elem => exact stops_cons (by decide) _
  | map key elem => exact stops_cons (by decide) _

/-- Behind its star, if it has one, a type starts with no further star. -/
theorem Legible.head_ne_star {t : FieldType} (h : t.Legible) {rest more : List Char} :
    t.word.toList ++ t.tail ++ rest ≠ '*' :: more := by
  intro heq
  obtain ⟨hword, hkind⟩ := h.kindOf_word
  cases hw : t.word.toList with
  | nil =>
    rw [String.toList_eq_nil_iff.mp hw] at hkind heq
    -- Only an array has no word, and then brackets come first.
    cases h with
    | array _ _ => cases (List.cons.inj heq).1
    | _ => cases hkind
  | cons c word =>
    have hc : isPathChar c := hword c (by rw [hw]; exact List.mem_cons_self)
    rw [hw] at heq
    rw [(List.cons.inj heq).1] at hc
    exact absurd hc (by decide)

/-- Two equal texts that start with legible types have types of the same kind in front, with the
same star, the same word, and the same text behind it. -/
theorem Legible.split {a b : FieldType} (ha : a.Legible) (hb : b.Legible) {rest rest' : List Char}
    (hrest : Stops rest) (hrest' : Stops rest')
    (h : a.text.toList ++ rest = b.text.toList ++ rest') :
    a.shape.kind = b.shape.kind ∧ a.isPointer = b.isPointer ∧ a.word = b.word ∧
      a.tail ++ rest = b.tail ++ rest' := by
  obtain ⟨hword, hkind⟩ := ha.kindOf_word
  obtain ⟨hword', hkind'⟩ := hb.kindOf_word
  rw [toList_text, toList_text] at h
  -- A star on one side only would start a word on the other.
  have hstar : a.isPointer = b.isPointer ∧
      a.word.toList ++ a.tail ++ rest = b.word.toList ++ b.tail ++ rest' := by
    cases hp : a.isPointer <;> cases hq : b.isPointer <;>
      simp only [hp, hq, Bool.false_eq_true, if_true, if_false, List.nil_append,
        List.cons_append] at h
    · exact ⟨rfl, h⟩
    · exact absurd h ha.head_ne_star
    · exact absurd h.symm hb.head_ne_star
    · exact ⟨rfl, (List.cons.inj h).2⟩
  obtain ⟨hpointer, hbehind⟩ := hstar
  rw [List.append_assoc, List.append_assoc] at hbehind
  obtain ⟨hwords, htails⟩ :=
    append_inj_of_takeWhile hword hword' (a.stops_tail hrest) (b.stops_tail hrest') hbehind
  rw [← hkind, ← hkind', String.toList_inj.mp hwords]
  exact ⟨rfl, hpointer, rfl, htails⟩

/-! ### Texts of types -/

/-- The type is known from any text that starts with it, up to encodings, and so is the rest
behind it. -/
def ToldApart (a : FieldType) : Prop :=
  ∀ b : FieldType, b.Legible → ∀ rest rest', Stops rest → Stops rest' →
    a.text.toList ++ rest = b.text.toList ++ rest' → a.unencoded = b.unencoded ∧ rest = rest'

end FieldType

/-- A field is known from any text that starts with it, with its name in front. -/
theorem field_append_inj {a b : Field} (ha : IsWord a.name) (hb : IsWord b.name)
    (htype : a.type.ToldApart) (hlegible : b.type.Legible) {rest rest' : List Char}
    (hrest : Stops rest) (hrest' : Stops rest')
    (h : a.name.toList ++ ' ' :: (a.type.text.toList ++ rest)
      = b.name.toList ++ ' ' :: (b.type.text.toList ++ rest')) :
    a.unencoded = b.unencoded ∧ rest = rest' := by
  obtain ⟨name, type, encoding⟩ := a
  obtain ⟨name', type', encoding'⟩ := b
  -- The name ends at the space behind it.
  obtain ⟨hname, hbehind⟩ := append_inj_of_takeWhile ha.isPath hb.isPath
    (stops_cons (by decide) _) (stops_cons (by decide) _) h
  obtain rfl : name = name' := String.toList_inj.mp hname
  obtain ⟨htypes, hrests⟩ := htype type' hlegible _ _ hrest hrest' (List.cons.inj hbehind).2
  rw [Field.unencoded, Field.unencoded, htypes]
  exact ⟨rfl, hrests⟩

/-- More fields of a struct start with a semicolon, and its end with a space. -/
theorem stops_fieldsTail (fields : List Field) (rest : List Char) :
    Stops (fieldsTail fields ++ rest) := by
  cases fields with
  | nil => exact stops_cons (by decide) _
  | cons field fields => exact stops_cons (by decide) _

section

variable {as bs : List Field} {rest rest' : List Char}

/-- Fields are known from any text that goes on with them, if their types are. -/
theorem fieldsTail_append_inj (has : ∀ field ∈ as, IsWord field.name)
    (hbs : ∀ field ∈ bs, IsWord field.name) (htypes : ∀ field ∈ as, field.type.ToldApart)
    (hlegible : ∀ field ∈ bs, field.type.Legible)
    (h : fieldsTail as ++ rest = fieldsTail bs ++ rest') :
    unencodedFields as = unencodedFields bs ∧ rest = rest' := by
  induction as generalizing bs with
  | nil =>
    -- The fields end together: a space is no semicolon.
    cases bs with
    | nil => exact ⟨rfl, List.append_cancel_left h⟩
    | cons b bs => exact absurd (List.cons.inj h).1 (by decide)
  | cons a as ih =>
    cases bs with
    | nil => exact absurd (List.cons.inj h).1 (by decide)
    | cons b bs =>
      obtain ⟨hname, has⟩ := List.forall_mem_cons.mp has
      obtain ⟨hname', hbs⟩ := List.forall_mem_cons.mp hbs
      obtain ⟨htype, htypes⟩ := List.forall_mem_cons.mp htypes
      obtain ⟨htype', hlegible⟩ := List.forall_mem_cons.mp hlegible
      simp only [fieldsTail, List.cons_append, List.append_assoc, List.cons.injEq,
        true_and] at h
      obtain ⟨hfield, htail⟩ := field_append_inj hname hname' htype htype'
        (stops_fieldsTail as rest) (stops_fieldsTail bs rest') h
      obtain ⟨hfields, hrest⟩ := ih has hbs htypes hlegible htail
      rw [unencodedFields, unencodedFields, hfield, hfields]
      exact ⟨rfl, hrest⟩

/-- No plain name starts with a space. -/
theorem fieldsBody_cons_ne {field : Field} (h : IsWord field.name) (fields : List Field) :
    fieldsBody (field :: fields) ++ rest ≠ ' ' :: rest' := by
  intro heq
  simp only [fieldsBody, List.append_assoc, List.cons_append] at heq
  have hempty : ∀ c ∈ ([] : List Char), isPathChar c := List.forall_mem_nil _
  obtain ⟨hnil, -⟩ := append_inj_of_takeWhile h.isPath hempty (stops_cons (by decide) _)
    (stops_cons (by decide) _) heq
  exact h.1 (String.toList_eq_nil_iff.mp hnil)

/-- The first field has no semicolon in front. A space stands there if there is no field. -/
theorem fieldsBody_append_inj (has : ∀ field ∈ as, IsWord field.name)
    (hbs : ∀ field ∈ bs, IsWord field.name) (htypes : ∀ field ∈ as, field.type.ToldApart)
    (hlegible : ∀ field ∈ bs, field.type.Legible)
    (h : fieldsBody as ++ rest = fieldsBody bs ++ rest') :
    unencodedFields as = unencodedFields bs ∧ rest = rest' := by
  cases as with
  | nil =>
    cases bs with
    | nil => exact ⟨rfl, List.append_cancel_left h⟩
    | cons b bs => exact absurd h.symm (fieldsBody_cons_ne (hbs b List.mem_cons_self) bs)
  | cons a as =>
    cases bs with
    | nil => exact absurd h (fieldsBody_cons_ne (has a List.mem_cons_self) as)
    | cons b bs =>
      -- With a semicolon in front, the fields stand as they do behind others.
      exact fieldsTail_append_inj has hbs htypes hlegible (congrArg (';' :: ' ' :: ·) h)

end

namespace FieldType

/-- A legible type is known from any text that starts with it. -/
theorem Legible.toldApart {a : FieldType} (ha : a.Legible) : a.ToldApart := by
  -- In each case the words make the other type one of the same kind, and what stands behind them
  -- is left to the types inside.
  induction ha with
  | @scalar keyword isPointer hkeyword =>
    intro b hb rest rest' hrest hrest' h
    obtain ⟨hkind, hstar, hword, htail⟩ :=
      Legible.split (.scalar isPointer hkeyword) hb hrest hrest' h
    cases hb with
    | @scalar keyword' isPointer' _ =>
      obtain rfl : isPointer = isPointer' := hstar
      obtain rfl : keyword = keyword' := hword
      exact ⟨rfl, htail⟩
    | _ => cases hkind
  | @named package name isPointer hpackage hname =>
    intro b hb rest rest' hrest hrest' h
    obtain ⟨hkind, hstar, hword, htail⟩ :=
      Legible.split (.named isPointer hpackage hname) hb hrest hrest' h
    cases hb with
    | @named package' name' isPointer' _ hname' =>
      obtain rfl : isPointer = isPointer' := hstar
      obtain ⟨rfl, rfl⟩ := qualifiedKey_inj_of_dotless hname.dotless hname'.dotless hword
      exact ⟨rfl, htail⟩
    | _ => cases hkind
  | @inline fields isPointer hnames htypes ih =>
    intro b hb rest rest' hrest hrest' h
    obtain ⟨hkind, hstar, -, htail⟩ :=
      Legible.split (.inline isPointer hnames htypes) hb hrest hrest' h
    cases hb with
    | @inline fields' isPointer' hnames' htypes' =>
      obtain rfl : isPointer = isPointer' := hstar
      simp only [tail, List.cons_append, List.cons.injEq, true_and] at htail
      obtain ⟨hfields, hrests⟩ := fieldsBody_append_inj hnames hnames' ih htypes' htail
      refine ⟨?_, hrests⟩
      simp only [unencoded, Shape.unencoded, Struct.anonymous, Struct.unencoded, hfields]
    | _ => cases hkind
  | @array elem isPointer helem ih =>
    intro b hb rest rest' hrest hrest' h
    obtain ⟨hkind, hstar, -, htail⟩ := Legible.split (.array isPointer helem) hb hrest hrest' h
    cases hb with
    | @array elem' isPointer' helem' =>
      obtain rfl : isPointer = isPointer' := hstar
      simp only [tail, List.cons_append, List.cons.injEq, true_and] at htail
      obtain ⟨helems, hrests⟩ := ih elem' helem' rest rest' hrest hrest' htail
      refine ⟨?_, hrests⟩
      simp only [unencoded, Shape.unencoded, helems]
    | _ => cases hkind
  | @map key elem isPointer helem ih =>
    intro b hb rest rest' hrest hrest' h
    obtain ⟨hkind, hstar, -, htail⟩ := Legible.split (.map isPointer helem) hb hrest hrest' h
    cases hb with
    | @map key' elem' isPointer' helem' =>
      obtain rfl : isPointer = isPointer' := hstar
      simp only [tail, List.append_assoc, List.cons_append, List.cons.injEq, true_and] at htail
      obtain ⟨rfl, hbehind⟩ := Scalar.text_append_inj htail
      obtain ⟨helems, hrests⟩ := ih elem' helem' rest rest' hrest hrest' hbehind
      refine ⟨?_, hrests⟩
      simp only [unencoded, Shape.unencoded, helems]
    | _ => cases hkind

/-- Legible types with the same text differ in nothing but the encodings of fields inside
them. -/
theorem Legible.text_eq_iff {a b : FieldType} (ha : a.Legible) (hb : b.Legible) :
    a.text = b.text ↔ a.unencoded = b.unencoded := by
  constructor
  · intro h
    exact (ha.toldApart b hb [] [] rfl rfl (by rw [h])).1
  · intro h
    rw [← a.text_unencoded, h, b.text_unencoded]

end FieldType

end Model

end ServiceTypes
