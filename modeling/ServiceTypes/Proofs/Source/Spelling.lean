import ServiceTypes.Proofs.Json.Record
import ServiceTypes.Source.Document

/-!
# `ServiceTypes.Proofs.Source.Spelling`: the spellings of a document

A document has many spellings as JSON: each of its records may be an object or
an array, members may be left out and others added, and a type expression
without parts is a word or an object with this word. `SpelledBy` says for each
tree which nodes spell it, without reading them. The theorems:

* `TypeExpr.interpretable_of_spelledBy`: a node that spells a type expression
  means some value. A reader that has to hold a part before it knows what the
  part is for can hold it.
-/

set_option autoImplicit false

namespace ServiceTypes.Source

open Json (Denotes Node RecordSpells Slot SpellsText)

/-! ### Type expressions -/

/-- An object with one key. -/
def UnderKey (word : String) (writes : Node → Prop) (node : Node) : Prop :=
  ∃ key content, node = .object [⟨key, content⟩] ∧ Denotes key word.toList ∧ writes content

/-- A type expression without parts: its word, or null under its word. -/
def SpellsWord (word : String) (node : Node) : Prop :=
  SpellsText word node ∨ UnderKey word (fun content => content = .null) node

mutual

/-- The nodes that spell a type expression. -/
def TypeExpr.SpelledBy : TypeExpr → Node → Prop
  | .ident name => UnderKey "ident" (SpellsText name)
  | .pointer target => UnderKey "star" target.SpelledBy
  | .array length elem =>
    UnderKey "array" (RecordSpells [.optional "len" length, .required "elem" elem.SpelledBy])
  | .map key value =>
    UnderKey "map" (RecordSpells [.required "key" key.SpelledBy, .required "value" value.SpelledBy])
  | .selector qualifier name =>
    UnderKey "selector"
      (RecordSpells [.required "x" qualifier.SpelledBy, .required "sel" (SpellsText name)])
  | .struct lines =>
    UnderKey "struct" (RecordSpells [.list "fields" lines (linesSpelledBy lines)])
  | .paren inner => UnderKey "paren" inner.SpelledBy
  | .func => SpellsWord "func"
  | .interface => SpellsWord "interface"
  | .chan => SpellsWord "chan"
termination_by structural type => type

/-- The nodes that spell a field line. -/
def FieldLine.SpelledBy : FieldLine → Node → Prop
  | ⟨names, type, tag⟩ =>
    RecordSpells [.list "names" names (List.Forall₂ SpellsText names),
      .required "type" type.SpelledBy, .optional "tag" tag]
termination_by structural line => line

/-- The lists of nodes that spell field lines one by one. -/
def linesSpelledBy : List FieldLine → List Node → Prop
  | [] => fun nodes => nodes = []
  | line :: lines => fun nodes =>
    ∃ node rest, nodes = node :: rest ∧ line.SpelledBy node ∧ linesSpelledBy lines rest
termination_by structural lines => lines

end

/-! ### Interpretations -/

/-- A node under a key word has a meaning if what stands under the key has one. -/
theorem interpretable_of_underKey {word : String} {writes : Node → Prop} {node : Node}
    (h : UnderKey word writes node) (hwrites : ∀ node, writes node → node.Interpretable) :
    node.Interpretable := by
  obtain ⟨key, content, rfl, hkey, hcontent⟩ := h
  have hnamed : List.Forall₂ (fun (m : Json.Member) (pair : String × Node) =>
      Denotes m.key pair.1.toList ∧ m.value = pair.2) [⟨key, content⟩] [(word, content)] :=
    .cons ⟨hkey, rfl⟩ .nil
  exact Json.interpretable_object hnamed
    (List.forall_mem_singleton.mpr (hwrites content hcontent))

/-- A key word has a meaning in both of its spellings. -/
theorem interpretable_of_spellsWord {word : String} {node : Node} (h : SpellsWord word node) :
    node.Interpretable := by
  rcases h with h | h
  · exact Json.interpretable_of_spellsText h
  · exact interpretable_of_underKey h fun content hcontent => ⟨.null, hcontent ▸ .null⟩

mutual

/-- A node that spells a type expression means some value. -/
theorem TypeExpr.interpretable_of_spelledBy (type : TypeExpr) {node : Node}
    (h : type.SpelledBy node) : node.Interpretable := by
  -- Under its key every form holds a text, a record or another expression.
  match type with
  | .ident _ => exact interpretable_of_underKey h fun _ => Json.interpretable_of_spellsText
  | .pointer target =>
    exact interpretable_of_underKey h fun _ => target.interpretable_of_spelledBy
  | .array _ elem =>
    refine interpretable_of_underKey h fun _ hrecord => hrecord.interpretable ?_
    exact List.forall_mem_cons.mpr ⟨fun _ => Json.interpretable_of_optional,
      List.forall_mem_singleton.mpr fun _ => elem.interpretable_of_spelledBy⟩
  | .map key value =>
    refine interpretable_of_underKey h fun _ hrecord => hrecord.interpretable ?_
    exact List.forall_mem_cons.mpr ⟨fun _ => key.interpretable_of_spelledBy,
      List.forall_mem_singleton.mpr fun _ => value.interpretable_of_spelledBy⟩
  | .selector qualifier _ =>
    refine interpretable_of_underKey h fun _ hrecord => hrecord.interpretable ?_
    exact List.forall_mem_cons.mpr ⟨fun _ => qualifier.interpretable_of_spelledBy,
      List.forall_mem_singleton.mpr fun _ => Json.interpretable_of_spellsText⟩
  | .struct lines =>
    refine interpretable_of_underKey h fun _ hrecord => hrecord.interpretable ?_
    exact List.forall_mem_singleton.mpr fun _ =>
      Json.interpretable_of_list fun _ => interpretable_of_linesSpelledBy lines
  | .paren inner => exact interpretable_of_underKey h fun _ => inner.interpretable_of_spelledBy
  | .func | .interface | .chan => exact interpretable_of_spellsWord h
termination_by structural type

/-- A node that spells a field line has a meaning. -/
theorem FieldLine.interpretable_of_spelledBy (line : FieldLine) {node : Node}
    (h : line.SpelledBy node) : node.Interpretable := by
  match line with
  | ⟨_, type, _⟩ =>
    refine Json.RecordSpells.interpretable h ?_
    exact List.forall_mem_cons.mpr ⟨fun _ =>
      Json.interpretable_of_list Json.interpretable_of_texts,
      List.forall_mem_cons.mpr ⟨fun _ => type.interpretable_of_spelledBy,
        List.forall_mem_singleton.mpr fun _ => Json.interpretable_of_optional⟩⟩
termination_by structural line

/-- Nodes that spell field lines have meanings. -/
theorem interpretable_of_linesSpelledBy (lines : List FieldLine) {nodes : List Node}
    (h : linesSpelledBy lines nodes) : ∀ node ∈ nodes, node.Interpretable := by
  match lines with
  | [] =>
    obtain rfl : nodes = [] := h
    exact List.forall_mem_nil _
  | line :: lines =>
    obtain ⟨node, rest, rfl, hline, hlines⟩ := h
    exact List.forall_mem_cons.mpr ⟨line.interpretable_of_spelledBy hline,
      interpretable_of_linesSpelledBy lines hlines⟩
termination_by structural lines

end

/-! ### Documents -/

/-- The nodes that spell an import. -/
def Import.SpelledBy (i : Import) : Node → Prop :=
  RecordSpells [.optional "name" i.name, .required "path" (SpellsText i.path)]

/-- The nodes that spell a declaration. Its kind is a member like the others. -/
def Declaration.SpelledBy : Declaration → Node → Prop
  | .type name underlying =>
    RecordSpells [.required "kind" (SpellsText "type"), .required "name" (SpellsText name),
      .required "type" underlying.SpelledBy]
  | .func name =>
    RecordSpells [.required "kind" (SpellsText "func"), .required "name" (SpellsText name)]
  | .value names =>
    RecordSpells [.required "kind" (SpellsText "value"),
      .list "names" names (List.Forall₂ SpellsText names)]

/-- The nodes that spell a file. -/
def File.SpelledBy (file : File) : Node → Prop :=
  RecordSpells [.required "name" (SpellsText file.name),
    .list "imports" file.imports (List.Forall₂ Import.SpelledBy file.imports),
    .list "decls" file.declarations (List.Forall₂ Declaration.SpelledBy file.declarations)]

/-- The nodes that spell a package. -/
def Package.SpelledBy (package : Package) : Node → Prop :=
  RecordSpells [.required "name" (SpellsText package.name),
    .list "files" package.files (List.Forall₂ File.SpelledBy package.files)]

/-- The nodes that spell a document. -/
def Document.SpelledBy (document : Document) : Node → Prop :=
  RecordSpells [.list "packages" document.packages
    (List.Forall₂ Package.SpelledBy document.packages)]

end ServiceTypes.Source
