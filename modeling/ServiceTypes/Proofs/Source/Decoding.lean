import ServiceTypes.Proofs.Source.Spelling
import ServiceTypes.Source.Reading

/-!
# `ServiceTypes.Proofs.Source.Decoding`: every spelling of a document is read

Each reader of the source tree returns the tree from every node that spells it,
if the arrays and objects of the node may all be opened. The proofs follow the
tree, not the node: a record is read slot by slot, wherever its members stand.
The theorems:

* `TypeExpr.read_of_spelledBy` / `FieldLine.read_of_spelledBy`: type expressions
  and field lines, by recursion on both.
* `exists_readDeclaration`: a declaration is read by its kind, although all of
  its members are held first.
* `Document.ofText_of_spelledBy`: a text that writes a spelling of a document is
  read as this document.
-/

set_option autoImplicit false

namespace ServiceTypes.Source

open Json (Denotes Error Node Record RecordSpells Slot SpellsText)

/-! ### Type expressions -/

/-- What is read from an object with one key depends on the word that the key denotes. -/
theorem depth_underKey {word : String} {writes : Node → Prop} {node : Node}
    (h : UnderKey word writes node) {depth : Nat} (hdepth : node.depth ≤ depth) :
    ∃ key content below, node = .object [⟨key, content⟩] ∧ Json.RawText.text key = .ok word ∧
      writes content ∧ depth = below + 1 ∧ content.depth ≤ below := by
  obtain ⟨key, content, rfl, hkey, hcontent⟩ := h
  simp only [Node.depth, Json.depthOfMembers, Json.Member.depth, Nat.max_zero] at hdepth
  exact ⟨key, content, depth - 1, rfl, Json.text_of_denotes hkey, hcontent, by omega, by omega⟩

/-- The type expressions without parts and their words. -/
inductive BareWord : String → TypeExpr → Prop where
  | func : BareWord "func" .func
  | interface : BareWord "interface" .interface
  | chan : BareWord "chan" .chan

/-- A type expression without parts is read from its word and from null under its word. -/
theorem read_of_spellsWord (inDeclaration : Bool) {word : String} {type : TypeExpr}
    (hword : BareWord word type) {node : Node} (h : SpellsWord word node) {depth : Nat}
    (hdepth : node.depth ≤ depth) : readTypeExpr inDeclaration depth node = .ok type := by
  rcases h with ⟨raw, rfl, hraw⟩ | h
  · rw [readTypeExpr, Json.text_of_denotes hraw]
    cases hword <;> rfl
  · obtain ⟨key, content, depth, rfl, hkey, rfl, rfl, -⟩ := depth_underKey h hdepth
    unfold readTypeExpr
    refine (Json.bind_of_ok hkey _).trans ?_
    cases hword <;> rfl

mutual

/-- A type expression is read from every node that spells it. -/
theorem TypeExpr.read_of_spelledBy (inDeclaration : Bool) (type : TypeExpr) {node : Node}
    (h : type.SpelledBy node) {depth : Nat} (hdepth : node.depth ≤ depth) :
    readTypeExpr inDeclaration depth node = .ok type := by
  match type with
  | .ident name =>
    obtain ⟨key, content, depth, rfl, hkey, hcontent, rfl, -⟩ := depth_underKey h hdepth
    have hname := Json.readText_of_spellsText hcontent
    unfold readTypeExpr
    refine (Json.bind_of_ok hkey _).trans ?_
    show TypeExpr.ident <$> content.readText = _
    rw [hname]
    rfl
  | .pointer target =>
    obtain ⟨key, content, depth, rfl, hkey, hcontent, rfl, hbelow⟩ := depth_underKey h hdepth
    have htarget := target.read_of_spelledBy inDeclaration hcontent hbelow
    unfold readTypeExpr
    refine (Json.bind_of_ok hkey _).trans ?_
    show TypeExpr.pointer <$> readTypeExpr inDeclaration depth content = _
    rw [htarget]
    rfl
  | .paren inner =>
    obtain ⟨key, content, depth, rfl, hkey, hcontent, rfl, hbelow⟩ := depth_underKey h hdepth
    have hinner := inner.read_of_spelledBy inDeclaration hcontent hbelow
    unfold readTypeExpr
    refine (Json.bind_of_ok hkey _).trans ?_
    show TypeExpr.paren <$> readTypeExpr inDeclaration depth content = _
    rw [hinner]
    rfl
  | .array length elem =>
    obtain ⟨key, content, depth, rfl, hkey, hcontent, rfl, hbelow⟩ := depth_underKey h hdepth
    have hnames : ["len", "elem"].Nodup := by decide
    obtain ⟨depth, r, rfl, hr, hfound⟩ := Record.exists_ofNode hcontent hnames hbelow
    simp only [List.forall_mem_cons] at hfound
    have hlength := hfound.1.optional
    have helem := hfound.2.1.required fun node hnode hdepth =>
      elem.read_of_spelledBy inDeclaration hnode hdepth
    unfold readTypeExpr
    refine (Json.bind_of_ok hkey _).trans ?_
    exact (Json.bind_of_ok hr _).trans <| (Json.bind_of_ok hlength _).trans <|
      Json.bind_of_ok helem _
  | .map key value =>
    obtain ⟨word, content, depth, rfl, hword, hcontent, rfl, hbelow⟩ := depth_underKey h hdepth
    have hnames : ["key", "value"].Nodup := by decide
    obtain ⟨depth, r, rfl, hr, hfound⟩ := Record.exists_ofNode hcontent hnames hbelow
    simp only [List.forall_mem_cons] at hfound
    have hkey := hfound.1.required fun node hnode hdepth =>
      key.read_of_spelledBy inDeclaration hnode hdepth
    have hvalue := hfound.2.1.required fun node hnode hdepth =>
      value.read_of_spelledBy inDeclaration hnode hdepth
    unfold readTypeExpr
    refine (Json.bind_of_ok hword _).trans ?_
    exact (Json.bind_of_ok hr _).trans <| (Json.bind_of_ok hkey _).trans <|
      Json.bind_of_ok hvalue _
  | .selector qualifier name =>
    obtain ⟨key, content, depth, rfl, hkey, hcontent, rfl, hbelow⟩ := depth_underKey h hdepth
    have hnames : ["x", "sel"].Nodup := by decide
    obtain ⟨depth, r, rfl, hr, hfound⟩ := Record.exists_ofNode hcontent hnames hbelow
    simp only [List.forall_mem_cons] at hfound
    have hqualifier := hfound.1.required fun node hnode hdepth =>
      qualifier.read_of_spelledBy inDeclaration hnode hdepth
    have hname := hfound.2.1.required fun node hnode _ => Json.readText_of_spellsText hnode
    unfold readTypeExpr
    refine (Json.bind_of_ok hkey _).trans ?_
    exact (Json.bind_of_ok hr _).trans <| (Json.bind_of_ok hqualifier _).trans <|
      Json.bind_of_ok hname _
  | .struct lines =>
    obtain ⟨key, content, depth, rfl, hkey, hcontent, rfl, hbelow⟩ := depth_underKey h hdepth
    have hnames : ["fields"].Nodup := by decide
    obtain ⟨depth, r, rfl, hr, hfound⟩ := Record.exists_ofNode hcontent hnames hbelow
    simp only [List.forall_mem_cons] at hfound
    have hlines : r.orDefault "fields" [] (Node.readList (readFieldLine inDeclaration) depth)
        = .ok lines := by
      refine hfound.1.list fun nodes hnodes hdepth => ?_
      cases depth with
      | zero => exact absurd hdepth (Nat.not_succ_le_zero _)
      | succ depth =>
        exact mapM_of_linesSpelledBy inDeclaration lines hnodes (Nat.le_of_succ_le_succ hdepth)
    unfold readTypeExpr
    refine (Json.bind_of_ok hkey _).trans ((Json.bind_of_ok hr _).trans ?_)
    -- The reader looks at the depth itself here, where the lines may be left out.
    cases depth <;> exact Json.bind_of_ok hlines _
  | .func => exact read_of_spellsWord inDeclaration .func h hdepth
  | .interface => exact read_of_spellsWord inDeclaration .interface h hdepth
  | .chan => exact read_of_spellsWord inDeclaration .chan h hdepth
termination_by structural type

/-- A field line is read from every node that spells it. -/
theorem FieldLine.read_of_spelledBy (inDeclaration : Bool) (line : FieldLine) {node : Node}
    (h : line.SpelledBy node) {depth : Nat} (hdepth : node.depth ≤ depth) :
    readFieldLine inDeclaration depth node = .ok line := by
  match line with
  | ⟨names, type, tag⟩ =>
    have hnames : ["names", "type", "tag"].Nodup := by decide
    obtain ⟨depth, r, rfl, hr, hfound⟩ := Record.exists_ofNode h hnames hdepth
    simp only [List.forall_mem_cons] at hfound
    have htexts := hfound.1.list fun items hitems hdepth => Json.readTexts_of_forall₂ hitems hdepth
    have htype := hfound.2.1.required fun node hnode hdepth =>
      type.read_of_spelledBy inDeclaration hnode hdepth
    have htag := hfound.2.2.1.optional
    unfold readFieldLine
    exact (Json.bind_of_ok hr _).trans <| (Json.bind_of_ok htexts _).trans <|
      (Json.bind_of_ok htype _).trans <| Json.bind_of_ok htag _
termination_by structural line

/-- Field lines are read back from nodes that spell them, in order. -/
theorem mapM_of_linesSpelledBy (inDeclaration : Bool) (lines : List FieldLine) {nodes : List Node}
    (h : linesSpelledBy lines nodes) {depth : Nat} (hdepth : Json.depthOfItems nodes ≤ depth) :
    nodes.mapM (readFieldLine inDeclaration depth) = .ok lines := by
  match lines with
  | [] =>
    obtain rfl : nodes = [] := h
    rfl
  | line :: lines =>
    obtain ⟨node, rest, rfl, hline, hlines⟩ := h
    rw [Json.depthOfItems, Nat.max_le] at hdepth
    rw [List.mapM_cons, line.read_of_spelledBy inDeclaration hline hdepth.1,
      mapM_of_linesSpelledBy inDeclaration lines hlines hdepth.2]
    rfl
termination_by structural lines

end

/-! ### Declarations -/

/-- Nodes with a meaning can be held, as far as they may be opened. -/
theorem checkInterpretable_of_interpretable {depth : Nat} {nodes : List Node}
    (h : ∀ node ∈ nodes, node.Interpretable ∧ node.depth ≤ depth) :
    checkInterpretable depth nodes = .ok () := by
  unfold checkInterpretable
  induction nodes with
  | nil => rfl
  | cons node nodes ih =>
    obtain ⟨⟨⟨value, hvalue⟩, hdepth⟩, hrest⟩ := List.forall_mem_cons.mp h
    rw [List.forM, Json.Value.ofNode_of_means hvalue hdepth]
    exact ih hrest

/-- A declaration is read by the members of its kind, which may stand anywhere. All members are
held before the kind is known. -/
theorem exists_readDeclaration {kind : String} {slots : List Slot} {node : Node}
    (h : RecordSpells (.required "kind" (SpellsText kind) :: slots) node)
    (hmembers : declarationMembers kind = .ok (slots.map Slot.name))
    (hnames : ("kind" :: slots.map Slot.name).Nodup)
    (hslots : ∀ slot ∈ slots, ∀ node, slot.writes node → node.Interpretable)
    {depth : Nat} (hdepth : node.depth ≤ depth) :
    ∃ below r, readDeclaration depth node = declarationOf below kind r ∧
      ∀ slot ∈ slots, slot.FoundIn r below := by
  obtain ⟨hkind, hothers⟩ := List.nodup_cons.mp hnames
  cases h with
  | @object members pairs hpairs hspell =>
    rw [Node.depth] at hdepth
    obtain ⟨below, rfl⟩ : ∃ below, depth = below + 1 := ⟨depth - 1, by omega⟩
    obtain ⟨hnamed, hparts⟩ := Json.named_of_forall₂ hpairs
    -- The kind is taken out of the members, and the others spell the other slots.
    obtain ⟨kindNode, hfilter, hkindNode⟩ := hspell.filter_eq
    have htail := hspell.filter_ne hkind
    have hmeans := htail.interpretable hslots
    have hless : ∀ pair ∈ pairs.filter fun pair => pair.1 ≠ "kind", pair.2.depth ≤ below := by
      intro pair hpair
      have hpart := hparts pair (List.mem_of_mem_filter hpair)
      omega
    obtain ⟨r, hr, hfound⟩ := Json.exists_ofPairs htail hless
    have hcheck : checkInterpretable below
        ((pairs.filter fun pair => pair.1 ≠ "kind").map Prod.snd) = .ok () := by
      refine checkInterpretable_of_interpretable ?_
      intro node hnode
      obtain ⟨pair, hpair, rfl⟩ := List.mem_map.mp hnode
      exact ⟨hmeans pair hpair, hless pair hpair⟩
    refine ⟨below, r, ?_, hfound⟩
    unfold readDeclaration
    refine (Json.bind_of_ok hnamed _).trans ?_
    simp only [hfilter]
    exact (Json.bind_of_ok (Json.readText_of_spellsText hkindNode) _).trans <|
      (Json.bind_of_ok hcheck _).trans <| (Json.bind_of_ok hmembers _).trans <|
      Json.bind_of_ok hr _
  | @array items hitems =>
    cases hitems with
    | @cons _ first _ rest hfirst hrest =>
      -- In an array the kind comes first, so nothing has to be taken out.
      rw [Node.depth, Json.depthOfItems] at hdepth
      obtain ⟨below, rfl⟩ : ∃ below, depth = below + 1 := ⟨depth - 1, by omega⟩
      have hless : ∀ node ∈ rest, node.depth ≤ below := by
        intro node hnode
        have hpart := Json.depth_le_of_mem hnode
        omega
      obtain ⟨r, hr, hfound⟩ := Json.exists_ofItems hothers hrest hless
      have hcheck : checkInterpretable below rest = .ok () := by
        refine checkInterpretable_of_interpretable fun node hnode => ⟨?_, hless node hnode⟩
        obtain ⟨slot, hslot, hwrites⟩ := Json.exists_mem_of_forall₂ hrest node hnode
        exact hslots slot hslot node hwrites
      refine ⟨below, r, ?_, hfound⟩
      unfold readDeclaration
      exact (Json.bind_of_ok (Json.readText_of_spellsText hfirst) _).trans <|
        (Json.bind_of_ok hcheck _).trans <| (Json.bind_of_ok hmembers _).trans <|
        Json.bind_of_ok hr _

/-- A declaration is read from every node that spells it. -/
theorem Declaration.read_of_spelledBy (declaration : Declaration) (node : Node) (depth : Nat)
    (h : declaration.SpelledBy node) (hdepth : node.depth ≤ depth) :
    readDeclaration depth node = .ok declaration := by
  -- Each kind of declaration has its slots, which are read once the kind is known.
  cases declaration with
  | type name underlying =>
    have hslots : ∀ slot ∈ [Slot.required "name" (SpellsText name),
        .required "type" underlying.SpelledBy], ∀ node, slot.writes node → node.Interpretable :=
      List.forall_mem_cons.mpr ⟨fun _ => Json.interpretable_of_spellsText,
        List.forall_mem_singleton.mpr fun _ => underlying.interpretable_of_spelledBy⟩
    have hnames : ["kind", "name", "type"].Nodup := by decide
    obtain ⟨below, r, hread, hfound⟩ := exists_readDeclaration h rfl hnames hslots hdepth
    simp only [List.forall_mem_cons] at hfound
    have hname := hfound.1.required fun node hnode _ => Json.readText_of_spellsText hnode
    have htype := hfound.2.1.required fun node hnode hdepth =>
      underlying.read_of_spelledBy true hnode hdepth
    rw [hread]
    exact (Json.bind_of_ok hname _).trans (Json.bind_of_ok htype _)
  | func name =>
    have hslots : ∀ slot ∈ [Slot.required "name" (SpellsText name)],
        ∀ node, slot.writes node → node.Interpretable :=
      List.forall_mem_singleton.mpr fun _ => Json.interpretable_of_spellsText
    have hnames : ["kind", "name"].Nodup := by decide
    obtain ⟨below, r, hread, hfound⟩ := exists_readDeclaration h rfl hnames hslots hdepth
    simp only [List.forall_mem_cons] at hfound
    have hname := hfound.1.required fun node hnode _ => Json.readText_of_spellsText hnode
    rw [hread]
    exact Json.bind_of_ok hname _
  | value names =>
    have hslots : ∀ slot ∈ [Slot.list "names" names (List.Forall₂ SpellsText names)],
        ∀ node, slot.writes node → node.Interpretable :=
      List.forall_mem_singleton.mpr fun _ =>
        Json.interpretable_of_list Json.interpretable_of_texts
    have hnames : ["kind", "names"].Nodup := by decide
    obtain ⟨below, r, hread, hfound⟩ := exists_readDeclaration h rfl hnames hslots hdepth
    simp only [List.forall_mem_cons] at hfound
    have htexts := hfound.1.list fun items hitems hdepth => Json.readTexts_of_forall₂ hitems hdepth
    rw [hread]
    exact Json.bind_of_ok htexts _

/-! ### Files, packages, documents -/

/-- An import is read back from a node that spells it. -/
theorem Import.read_of_spelledBy (i : Import) (node : Node) (depth : Nat)
    (h : i.SpelledBy node) (hdepth : node.depth ≤ depth) : readImport depth node = .ok i := by
  have hnames : ["name", "path"].Nodup := by decide
  obtain ⟨below, r, rfl, hr, hfound⟩ := Record.exists_ofNode h hnames hdepth
  simp only [List.forall_mem_cons] at hfound
  have hname := hfound.1.optional
  have hpath := hfound.2.1.required fun node hnode _ => Json.readText_of_spellsText hnode
  exact (Json.bind_of_ok hr _).trans <| (Json.bind_of_ok hname _).trans <|
    Json.bind_of_ok hpath _

/-- A file is read back from a node that spells it. -/
theorem File.read_of_spelledBy (file : File) (node : Node) (depth : Nat)
    (h : file.SpelledBy node) (hdepth : node.depth ≤ depth) : readFile depth node = .ok file := by
  have hnames : ["name", "imports", "decls"].Nodup := by decide
  obtain ⟨below, r, rfl, hr, hfound⟩ := Record.exists_ofNode h hnames hdepth
  simp only [List.forall_mem_cons] at hfound
  have hname := hfound.1.required fun node hnode _ => Json.readText_of_spellsText hnode
  have himports := hfound.2.1.list fun items hitems hdepth =>
    Json.readList_of_forall₂ Import.read_of_spelledBy hitems hdepth
  have hdeclarations := hfound.2.2.1.list fun items hitems hdepth =>
    Json.readList_of_forall₂ Declaration.read_of_spelledBy hitems hdepth
  exact (Json.bind_of_ok hr _).trans <| (Json.bind_of_ok hname _).trans <|
    (Json.bind_of_ok himports _).trans <| Json.bind_of_ok hdeclarations _

/-- A package is read back from a node that spells it. -/
theorem Package.read_of_spelledBy (package : Package) (node : Node) (depth : Nat)
    (h : package.SpelledBy node) (hdepth : node.depth ≤ depth) :
    readPackage depth node = .ok package := by
  have hnames : ["name", "files"].Nodup := by decide
  obtain ⟨below, r, rfl, hr, hfound⟩ := Record.exists_ofNode h hnames hdepth
  simp only [List.forall_mem_cons] at hfound
  have hname := hfound.1.required fun node hnode _ => Json.readText_of_spellsText hnode
  have hfiles := hfound.2.1.list fun items hitems hdepth =>
    Json.readList_of_forall₂ File.read_of_spelledBy hitems hdepth
  exact (Json.bind_of_ok hr _).trans <| (Json.bind_of_ok hname _).trans <|
    Json.bind_of_ok hfiles _

/-- A document is read back from a node that spells it. -/
theorem Document.read_of_spelledBy {document : Document} {node : Node}
    (h : document.SpelledBy node) {depth : Nat} (hdepth : node.depth ≤ depth) :
    readDocument depth node = .ok document := by
  have hnames : ["packages"].Nodup := by decide
  obtain ⟨below, r, rfl, hr, hfound⟩ := Record.exists_ofNode h hnames hdepth
  simp only [List.forall_mem_cons] at hfound
  have hpackages := hfound.1.list fun items hitems hdepth =>
    Json.readList_of_forall₂ Package.read_of_spelledBy hitems hdepth
  exact (Json.bind_of_ok hr _).trans <| Json.bind_of_ok hpackages _

/-- A document is read from every text that writes a node that spells it, as long as its
brackets do not nest too deep. -/
theorem Document.ofText_of_spelledBy {document : Document} {node : Node}
    (h : document.SpelledBy node) {text : List UInt8} (htext : Json.WritesSpaced node text)
    (hdepth : node.depth ≤ Json.nestingLimit) : Document.ofText text = .ok document := by
  unfold Document.ofText
  refine (Json.bind_of_ok (Json.ofText_of_writesSpaced htext) _).trans ?_
  exact Document.read_of_spelledBy h hdepth

/-! ### Mixed spellings -/

/-- The inside of a string that is written without escapes. -/
def plain (s : String) : Json.RawText := (Text.utf8 s).map .octet

/-- An object whose keys are written without escapes. -/
def plainObject (pairs : List (String × Node)) : Node :=
  .object (pairs.map fun pair => ⟨plain pair.1, pair.2⟩)

/-- A text without escapes denotes its own characters. -/
theorem denotes_plain (s : String) : Denotes (plain s) s.toList := by
  unfold plain
  rw [Text.utf8_eq_octetsOf]
  induction s.toList with
  | nil => exact .nil
  | cons c cs ih =>
    have h := ih.octets c
    rw [← List.map_append] at h
    exact h

/-- Whether a text needs no escape. -/
def NeedsNoEscape (s : String) : Prop := ∀ b ∈ Text.utf8 s, Json.Unescaped b

/-- Whether a text needs an escape is decided octet by octet. -/
instance : DecidablePred NeedsNoEscape := fun s =>
  List.decidableBAll Json.Unescaped (Text.utf8 s)

/-- A text that needs no escape is written as its octets. -/
theorem writesRaw_plain {s : String} (h : NeedsNoEscape s) :
    Json.WritesRaw (plain s) (Text.utf8 s) := by
  have hraw := Json.writesRaw_octets h .nil
  rw [List.append_nil, List.append_nil] at hraw
  exact hraw

/-- A text without escapes spells itself. -/
theorem spellsText_plain (s : String) : SpellsText s (.text (plain s)) :=
  ⟨_, rfl, denotes_plain s⟩

/-- Pairs that spell a record do so in an object whose keys are written without escapes. -/
theorem recordSpells_plainObject {slots : List Slot} {pairs : List (String × Node)}
    (h : Json.PairsSpell slots pairs) : RecordSpells slots (plainObject pairs) := by
  refine .object ?_ h
  clear h
  induction pairs with
  | nil => exact .nil
  | cons pair pairs ih => exact .cons ⟨denotes_plain pair.1, rfl⟩ ih

/-- The declaration of a type, with its kind last and its name by a number. -/
def mixedType : Node :=
  plainObject [("name", .text [.unit 0x54]), ("type", plainObject [("star", .text (plain "func"))]),
    ("kind", .text (plain "type"))]

/-- A file without imports, with its name last. -/
def mixedFile : Node :=
  plainObject [("decls", .array [mixedType]), ("name", .text (plain "f.go"))]

/-- A document with an unknown member, and with a package without the names of its members. -/
def mixedNode : Node :=
  plainObject [("n", .number (.ofInt (-1))),
    ("packages", .array [.array [.text (plain "p"), .array [mixedFile]]])]

/-- The text of `mixedNode`, with spaces in a few places. -/
def mixedText : String :=
  "\x7b \"n\" : -1,\"packages\":[[\"p\",[\x7b\"decls\":[" ++
  "\x7b\"name\":\"\\u0054\",\"type\":\x7b\"star\":\"func\"\x7d,\"kind\":\"type\"\x7d" ++
  "],\"name\":\"f.go\"\x7d]]]\x7d\n"

/-- The document that `mixedNode` spells. -/
def mixedDocument : Document := ⟨[⟨"p", [⟨"f.go", [], [.type "T" (.pointer .func)]⟩]⟩]⟩

/-- The kind may come last, and a letter may be written by its number. -/
theorem spelledBy_mixedType : (Declaration.type "T" (.pointer .func)).SpelledBy mixedType := by
  refine recordSpells_plainObject ⟨by decide, ?_, ?_⟩
  · have hkind := spellsText_plain "type"
    have hname : SpellsText "T" (.text [.unit 0x54]) := ⟨_, rfl, .units 'T' .nil⟩
    have htype : (TypeExpr.pointer .func).SpelledBy
        (plainObject [("star", .text (plain "func"))]) :=
      ⟨_, _, rfl, denotes_plain "star", .inl (spellsText_plain "func")⟩
    simp only [List.forall_mem_cons]
    exact ⟨.inl ⟨_, .tail _ (.tail _ (.head _)), hkind⟩, .inl ⟨_, .head _, hname⟩,
      .inl ⟨_, .tail _ (.head _), htype⟩, List.forall_mem_nil _⟩
  · simp only [List.forall_mem_cons]
    exact ⟨fun h => absurd (by decide) h, fun h => absurd (by decide) h,
      fun h => absurd (by decide) h, List.forall_mem_nil _⟩

/-- The imports may be missing, and the name may come last. -/
theorem spelledBy_mixedFile :
    (File.mk "f.go" [] [.type "T" (.pointer .func)]).SpelledBy mixedFile := by
  refine recordSpells_plainObject ⟨by decide, ?_, ?_⟩
  · simp only [List.forall_mem_cons]
    exact ⟨.inl ⟨_, .tail _ (.head _), spellsText_plain "f.go"⟩, .inr ⟨by decide, rfl⟩,
      .inl ⟨_, .head _, ⟨_, rfl, .cons spelledBy_mixedType .nil⟩⟩, List.forall_mem_nil _⟩
  · simp only [List.forall_mem_cons]
    exact ⟨fun h => absurd (by decide) h, fun h => absurd (by decide) h, List.forall_mem_nil _⟩

/-- The package may be an array, and the unknown member does not count. -/
theorem spelledBy_mixedNode : mixedDocument.SpelledBy mixedNode := by
  have hpackage : (Package.mk "p" [⟨"f.go", [], [.type "T" (.pointer .func)]⟩]).SpelledBy
      (.array [.text (plain "p"), .array [mixedFile]]) :=
    .array (.cons (spellsText_plain "p") (.cons ⟨_, rfl, .cons spelledBy_mixedFile .nil⟩ .nil))
  refine recordSpells_plainObject ⟨by decide, ?_, ?_⟩
  · simp only [List.forall_mem_cons]
    exact ⟨.inl ⟨_, .tail _ (.head _), ⟨_, rfl, .cons hpackage .nil⟩⟩, List.forall_mem_nil _⟩
  · simp only [List.forall_mem_cons]
    exact ⟨fun _ => .integer (by decide) (by decide), fun h => absurd (by decide) h,
      List.forall_mem_nil _⟩

/-- The text is one way to write the node. -/
theorem writesSpaced_mixedNode : Json.WritesSpaced mixedNode (Text.utf8 mixedText) := by
  have hzero : Tag.Digit 16 '0' 0 := ⟨by decide, by decide⟩
  have hfive : Tag.Digit 16 '5' 5 := ⟨by decide, by decide⟩
  have hfour : Tag.Digit 16 '4' 4 := ⟨by decide, by decide⟩
  have hname : Tag.Numeral 16 ['0', '0', '5', '4'] 0x54 :=
    (((Tag.Numeral.nil.concat hzero).concat hzero).concat hfive).concat hfour
  have hnone : Json.Spaces [] := List.forall_mem_nil _
  have hblank : Json.Spaces [0x20] := List.forall_mem_singleton.mpr (by decide)
  have hend : Json.Spaces [0x0A] := List.forall_mem_singleton.mpr (by decide)
  have hmember : ∀ (key : String) {value : Node} {octets : List UInt8}, NeedsNoEscape key →
      Json.Writes value octets → Json.WritesMember ⟨plain key, value⟩ _ :=
    fun _ _ _ hkey hvalue => .intro hnone (writesRaw_plain hkey) hnone (.ofWrites hvalue)
  -- The kind stands behind the members that it decides about.
  have htype : Json.Writes mixedType _ :=
    .object (.cons (hmember "name" (by decide) (.text (.unit rfl hname .nil)))
      (.cons (hmember "type" (by decide) (.object (.last (hmember "star" (by decide)
        (.text (writesRaw_plain (by decide)))))))
      (.last (hmember "kind" (by decide) (.text (writesRaw_plain (by decide)))))))
  have hfile : Json.Writes mixedFile _ :=
    .object (.cons (hmember "decls" (by decide) (.array (.last (.ofWrites htype))))
      (.last (hmember "name" (by decide) (.text (writesRaw_plain (by decide))))))
  have hpackages : Json.Writes (.array [.array [.text (plain "p"), .array [mixedFile]]]) _ :=
    .array (.last (.ofWrites (.array (.cons (.ofWrites (.text (writesRaw_plain (by decide))))
      (.last (.ofWrites (.array (.last (.ofWrites hfile)))))))))
  -- The unknown member has blanks around its key and before its value.
  have hunknown : Json.WritesMember ⟨plain "n", .number (.ofInt (-1))⟩ _ :=
    .intro hblank (writesRaw_plain (by decide)) hblank (.intro hblank (.integer (-1)) hnone)
  exact .intro hnone (.object (.cons hunknown (.last (hmember "packages" (by decide) hpackages))))
    hend

/-- The document is read from this text. -/
theorem Document.ofText_mixedText :
    Document.ofText (Text.utf8 mixedText) = .ok mixedDocument :=
  Document.ofText_of_spelledBy spelledBy_mixedNode writesSpaced_mixedNode (by decide)

end ServiceTypes.Source
