import Mathlib.Data.List.Forall2
import ServiceTypes.Json.Record
import ServiceTypes.Proofs.Json.Meaning
import ServiceTypes.Proofs.Keyed

/-!
# `ServiceTypes.Proofs.Json.Record`: the spellings of records

A record can be written as an object, with its members in any order, some of
them left out and others added, or as an array. `RecordSpells` says so without
reading, from one `Slot` for each member. The theorems:

* `Record.exists_ofNode`: a spelling of a record has a record, in which each
  slot is found or lacks where it may.
* `Slot.FoundIn.required`, `Slot.FoundIn.orDefault`, `Slot.FoundIn.optional`:
  what is read for a slot that is found.
* `RecordSpells.interpretable`: a spelling has an interpretation if the nodes in
  its slots have one.
-/

set_option autoImplicit false

namespace ServiceTypes.Json

/-! ### Slots -/

/-- A member of a record: its name, the nodes that may stand for it, and whether it may be
left out. -/
structure Slot where
  name : String
  writes : Node → Prop
  mayLack : Prop

/-- A string node denotes a text. -/
def SpellsText (s : String) (node : Node) : Prop :=
  ∃ raw, node = .text raw ∧ Denotes raw s.toList

namespace Slot

/-- A member without default. -/
def required (name : String) (writes : Node → Prop) : Slot where
  name := name
  writes := writes
  mayLack := False

/-- A text that may be absent: then null may stand for it, and it may be left out. -/
def optional (name : String) (value : Option String) : Slot where
  name := name
  writes node :=
    match value with
    | none => node = .null
    | some s => SpellsText s node
  mayLack := value = none

/-- A list, which may be left out when it is empty. -/
def list {α : Type} (name : String) (values : List α) (writes : List Node → Prop) : Slot where
  name := name
  writes node := ∃ items, node = .array items ∧ writes items
  mayLack := values = []

end Slot

/-! ### Spellings -/

/-- What may stand under a name that a record does not know: null, a boolean, a string or an
integer of 64 bits with its sign. -/
inductive Harmless : Node → Prop where
  | null : Harmless .null
  | bool (b : Bool) : Harmless (.bool b)
  | text {raw : RawText} {s : String} : Denotes raw s.toList → Harmless (.text raw)
  | integer {n : Int} : -(signWeight : Int) ≤ n → n < signWeight → Harmless (.number (.ofInt n))

/-- Pairs spell the members of a record, in any order: a known name stands there at most once,
with a node of its slot, and may be missing only where its slot may lack. -/
structure PairsSpell (slots : List Slot) (pairs : List (String × Node)) : Prop where
  once : ((pairs.filter fun pair => pair.1 ∈ slots.map Slot.name).map Prod.fst).Nodup
  known : ∀ slot ∈ slots, (∃ node, (slot.name, node) ∈ pairs ∧ slot.writes node) ∨
    slot.name ∉ pairs.map Prod.fst ∧ slot.mayLack
  unknown : ∀ pair ∈ pairs, pair.1 ∉ slots.map Slot.name → Harmless pair.2

/-- The nodes that spell a record: objects, and arrays of all members in order. -/
inductive RecordSpells (slots : List Slot) : Node → Prop where
  | object {members : List Member} {pairs : List (String × Node)} :
    List.Forall₂ (fun m pair => Denotes m.key pair.1.toList ∧ m.value = pair.2) members pairs →
      PairsSpell slots pairs → RecordSpells slots (.object members)
  | array {items : List Node} :
    List.Forall₂ (fun slot item => slot.writes item) slots items → RecordSpells slots (.array items)

/-! ### Finding the members -/

/-- What is found for a slot: a node of the slot that opens at most `depth` arrays and objects,
or nothing if the slot may lack. -/
def Slot.FoundIn (slot : Slot) (r : Record) (depth : Nat) : Prop :=
  match r.members.lookup slot.name with
  | some node => slot.writes node ∧ node.depth ≤ depth
  | none => slot.mayLack

/-- Names that are all different have no first one that comes again. -/
theorem firstRepeated?_of_nodup {names : List String} (h : names.Nodup) :
    firstRepeated? names = none := by
  induction names with
  | nil => rfl
  | cons name names ih =>
    obtain ⟨hname, hnames⟩ := List.nodup_cons.mp h
    rw [firstRepeated?, if_neg hname, ih hnames]

/-- In pairs that spell a record, what is found for a slot is the node that stands there under
its name. -/
theorem foundIn_of_pairsSpell {slots : List Slot} {pairs : List (String × Node)}
    (h : PairsSpell slots pairs) {depth : Nat} (hdepth : ∀ pair ∈ pairs, pair.2.depth ≤ depth)
    {slot : Slot} (hslot : slot ∈ slots) :
    slot.FoundIn ⟨pairs.filter fun pair => pair.1 ∈ slots.map Slot.name⟩ depth := by
  have hname : slot.name ∈ slots.map Slot.name := List.mem_map_of_mem hslot
  unfold Slot.FoundIn
  rcases h.known slot hslot with ⟨node, hmem, hwrites⟩ | ⟨hmissing, hlack⟩
  · have hfound := (lookup_eq_some_iff_of_nodup h.once slot.name node).mpr
      (List.mem_filter.mpr ⟨hmem, decide_eq_true hname⟩)
    rw [hfound]
    exact ⟨hwrites, hdepth _ hmem⟩
  · -- What is left out is not among the known pairs either.
    have hnone : slot.name ∉ (pairs.filter fun pair => pair.1 ∈ slots.map Slot.name).map Prod.fst :=
      fun hmem => hmissing ((List.filter_sublist.map Prod.fst).subset hmem)
    rw [lookup_eq_none_iff_notMem.mpr hnone]
    exact hlack

/-- Pairs that spell a record have a record. -/
theorem exists_ofPairs {slots : List Slot} {pairs : List (String × Node)}
    (h : PairsSpell slots pairs) {depth : Nat} (hdepth : ∀ pair ∈ pairs, pair.2.depth ≤ depth) :
    ∃ r, Record.ofPairs (slots.map Slot.name) pairs = .ok r ∧
      ∀ slot ∈ slots, slot.FoundIn r depth := by
  refine ⟨_, ?_, fun slot hslot => foundIn_of_pairsSpell h hdepth hslot⟩
  unfold Record.ofPairs
  simp only [firstRepeated?_of_nodup h.once]

section

variable {name : String} {writes : Node → Prop} {slots : List Slot} {pairs : List (String × Node)}

/-- A member without default stands in the pairs once. -/
theorem PairsSpell.filter_eq (h : PairsSpell (.required name writes :: slots) pairs) :
    ∃ node, pairs.filter (fun pair => pair.1 = name) = [(name, node)] ∧ writes node := by
  rcases h.known _ List.mem_cons_self with ⟨node, hmem, hwrites⟩ | ⟨-, hlack⟩
  · replace hmem : (name, node) ∈ pairs := hmem
    have hsingle := filter_eq_singleton_of_nodup h.once
      (List.mem_filter.mpr ⟨hmem, decide_eq_true List.mem_cons_self⟩)
    rw [List.filter_filter] at hsingle
    refine ⟨node, Eq.trans (List.filter_congr fun pair _ => ?_) hsingle, hwrites⟩
    by_cases heq : pair.1 = name <;> simp [heq, Slot.required]
  · exact absurd hlack not_false

/-- The pairs of other names spell the other slots. -/
theorem PairsSpell.filter_ne (h : PairsSpell (.required name writes :: slots) pairs)
    (hname : name ∉ slots.map Slot.name) :
    PairsSpell slots (pairs.filter fun pair => pair.1 ≠ name) where
  once := by
    -- Among fewer pairs the known names are met at most once still.
    rw [List.filter_filter]
    refine h.once.sublist (List.Sublist.map Prod.fst (List.monotone_filter_right pairs ?_))
    intro pair hpair
    simp only [Bool.and_eq_true, decide_eq_true_eq] at hpair ⊢
    exact List.mem_cons_of_mem name hpair.1
  known := by
    intro slot hslot
    -- The other slots keep their pairs, since no two slots share a name.
    have hne : slot.name ≠ name := fun heq => hname (heq ▸ List.mem_map_of_mem hslot)
    rcases h.known slot (List.mem_cons_of_mem _ hslot) with
      ⟨node, hmem, hwrites⟩ | ⟨hmissing, hlack⟩
    · exact .inl ⟨node, List.mem_filter.mpr ⟨hmem, decide_eq_true hne⟩, hwrites⟩
    · exact .inr ⟨fun hmem => hmissing ((List.filter_sublist.map Prod.fst).subset hmem), hlack⟩
  unknown := by
    intro pair hpair hunknown
    obtain ⟨hmem, hne⟩ := List.mem_filter.mp hpair
    refine h.unknown pair hmem fun hknown => ?_
    rcases List.mem_cons.mp hknown with heq | hknown
    · exact of_decide_eq_true hne heq
    · exact hunknown hknown

end

/-- Each slot has a node that stands at its place. -/
theorem exists_mem_zip {slots : List Slot} {items : List Node}
    (h : List.Forall₂ (fun slot item => slot.writes item) slots items) :
    ∀ slot ∈ slots, ∃ node, (slot.name, node) ∈ (slots.map Slot.name).zip items ∧
      slot.writes node := by
  induction h with
  | nil => exact fun slot hslot => nomatch hslot
  | @cons slot item slots items hwrites _ ih =>
    intro other hother
    rcases List.mem_cons.mp hother with rfl | hother
    · exact ⟨item, List.mem_cons_self, hwrites⟩
    · obtain ⟨node, hmem, hnode⟩ := ih other hother
      exact ⟨node, List.mem_cons_of_mem _ hmem, hnode⟩

/-- Items for all slots have a record. -/
theorem exists_ofItems {slots : List Slot} (hnames : (slots.map Slot.name).Nodup)
    {items : List Node} (h : List.Forall₂ (fun slot item => slot.writes item) slots items)
    {depth : Nat} (hdepth : ∀ item ∈ items, item.depth ≤ depth) :
    ∃ r, Record.ofItems (slots.map Slot.name) items = .ok r ∧
      ∀ slot ∈ slots, slot.FoundIn r depth := by
  have hlength : items.length = (slots.map Slot.name).length := by
    rw [List.length_map, h.length_eq]
  have hkeys : ((slots.map Slot.name).zip items).map Prod.fst = slots.map Slot.name :=
    List.map_fst_zip (Nat.le_of_eq hlength.symm)
  -- Items have no names of their own, so none of them is unknown.
  have hknown : ∀ pair ∈ (slots.map Slot.name).zip items, pair.1 ∈ slots.map Slot.name :=
    fun pair hpair => (List.of_mem_zip hpair).1
  have hall := List.filter_eq_self.mpr fun pair hpair => decide_eq_true (hknown pair hpair)
  have hspell : PairsSpell slots ((slots.map Slot.name).zip items) := by
    refine ⟨?_, fun slot hslot => .inl (exists_mem_zip h slot hslot), fun pair hpair hunknown =>
      absurd (hknown pair hpair) hunknown⟩
    rw [hall, hkeys]
    exact hnames
  refine ⟨_, if_pos (Nat.le_of_eq hlength), fun slot hslot => ?_⟩
  have hfound := foundIn_of_pairsSpell hspell
    (fun pair hpair => hdepth pair.2 (List.of_mem_zip hpair).2) hslot
  rw [hall] at hfound
  exact hfound

/-! ### Parts are less deep -/

/-- An item is nested no deeper than the deepest one. -/
theorem depth_le_of_mem {node : Node} {items : List Node} (h : node ∈ items) :
    node.depth ≤ depthOfItems items := by
  induction items with
  | nil => cases h
  | cons item items ih =>
    rw [depthOfItems]
    rcases List.mem_cons.mp h with rfl | hmem
    · exact Nat.le_max_left _ _
    · exact Nat.le_trans (ih hmem) (Nat.le_max_right _ _)

/-- The members of an object are read with their names. -/
theorem named_of_forall₂ {members : List Member} {pairs : List (String × Node)}
    (h : List.Forall₂ (fun m pair => Denotes m.key pair.1.toList ∧ m.value = pair.2)
      members pairs) :
    Member.named members = .ok pairs ∧ ∀ pair ∈ pairs, pair.2.depth ≤ depthOfMembers members := by
  induction h with
  | nil => exact ⟨rfl, List.forall_mem_nil _⟩
  | @cons m pair members pairs hpair _ ih =>
    obtain ⟨key, value⟩ := m
    obtain ⟨name, node⟩ := pair
    obtain ⟨hkey, rfl⟩ := hpair
    obtain ⟨hnamed, hdepth⟩ := ih
    constructor
    · -- The keys are read, and the values are left as they are.
      unfold Member.named at hnamed ⊢
      rw [List.mapM_cons, text_of_denotes hkey, hnamed]
      rfl
    · rw [depthOfMembers, Member.depth]
      exact List.forall_mem_cons.mpr ⟨Nat.le_max_left _ _, fun other hother =>
        Nat.le_trans (hdepth other hother) (Nat.le_max_right _ _)⟩

/-- A node that spells a record has a record, in which each slot is found or may lack. The
record itself is open around its members. -/
theorem Record.exists_ofNode {slots : List Slot} {node : Node} (h : RecordSpells slots node)
    (hnames : (slots.map Slot.name).Nodup) {depth : Nat} (hdepth : node.depth ≤ depth) :
    ∃ below r, depth = below + 1 ∧ Record.ofNode (slots.map Slot.name) node = .ok r ∧
      ∀ slot ∈ slots, slot.FoundIn r below := by
  cases h with
  | @object members pairs hpairs hspell =>
    obtain ⟨hnamed, hparts⟩ := named_of_forall₂ hpairs
    rw [Node.depth] at hdepth
    obtain ⟨r, hr, hfound⟩ := exists_ofPairs hspell fun pair hpair =>
      Nat.le_trans (hparts pair hpair) (Nat.le_sub_one_of_lt hdepth)
    -- The keys are read before any slot is looked up.
    have hnode : Record.ofNode (slots.map Slot.name) (.object members) = .ok r := by
      show (Member.named members >>= Record.ofPairs (slots.map Slot.name)) = _
      rw [hnamed]
      exact hr
    exact ⟨depth - 1, r, by omega, hnode, hfound⟩
  | @array items hitems =>
    rw [Node.depth] at hdepth
    obtain ⟨r, hr, hfound⟩ := exists_ofItems hnames hitems fun item hitem =>
      Nat.le_trans (depth_le_of_mem hitem) (Nat.le_sub_one_of_lt hdepth)
    exact ⟨depth - 1, r, by omega, hr, hfound⟩

/-! ### Reading the members -/

/-- A step that succeeds hands its result on. -/
theorem bind_of_ok {α β : Type} {x : Except Error α} {a : α} (h : x = .ok a)
    (next : α → Except Error β) : x >>= next = next a := by
  rw [h]
  rfl

/-- A text is read back from a node that spells it. -/
theorem readText_of_spellsText {s : String} {node : Node} (h : SpellsText s node) :
    node.readText = .ok s := by
  obtain ⟨raw, rfl, hraw⟩ := h
  exact text_of_denotes hraw

/-- An array is read item by item, if each item that spells a value is read as this value. -/
theorem mapM_of_forall₂ {α : Type} {spells : α → Node → Prop} {read : Node → Except Error α}
    {values : List α} {items : List Node} (h : List.Forall₂ spells values items)
    (hread : ∀ value, ∀ node ∈ items, spells value node → read node = .ok value) :
    items.mapM read = .ok values := by
  induction h with
  | nil => rfl
  | @cons value node values items hspells _ ih =>
    have hnode := hread value node List.mem_cons_self hspells
    have hitems := ih fun value node hmem => hread value node (List.mem_cons_of_mem _ hmem)
    rw [List.mapM_cons, hnode, hitems]
    rfl

/-- Reading a list opens an array. -/
theorem readList_of_forall₂ {α : Type} {spells : α → Node → Prop}
    {read : Nat → Node → Except Error α}
    (hread : ∀ value node depth, spells value node → node.depth ≤ depth →
      read depth node = .ok value)
    {values : List α} {items : List Node} (h : List.Forall₂ spells values items) {depth : Nat}
    (hdepth : (Node.array items).depth ≤ depth) :
    Node.readList read depth (.array items) = .ok values := by
  rw [Node.depth] at hdepth
  cases depth with
  | zero => omega
  | succ depth =>
    exact mapM_of_forall₂ h fun value node hmem hspells =>
      hread value node depth hspells (Nat.le_trans (depth_le_of_mem hmem) (by omega))

/-- A list of texts is read back from nodes that spell them. -/
theorem readTexts_of_forall₂ {texts : List String} {items : List Node}
    (h : List.Forall₂ SpellsText texts items) {depth : Nat}
    (hdepth : (Node.array items).depth ≤ depth) :
    Node.readTexts depth (.array items) = .ok texts := by
  have hread : ∀ s node depth, SpellsText s node → node.depth ≤ depth →
      (fun (_ : Nat) => Node.readText) depth node = .ok s := by
    intro s node _ hspells _
    exact readText_of_spellsText hspells
  exact readList_of_forall₂ hread h hdepth

namespace Slot.FoundIn

variable {r : Record} {depth : Nat} {α : Type}

/-- A member without default is read from its node. -/
theorem required {name : String} {writes : Node → Prop}
    (h : (Slot.required name writes).FoundIn r depth) {read : Node → Except Error α} {value : α}
    (hread : ∀ node, writes node → node.depth ≤ depth → read node = .ok value) :
    r.required name read = .ok value := by
  unfold Slot.FoundIn Slot.required at h
  unfold Record.required
  cases hlookup : r.members.lookup name with
  | none =>
    simp only [hlookup] at h
  | some node =>
    simp only [hlookup] at h ⊢
    exact hread node h.1 h.2

/-- A text is read from its node, and null or nothing is read as no text. -/
theorem optional {name : String} {value : Option String}
    (h : (Slot.optional name value).FoundIn r depth) :
    r.optional name Node.readText = .ok value := by
  unfold Slot.FoundIn Slot.optional at h
  unfold Record.optional
  -- A missing text may be left out or written as null. A given one has to be there.
  cases value with
  | none =>
    cases hlookup : r.members.lookup name with
    | none => rfl
    | some node =>
      simp only [hlookup] at h
      rw [h.1]
  | some s =>
    cases hlookup : r.members.lookup name with
    | none =>
      simp only [hlookup] at h
      cases h
    | some node =>
      simp only [hlookup] at h
      obtain ⟨raw, rfl, hraw⟩ := h.1
      show some <$> RawText.text raw = _
      rw [text_of_denotes hraw]
      rfl

/-- A list is read from its array, and nothing is read as the empty list. -/
theorem list {name : String} {values : List α} {writes : List Node → Prop}
    (h : (Slot.list name values writes).FoundIn r depth) {read : Node → Except Error (List α)}
    (hread : ∀ items, writes items → (Node.array items).depth ≤ depth →
      read (.array items) = .ok values) :
    r.orDefault name [] read = .ok values := by
  unfold Slot.FoundIn Slot.list at h
  unfold Record.orDefault
  cases hlookup : r.members.lookup name with
  | none =>
    simp only [hlookup] at h ⊢
    rw [h]
  | some node =>
    simp only [hlookup] at h ⊢
    obtain ⟨⟨items, rfl, hitems⟩, hdepth⟩ := h
    exact hread items hitems hdepth

end Slot.FoundIn

/-! ### Interpretations -/

/-- Each member of the second list is related to one of the first. -/
theorem exists_mem_of_forall₂ {α β : Type} {related : α → β → Prop} {as : List α} {bs : List β}
    (h : List.Forall₂ related as bs) : ∀ b ∈ bs, ∃ a ∈ as, related a b := by
  induction h with
  | nil => exact fun b hb => nomatch hb
  | @cons a b as bs hab _ ih =>
    refine List.forall_mem_cons.mpr ⟨⟨a, List.mem_cons_self, hab⟩, fun other hother => ?_⟩
    obtain ⟨a', hmem, hrelated⟩ := ih other hother
    exact ⟨a', List.mem_cons_of_mem a hmem, hrelated⟩

/-- A node means some value. -/
def Node.Interpretable (node : Node) : Prop := ∃ value, Means node value

/-- A node that spells a text means it. -/
theorem interpretable_of_spellsText {s : String} {node : Node} (h : SpellsText s node) :
    node.Interpretable := by
  obtain ⟨raw, rfl, hraw⟩ := h
  exact ⟨.text s, .text hraw⟩

/-- A harmless node has a meaning. -/
theorem Harmless.interpretable {node : Node} (h : Harmless node) : node.Interpretable := by
  cases h with
  | null => exact ⟨.null, .null⟩
  | bool b => exact ⟨.bool b, .bool b⟩
  | @text raw s hraw => exact ⟨.text s, .text hraw⟩
  | @integer n hlow hhigh =>
    have hfits : FitsWord n := ⟨hlow, Int.lt_trans hhigh (by decide)⟩
    exact ⟨.number (.integer n), .integer hfits⟩

/-- An array has a meaning if each item has one. -/
theorem interpretable_array {items : List Node} (h : ∀ node ∈ items, node.Interpretable) :
    (Node.array items).Interpretable := by
  have hitems : ∃ values, MeansItems items values := by
    induction items with
    | nil => exact ⟨[], .nil⟩
    | cons node items ih =>
      obtain ⟨⟨value, hvalue⟩, hrest⟩ := List.forall_mem_cons.mp h
      obtain ⟨values, hvalues⟩ := ih hrest
      exact ⟨value :: values, .cons hvalue hvalues⟩
  obtain ⟨values, hvalues⟩ := hitems
  exact ⟨.array values, .array hvalues⟩

/-- An object has a meaning if its keys denote texts and each value has a meaning. -/
theorem interpretable_object {members : List Member} {pairs : List (String × Node)}
    (hnamed : List.Forall₂ (fun m pair => Denotes m.key pair.1.toList ∧ m.value = pair.2)
      members pairs) (h : ∀ pair ∈ pairs, pair.2.Interpretable) :
    (Node.object members).Interpretable := by
  have hmembers : ∃ entries, MeansMembers members entries := by
    induction hnamed with
    | nil => exact ⟨[], .nil⟩
    | @cons m pair members pairs hpair _ ih =>
      obtain ⟨key, value⟩ := m
      obtain ⟨hkey, rfl⟩ := hpair
      obtain ⟨⟨meaning, hmeaning⟩, hrest⟩ := List.forall_mem_cons.mp h
      obtain ⟨entries, hentries⟩ := ih hrest
      exact ⟨(pair.1, meaning) :: entries, .cons hkey hmeaning hentries⟩
  obtain ⟨entries, hentries⟩ := hmembers
  exact ⟨.object (ofEntries entries), .object hentries⟩

/-- A node that an optional text is written to has a meaning. -/
theorem interpretable_of_optional {name : String} {value : Option String} {node : Node}
    (h : (Slot.optional name value).writes node) : node.Interpretable := by
  cases value with
  | none => exact ⟨.null, h ▸ .null⟩
  | some s => exact interpretable_of_spellsText h

/-- A node that a list is written to has a meaning if each item has one. -/
theorem interpretable_of_list {α : Type} {name : String} {values : List α}
    {writes : List Node → Prop}
    (hwrites : ∀ items, writes items → ∀ node ∈ items, node.Interpretable) {node : Node}
    (h : (Slot.list name values writes).writes node) : node.Interpretable := by
  obtain ⟨items, rfl, hitems⟩ := h
  exact interpretable_array (hwrites items hitems)

/-- Nodes that spell texts have meanings. -/
theorem interpretable_of_texts {texts : List String} (items : List Node)
    (h : List.Forall₂ SpellsText texts items) : ∀ node ∈ items, node.Interpretable := by
  intro node hnode
  obtain ⟨s, -, hs⟩ := exists_mem_of_forall₂ h node hnode
  exact interpretable_of_spellsText hs

/-- All nodes in pairs that spell a record have a meaning, the unknown ones as well. -/
theorem PairsSpell.interpretable {slots : List Slot} {pairs : List (String × Node)}
    (h : PairsSpell slots pairs)
    (hslots : ∀ slot ∈ slots, ∀ node, slot.writes node → node.Interpretable) :
    ∀ pair ∈ pairs, pair.2.Interpretable := by
  intro pair hpair
  by_cases hname : pair.1 ∈ slots.map Slot.name
  · obtain ⟨slot, hslot, heq⟩ := List.mem_map.mp hname
    rcases h.known slot hslot with ⟨node, hmem, hwrites⟩ | ⟨hmissing, -⟩
    · -- A known name stands there once, so this is the node of the slot.
      have hown := (lookup_eq_some_iff_of_nodup h.once pair.1 pair.2).mpr
        (List.mem_filter.mpr ⟨hpair, decide_eq_true hname⟩)
      have hfound := (lookup_eq_some_iff_of_nodup h.once pair.1 node).mpr
        (List.mem_filter.mpr ⟨heq ▸ hmem, decide_eq_true hname⟩)
      rw [Option.some.inj (hown.symm.trans hfound)]
      exact hslots slot hslot node hwrites
    · exact absurd (heq ▸ List.mem_map_of_mem hpair) hmissing
  · exact (h.unknown pair hpair hname).interpretable

/-- A spelling of a record has a meaning if the nodes in its slots have one. -/
theorem RecordSpells.interpretable {slots : List Slot} {node : Node} (h : RecordSpells slots node)
    (hslots : ∀ slot ∈ slots, ∀ node, slot.writes node → node.Interpretable) :
    node.Interpretable := by
  cases h with
  | object hnamed hspell => exact interpretable_object hnamed (hspell.interpretable hslots)
  | array hitems =>
    refine interpretable_array fun item hitem => ?_
    obtain ⟨slot, hslot, hwrites⟩ := exists_mem_of_forall₂ hitems item hitem
    exact hslots slot hslot item hwrites

end ServiceTypes.Json
