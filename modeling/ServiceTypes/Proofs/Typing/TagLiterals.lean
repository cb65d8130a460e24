import ServiceTypes.Proofs.Tag.Sequence
import ServiceTypes.Proofs.Typing.Lines

/-!
# `ServiceTypes.Proofs.Typing.TagLiterals`: the two kinds of tag literals

A tag is written raw between backticks or interpreted between double quotes,
where quotes and backslashes of the tag are escaped once more. Both kinds mean
the same. The theorems:

* `encodingOf_of_tagText`: a tag counts by the text that its literal stands
  for, but for the literal that a report quotes.
* `result_fieldsOf_of_tag` / `events_fieldsOf_of_tag`: what the lines of a struct
  give around a line with a tag.
* `fieldsOf_of_literalOf`: all literals of a text give the same fields, and
  the value that an entry of the tag key spells is the one that counts.
-/

set_option autoImplicit false

namespace ServiceTypes

open Model (Field FieldType)
open Source (FieldLine TypeExpr isExported)
open Tag (Encoding Entry Holds LiteralOf Numeral SpanBody Spells)

/-- Two readings of a line that agree in all but the literal that a report about the field
quotes. -/
structure AgreeUpToLiteral (field literal literal' : String) (r r' : Reported (List Field)) :
    Prop where
  result : r.result = r'.result
  events : r.events = r'.events ∨ ∃ before after,
    r.events = before ++ .undecodableTag field literal :: after ∧
      r'.events = before ++ .undecodableTag field literal' :: after

namespace Scope

variable (scope : Scope) (owner : String)

/-- A tag counts by the text that its literal stands for. -/
theorem encodingOf_of_tagText (field : String) {literal text : String}
    (h : Tag.tagText literal = .ok text) :
    scope.encodingOf field literal
      = match Tag.find scope.tagKey.toList text.toList with
        | .found value => pure (Encoding.ofValue? value)
        | .missing => pure none
        | .undecodable _ => do
          Reported.report (.undecodableTag field literal)
          return none := by
  cases hfind : Tag.find scope.tagKey.toList text.toList <;> simp only [encodingOf, h, hfind]

section Line

variable {names others : List String} {first : String} {type : TypeExpr} {fieldType : FieldType}

/-- A line with a tag gives a field for each exported name, with the encoding that is read from the
tag, between the fields of the lines around it. -/
theorem result_fieldsOf_of_tag (hexported : names.filter isExported = first :: others)
    (htype : (scope.typeOf first type).result = some fieldType) (literal : String)
    (before after : List FieldLine) :
    (scope.fieldsOf owner (before ++ ⟨names, type, some literal⟩ :: after)).result
      = (scope.fieldsOf owner before).result
        ++ ((first :: others).map fun name =>
          ⟨name, fieldType, (scope.encodingOf first literal).result⟩)
        ++ (scope.fieldsOf owner after).result := by
  rw [result_fieldsOf_append, fieldsOf, scope.fieldsOfLine_of_exported owner hexported,
    List.append_assoc]
  simp only [Reported.result_bind, htype]
  rfl

/-- The reports on the tag come behind those on the type. -/
theorem events_fieldsOf_of_tag (hexported : names.filter isExported = first :: others)
    (htype : (scope.typeOf first type).result = some fieldType) (literal : String)
    (before after : List FieldLine) :
    (scope.fieldsOf owner (before ++ ⟨names, type, some literal⟩ :: after)).events
      = (scope.fieldsOf owner before).events ++ (scope.typeOf first type).events
        ++ (scope.encodingOf first literal).events ++ (scope.fieldsOf owner after).events := by
  rw [events_fieldsOf_append, fieldsOf, scope.fieldsOfLine_of_exported owner hexported]
  simp only [Reported.events_bind, Reported.events_pure, htype, List.append_nil,
    List.append_assoc, encodingOfTag]

/-- All literals of a text give a line the same fields, and the same reports but for the literal
that one of them may quote. If the text is a sequence of entries whose first one under the tag
key spells a value, the line has the encoding of that value and nothing is reported about its
tag, whatever the entries around hold. -/
theorem fieldsOf_of_literalOf (hexported : names.filter isExported = first :: others)
    (htype : (scope.typeOf first type).result = some fieldType) (text : String)
    (before after : List FieldLine) :
    (∀ literal literal', LiteralOf text literal → LiteralOf text literal' →
      AgreeUpToLiteral first literal literal'
        (scope.fieldsOf owner (before ++ ⟨names, type, some literal⟩ :: after))
        (scope.fieldsOf owner (before ++ ⟨names, type, some literal'⟩ :: after))) ∧
    (∀ value, Holds scope.tagKey.toList value text.toList →
      ∀ literal, LiteralOf text literal →
        (scope.fieldsOf owner (before ++ ⟨names, type, some literal⟩ :: after)).result
            = (scope.fieldsOf owner before).result
              ++ ((first :: others).map fun name =>
                ⟨name, fieldType, Encoding.ofValue? value⟩)
              ++ (scope.fieldsOf owner after).result ∧
        (scope.fieldsOf owner (before ++ ⟨names, type, some literal⟩ :: after)).events
            = (scope.fieldsOf owner before).events ++ (scope.typeOf first type).events
              ++ (scope.fieldsOf owner after).events) := by
  constructor
  · intro literal literal' hliteral hliteral'
    have hread := scope.encodingOf_of_tagText first (Tag.tagText_of_literalOf hliteral)
    have hread' := scope.encodingOf_of_tagText first (Tag.tagText_of_literalOf hliteral')
    constructor
    · rw [scope.result_fieldsOf_of_tag owner hexported htype,
        scope.result_fieldsOf_of_tag owner hexported htype, hread, hread']
      cases Tag.find scope.tagKey.toList text.toList <;> rfl
    · rw [scope.events_fieldsOf_of_tag owner hexported htype,
        scope.events_fieldsOf_of_tag owner hexported htype, hread, hread']
      -- Only a value that does not decode is reported.
      cases Tag.find scope.tagKey.toList text.toList with
      | found value => exact .inl rfl
      | missing => exact .inl rfl
      | undecodable cause =>
        refine .inr ⟨(scope.fieldsOf owner before).events ++ (scope.typeOf first type).events,
          (scope.fieldsOf owner after).events, ?_, ?_⟩
        · exact List.append_assoc _ [_] _
        · exact List.append_assoc _ [_] _
  · intro value hholds literal hliteral
    have hread := scope.encodingOf_of_tagText first (Tag.tagText_of_literalOf hliteral)
    rw [Tag.find_of_holds hholds] at hread
    rw [scope.result_fieldsOf_of_tag owner hexported htype,
      scope.events_fieldsOf_of_tag owner hexported htype, hread]
    refine ⟨rfl, ?_⟩
    rw [Reported.events_pure, List.append_nil]

end Line

/-- A tag in both kinds of literals: the entry of another key does not decode, and the value of
the key is written by an escape, which the interpreted literal escapes again. -/
theorem fieldsOf_escaped :
    let scope : Scope := ⟨ImportTable.ofImports [] "p", "j"⟩
    let read literal := scope.fieldsOf "p.T" [⟨["A", "b", "C"], .ident "string", some literal⟩]
    let raw := "`x:\"\\q\" j:\"\\x61\"`"
    let interpreted := "\"x:\\\"\\\\q\\\" j:\\\"\\\\x61\\\"\""
    AgreeUpToLiteral "A" raw interpreted (read raw) (read interpreted) ∧
      (read interpreted).result
        = [⟨"A", .ofKeyword .string "string", some { name := "a" }⟩,
          ⟨"C", .ofKeyword .string "string", some { name := "a" }⟩] ∧
      (read interpreted).events = [] := by
  intro scope read raw interpreted
  have hraw : LiteralOf "x:\"\\q\" j:\"\\x61\"" raw := .raw
  have hinterpreted : LiteralOf "x:\"\\q\" j:\"\\x61\"" interpreted := by
    refine .interpreted (?_ : Spells (Tag.escaped "x:\"\\q\" j:\"\\x61\"".toList) _)
    rw [Text.utf8_eq_octetsOf]
    exact Tag.spells_escaped _
  have hnumeral : Numeral 16 ['6', '1'] 97 := (Tag.number?_eq_some_iff (Nat.le_refl 16)).mp rfl
  have hvalue : Spells ['\\', 'x', '6', '1'] (Text.utf8 "a") := .cons (.hex rfl hnumeral) .nil
  -- The first entry does not decode, but it has another key.
  let other : Entry := ⟨['x'], ['"', '\\', 'q', '"']⟩
  let entry : Entry := ⟨['j'], ['"', '\\', 'x', '6', '1', '"']⟩
  have hother : other.WellFormed :=
    ⟨by decide, List.forall_mem_singleton.mpr rfl, ['\\', 'q'], .escaped .nil, rfl⟩
  have hbody : SpanBody ['\\', 'x', '6', '1'] :=
    .escaped (.plain (by decide) (by decide) (.plain (by decide) (by decide) .nil))
  have hentry : entry.WellFormed :=
    ⟨by decide, List.forall_mem_singleton.mpr rfl, _, hbody, rfl⟩
  have hkey : ([(0, other), (1, entry)].map Prod.snd).find?
      (fun entry => entry.name = ['j']) = some entry := rfl
  have hholds : Holds "j".toList "a" "x:\"\\q\" j:\"\\x61\"".toList :=
    .intro [] (List.forall_mem_cons.mpr ⟨hother, List.forall_mem_singleton.mpr hentry⟩) hkey rfl
      hvalue
  have hexported : ["A", "b", "C"].filter isExported = ["A", "C"] := by decide
  have htype : (scope.typeOf "A" (.ident "string")).result = some (.ofKeyword .string "string") :=
    rfl
  obtain ⟨hagree, hfound⟩ :=
    scope.fieldsOf_of_literalOf "p.T" hexported htype "x:\"\\q\" j:\"\\x61\"" [] []
  obtain ⟨hresult, hevents⟩ := hfound "a" hholds interpreted hinterpreted
  exact ⟨hagree raw interpreted hraw hinterpreted, hresult, hevents⟩

end Scope

end ServiceTypes
