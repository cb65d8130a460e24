import ServiceTypes.Json.Node
import ServiceTypes.Proofs.Json.Integer
import ServiceTypes.Proofs.Json.Text

/-!
# `ServiceTypes.Proofs.Json.Grammar`: the texts that write a node

A node is a JSON value as written. `Writes` says which texts write it, as a
grammar: with spaces wherever they may stand, and with strings in any of
their spellings; the numbers of the grammar are integers. The theorems:

* `Scan.run_writes`: a text that writes a node is scanned as the tokens of the
  node, whatever follows.
* `foldlM_tokens`: the tokens of a node are assembled to the node, whatever is
  open around it.
* `ofText_of_writesSpaced`: a text is read as the node that it writes.
-/

set_option autoImplicit false

namespace ServiceTypes.Json

open Text (octetsOf utf8)

/-! ### The grammar -/

/-- Octets between tokens: spaces, tabs, line feeds and carriage returns. -/
def Spaces (octets : List UInt8) : Prop := ∀ b ∈ octets, b ∈ [0x20, 0x09, 0x0A, 0x0D]

mutual

/-- The texts that write a node, from its first to its last token. -/
inductive Writes : Node → List UInt8 → Prop where
  | null : Writes .null (utf8 "null")
  | true : Writes (.bool Bool.true) (utf8 "true")
  | false : Writes (.bool Bool.false) (utf8 "false")
  | integer (n : Int) : Writes (.number (.ofInt n)) (octetsOf (integerText n))
  | text {raw : RawText} {octets : List UInt8} :
    WritesRaw raw octets → Writes (.text raw) (quote :: (octets ++ [quote]))
  | emptyArray {space : List UInt8} : Spaces space → Writes (.array []) (0x5B :: (space ++ [0x5D]))
  | array {items : List Node} {octets : List UInt8} :
    WritesItems items octets → Writes (.array items) (0x5B :: (octets ++ [0x5D]))
  | emptyObject {space : List UInt8} :
    Spaces space → Writes (.object []) (0x7B :: (space ++ [0x7D]))
  | object {members : List Member} {octets : List UInt8} :
    WritesMembers members octets → Writes (.object members) (0x7B :: (octets ++ [0x7D]))

/-- The texts that write a node with spaces around it. -/
inductive WritesSpaced : Node → List UInt8 → Prop where
  | intro {node : Node} {before octets after : List UInt8} :
    Spaces before → Writes node octets → Spaces after →
      WritesSpaced node (before ++ (octets ++ after))

/-- The texts that write the items of an array, with commas between them. -/
inductive WritesItems : List Node → List UInt8 → Prop where
  | last {node : Node} {octets : List UInt8} : WritesSpaced node octets → WritesItems [node] octets
  | cons {node : Node} {items : List Node} {octets more : List UInt8} :
    WritesSpaced node octets → WritesItems items more →
      WritesItems (node :: items) (octets ++ 0x2C :: more)

/-- The texts that write a member of an object: a string, a colon and a node. -/
inductive WritesMember : Member → List UInt8 → Prop where
  | intro {key : RawText} {value : Node} {before octets after more : List UInt8} :
    Spaces before → WritesRaw key octets → Spaces after → WritesSpaced value more →
      WritesMember ⟨key, value⟩
        (before ++ quote :: (octets ++ quote :: (after ++ 0x3A :: more)))

/-- The texts that write the members of an object, with commas between them. -/
inductive WritesMembers : List Member → List UInt8 → Prop where
  | last {member : Member} {octets : List UInt8} :
    WritesMember member octets → WritesMembers [member] octets
  | cons {member : Member} {members : List Member} {octets more : List UInt8} :
    WritesMember member octets → WritesMembers members more →
      WritesMembers (member :: members) (octets ++ 0x2C :: more)

end

/-- No spaces are spaces as well. -/
theorem WritesSpaced.ofWrites {node : Node} {octets : List UInt8} (h : Writes node octets) :
    WritesSpaced node octets := by
  have hspaced := WritesSpaced.intro (List.forall_mem_nil _) h (List.forall_mem_nil _)
  rw [List.nil_append, List.append_nil] at hspaced
  exact hspaced

/-! ### The tokens of a node -/

mutual

/-- The tokens of a node. -/
def Node.tokens : Node → List Token
  | .null => [.null]
  | .bool b => [.bool b]
  | .number numeral => [.number numeral]
  | .text raw => [.text raw]
  | .array [] => [.openArray, .closeArray]
  | .array (node :: items) => .openArray :: (node.tokens ++ (tokensOfItems items ++ [.closeArray]))
  | .object [] => [.openObject, .closeObject]
  | .object (member :: members) =>
    .openObject :: (member.tokens ++ (tokensOfMembers members ++ [.closeObject]))
termination_by structural node => node

/-- The tokens of further items of an array, each behind a comma. -/
def tokensOfItems : List Node → List Token
  | [] => []
  | node :: items => .comma :: (node.tokens ++ tokensOfItems items)
termination_by structural items => items

/-- The tokens of a member of an object. -/
def Member.tokens : Member → List Token
  | ⟨key, value⟩ => .text key :: .colon :: value.tokens
termination_by structural member => member

/-- The tokens of further members of an object, each behind a comma. -/
def tokensOfMembers : List Member → List Token
  | [] => []
  | member :: members => .comma :: (member.tokens ++ tokensOfMembers members)
termination_by structural members => members

end

/-! ### Scanning -/

namespace Scan

/-- A text that does not go on with a word in front of it. -/
def Boundary (text : List UInt8) : Prop := ∀ b ∈ text.head?, endsWord b

/-- No word goes on at the end of the text. -/
theorem boundary_nil : Boundary [] := fun _ h => nomatch h

/-- No word goes on before an octet that ends words. -/
theorem boundary_cons {b : UInt8} (h : endsWord b) (text : List UInt8) : Boundary (b :: text) := by
  intro c hc
  rw [← Option.some.inj hc]
  exact h

/-- Spaces are spaces for the scan. -/
theorem isSpace_of_mem {space : List UInt8} (h : Spaces space) {b : UInt8} (hb : b ∈ space) :
    isSpace b := by
  have htable : ∀ b ∈ [(0x20 : UInt8), 0x09, 0x0A, 0x0D], isSpace b :=
    forall_mem_of_all (by decide)
  exact htable b (h b hb)

/-- No word goes on before spaces, or before what stands behind none. -/
theorem boundary_spaces {space text : List UInt8} (h : Spaces space) (htext : Boundary text) :
    Boundary (space ++ text) := by
  cases space with
  | nil => exact htext
  | cons b space =>
    refine boundary_cons ?_ _
    unfold endsWord
    rw [isSpace_of_mem h List.mem_cons_self]
    rfl

/-- Spaces are skipped. -/
theorem run_spaces {space : List UInt8} (h : Spaces space) (ts : List Token) (text : List UInt8) :
    run ⟨.between, ts⟩ (space ++ text) = run ⟨.between, ts⟩ text := by
  induction space with
  | nil => rfl
  | cons b space ih =>
    have hstep : step ⟨.between, ts⟩ b = .ok ⟨.between, ts⟩ := by
      show Except.ok (begin ts b) = _
      rw [begin, if_pos (isSpace_of_mem h List.mem_cons_self)]
    rw [List.cons_append, run_cons hstep, ih fun c hc => h c (List.mem_cons_of_mem b hc)]

/-! ### Words -/

/-- A character that can stand in a word. -/
structure InWord (c : Char) : Prop where
  ascii : c.toNat < 0x80
  inside : endsWord (UInt8.ofNat c.toNat) = false

/-- Whether a character can stand in a word is read off its code. -/
instance (c : Char) : Decidable (InWord c) :=
  decidable_of_iff (c.toNat < 0x80 ∧ endsWord (UInt8.ofNat c.toNat) = false)
    ⟨fun ⟨ascii, inside⟩ => ⟨ascii, inside⟩, fun ⟨ascii, inside⟩ => ⟨ascii, inside⟩⟩

/-- Digits can stand in a word. -/
theorem inWord_of_isDigit {c : Char} (h : c.isDigit) : InWord c := by
  have htable : ∀ n < 58, 48 ≤ n → endsWord (UInt8.ofNat n) = false := by decide
  simp only [Char.isDigit, Bool.and_eq_true, decide_eq_true_eq, UInt32.le_iff_toNat_le] at h
  have hlow : 48 ≤ c.toNat := h.1
  have hhigh : c.toNat ≤ 57 := h.2
  exact ⟨by omega, htable c.toNat (by omega) hlow⟩

/-- A character of a word is one octet. -/
theorem octetsOf_cons_of_inWord {c : Char} (h : InWord c) (cs : List Char) :
    octetsOf (c :: cs) = UInt8.ofNat c.toNat :: octetsOf cs := by
  have hsize : c.utf8Size = 1 := by
    rw [Char.utf8Size_eq_one_iff, UInt32.le_iff_toNat_le]
    exact Nat.le_of_lt_succ h.ascii
  have hc : String.utf8EncodeChar c = [UInt8.ofNat c.toNat] :=
    String.utf8EncodeChar_eq_singleton hsize
  unfold octetsOf
  rw [List.flatMap_cons, hc]
  rfl

/-- The octet gives the character back. -/
theorem ofNat_toNat_of_inWord {c : Char} (h : InWord c) :
    Char.ofNat (UInt8.ofNat c.toNat).toNat = c := by
  have hsmall : c.toNat < 256 := Nat.lt_trans h.ascii (by decide)
  rw [UInt8.toNat_ofNat_of_lt' hsmall, c.ofNat_toNat]

/-- The letters of a word are collected. -/
theorem run_letters {cs : List Char} (h : ∀ c ∈ cs, InWord c) (letters : List Char)
    (ts : List Token) (text : List UInt8) :
    run ⟨.word letters, ts⟩ (octetsOf cs ++ text)
      = run ⟨.word (cs.reverse ++ letters), ts⟩ text := by
  induction cs generalizing letters with
  | nil => rfl
  | cons c cs ih =>
    obtain ⟨hc, hcs⟩ := List.forall_mem_cons.mp h
    have hstep : step ⟨.word letters, ts⟩ (UInt8.ofNat c.toNat)
        = .ok ⟨.word (c :: letters), ts⟩ := by
      show (if endsWord (UInt8.ofNat c.toNat) then _ else _) = _
      rw [hc.inside, ofNat_toNat_of_inWord hc]
      rfl
    rw [octetsOf_cons_of_inWord hc, List.cons_append, run_cons hstep, ih hcs, List.reverse_cons,
      List.append_assoc]
    rfl

/-- A word ends with the text or at an octet that is no part of it. -/
theorem run_endOfWord {letters : List Char} {token : Token}
    (h : Token.ofWord? letters.reverse = some token) {text : List UInt8} (htext : Boundary text)
    (ts : List Token) : run ⟨.word letters, ts⟩ text = run ⟨.between, token :: ts⟩ text := by
  have hend : endWord ts letters = .ok (token :: ts) := by
    unfold endWord
    rw [h]
  cases text with
  | nil =>
    show (endWord ts letters >>= fun tokens => Except.ok tokens.reverse) = _
    rw [hend]
    rfl
  | cons b text =>
    -- The octet that ends the word is read again as one between tokens.
    have hstep : step ⟨.word letters, ts⟩ b = .ok (begin (token :: ts) b) := by
      show (if endsWord b then _ else _) = _
      rw [if_pos (htext b rfl), hend]
      rfl
    exact (run_cons hstep text).trans (run_cons rfl text).symm

/-- A word is scanned as its token. -/
theorem run_word {word : List Char} {token : Token} (h : Token.ofWord? word = some token)
    (hne : word ≠ []) (hchars : ∀ c ∈ word, InWord c) {text : List UInt8} (htext : Boundary text)
    (ts : List Token) :
    run ⟨.between, ts⟩ (octetsOf word ++ text) = run ⟨.between, token :: ts⟩ text := by
  cases word with
  | nil => exact absurd rfl hne
  | cons c cs =>
    obtain ⟨hc, hcs⟩ := List.forall_mem_cons.mp hchars
    have hinside := hc.inside
    simp only [endsWord, Bool.or_eq_false_iff, decide_eq_false_iff_not,
      Option.isSome_eq_false_iff, Option.isNone_iff_eq_none] at hinside
    obtain ⟨⟨hspace, hquote⟩, hpunctuation⟩ := hinside
    -- The first letter starts the word, since it is no blank, no quote and no punctuation.
    have hstep : step ⟨.between, ts⟩ (UInt8.ofNat c.toNat) = .ok ⟨.word [c], ts⟩ := by
      show Except.ok (begin ts (UInt8.ofNat c.toNat)) = _
      unfold begin
      rw [hspace, if_neg Bool.false_ne_true, if_neg hquote, hpunctuation,
        ofNat_toNat_of_inWord hc]
    rw [octetsOf_cons_of_inWord hc, List.cons_append, run_cons hstep, run_letters hcs]
    refine run_endOfWord ?_ htext ts
    rw [List.reverse_append, List.reverse_reverse]
    exact h

/-- The text of an integer is a word. -/
theorem inWord_integerText (n : Int) : ∀ c ∈ integerText n, InWord c := by
  have hdigits : ∀ c ∈ digitsOf n.natAbs, InWord c := fun c hc =>
    inWord_of_isDigit (isDigit_of_mem_digitsOf hc)
  unfold integerText
  split
  · exact List.forall_mem_cons.mpr ⟨⟨by decide, by decide⟩, hdigits⟩
  · exact hdigits

/-- The text of an integer is not empty. -/
theorem integerText_ne_nil (n : Int) : integerText n ≠ [] := by
  unfold integerText
  split
  · exact List.cons_ne_nil _ _
  · exact digitsOf_ne_nil _

/-! ### Nodes -/

/-- A comma is a token of its own. -/
theorem run_comma (ts : List Token) (text : List UInt8) :
    run ⟨.between, ts⟩ (0x2C :: text) = run ⟨.between, .comma :: ts⟩ text :=
  run_cons rfl text

/-- A string is scanned from quote to quote. -/
theorem run_string {raw : RawText} {octets : List UInt8} (h : WritesRaw raw octets)
    (ts : List Token) (text : List UInt8) :
    run ⟨.between, ts⟩ (quote :: (octets ++ quote :: text))
      = run ⟨.between, .text raw :: ts⟩ text := by
  have hquote : step ⟨.between, ts⟩ quote = .ok ⟨.text [], ts⟩ := rfl
  rw [run_cons hquote, run_text h]
  rfl

/-- A literal is a word. -/
theorem run_literal {word : String} {token : Token} (h : Token.ofWord? word.toList = some token)
    (hne : word.toList ≠ []) (hchars : word.toList.all fun c => InWord c) {text : List UInt8}
    (htext : Boundary text) (ts : List Token) :
    run ⟨.between, ts⟩ (utf8 word ++ text) = run ⟨.between, token :: ts⟩ text := by
  rw [Text.utf8_eq_octetsOf]
  exact run_word h hne (forall_mem_of_all hchars) htext ts

mutual

/-- A text that writes a node is scanned as the tokens of the node. -/
theorem run_writes {node : Node} {octets : List UInt8} (h : Writes node octets)
    {text : List UInt8} (htext : Boundary text) (ts : List Token) :
    run ⟨.between, ts⟩ (octets ++ text) = run ⟨.between, node.tokens.reverse ++ ts⟩ text := by
  have hopen : ∀ more, run ⟨.between, ts⟩ (0x5B :: more) = run ⟨.between, .openArray :: ts⟩ more :=
    run_cons rfl
  have hopen' : ∀ more,
      run ⟨.between, ts⟩ (0x7B :: more) = run ⟨.between, .openObject :: ts⟩ more :=
    run_cons rfl
  -- A closing bracket ends the word in front of it.
  have hclose : Boundary ([0x5D] ++ text) := boundary_cons rfl text
  have hclose' : Boundary ([0x7D] ++ text) := boundary_cons rfl text
  match h with
  | .null => exact run_literal rfl (by decide) (by decide) htext ts
  | .true => exact run_literal rfl (by decide) (by decide) htext ts
  | .false => exact run_literal rfl (by decide) (by decide) htext ts
  | .integer n =>
    exact run_word (tokenOfWord?_integerText n) (integerText_ne_nil n) (inWord_integerText n) htext
      ts
  | .text hraw =>
    rw [List.cons_append, List.append_assoc]
    exact run_string hraw ts text
  | .emptyArray hspace =>
    rw [List.cons_append, List.append_assoc, hopen, run_spaces hspace]
    exact run_cons rfl text
  | .emptyObject hspace =>
    rw [List.cons_append, List.append_assoc, hopen', run_spaces hspace]
    exact run_cons rfl text
  | .array (.last hitem) =>
    rw [List.cons_append, List.append_assoc, hopen, run_writesSpaced hitem hclose]
    simp only [Node.tokens, tokensOfItems, List.reverse_cons, List.reverse_append,
      List.append_assoc, List.nil_append, List.cons_append]
    exact run_cons rfl text
  | .array (.cons hitem hitems) =>
    rw [List.cons_append, List.append_assoc, List.append_assoc, List.cons_append, hopen,
      run_writesSpaced hitem (boundary_cons rfl _), run_writesItems hitems hclose]
    simp only [Node.tokens, List.reverse_cons, List.reverse_append, List.append_assoc,
      List.nil_append, List.cons_append]
    exact run_cons rfl text
  | .object (.last hmember) =>
    rw [List.cons_append, List.append_assoc, hopen', run_writesMember hmember hclose']
    simp only [Node.tokens, tokensOfMembers, List.reverse_cons, List.reverse_append,
      List.append_assoc, List.nil_append, List.cons_append]
    exact run_cons rfl text
  | .object (.cons hmember hmembers) =>
    rw [List.cons_append, List.append_assoc, List.append_assoc, List.cons_append, hopen',
      run_writesMember hmember (boundary_cons rfl _), run_writesMembers hmembers hclose']
    simp only [Node.tokens, List.reverse_cons, List.reverse_append, List.append_assoc,
      List.nil_append, List.cons_append]
    exact run_cons rfl text

/-- A node with spaces around it is scanned as its tokens. -/
theorem run_writesSpaced {node : Node} {octets : List UInt8} (h : WritesSpaced node octets)
    {text : List UInt8} (htext : Boundary text) (ts : List Token) :
    run ⟨.between, ts⟩ (octets ++ text) = run ⟨.between, node.tokens.reverse ++ ts⟩ text := by
  match h with
  | .intro hbefore hnode hafter =>
    rw [List.append_assoc, List.append_assoc, run_spaces hbefore,
      run_writes hnode (boundary_spaces hafter htext), run_spaces hafter]

/-- Further items are scanned behind their commas. -/
theorem run_writesItems {items : List Node} {octets : List UInt8} (h : WritesItems items octets)
    {text : List UInt8} (htext : Boundary text) (ts : List Token) :
    run ⟨.between, ts⟩ (0x2C :: (octets ++ text))
      = run ⟨.between, (tokensOfItems items).reverse ++ ts⟩ text := by
  match h with
  | .last hitem =>
    rw [run_comma, run_writesSpaced hitem htext, tokensOfItems, tokensOfItems, List.append_nil,
      List.reverse_cons, List.append_assoc]
    rfl
  | .cons hitem hitems =>
    have hcomma : ∀ more, Boundary (0x2C :: more) := boundary_cons rfl
    rw [run_comma, List.append_assoc, List.cons_append, run_writesSpaced hitem (hcomma _),
      run_writesItems hitems htext, tokensOfItems, List.reverse_cons, List.reverse_append]
    simp only [List.append_assoc, List.singleton_append]

/-- A member of an object is scanned as its tokens. -/
theorem run_writesMember {member : Member} {octets : List UInt8} (h : WritesMember member octets)
    {text : List UInt8} (htext : Boundary text) (ts : List Token) :
    run ⟨.between, ts⟩ (octets ++ text) = run ⟨.between, member.tokens.reverse ++ ts⟩ text := by
  match h with
  | .intro hbefore hkey hafter hvalue =>
    have hcolon : ∀ ts, step ⟨.between, ts⟩ 0x3A = .ok ⟨.between, .colon :: ts⟩ := fun _ => rfl
    rw [Member.tokens, List.append_assoc, List.cons_append, run_spaces hbefore]
    rw [List.append_assoc, List.cons_append, run_string hkey, List.append_assoc, List.cons_append,
      run_spaces hafter, run_cons (hcolon _), run_writesSpaced hvalue htext]
    simp only [List.reverse_cons, List.append_assoc, List.cons_append, List.nil_append]

/-- Further members are scanned behind their commas. -/
theorem run_writesMembers {members : List Member} {octets : List UInt8}
    (h : WritesMembers members octets) {text : List UInt8} (htext : Boundary text)
    (ts : List Token) :
    run ⟨.between, ts⟩ (0x2C :: (octets ++ text))
      = run ⟨.between, (tokensOfMembers members).reverse ++ ts⟩ text := by
  match h with
  | .last hmember =>
    rw [run_comma, run_writesMember hmember htext, tokensOfMembers, tokensOfMembers,
      List.append_nil, List.reverse_cons, List.append_assoc]
    rfl
  | .cons hmember hmembers =>
    have hcomma : ∀ more, Boundary (0x2C :: more) := boundary_cons rfl
    rw [run_comma, List.append_assoc, List.cons_append, run_writesMember hmember (hcomma _),
      run_writesMembers hmembers htext, tokensOfMembers, List.reverse_cons, List.reverse_append]
    simp only [List.append_assoc, List.singleton_append]

end

end Scan

/-- A text is scanned as the tokens of the node that it writes. -/
theorem tokens_of_writesSpaced {node : Node} {text : List UInt8} (h : WritesSpaced node text) :
    tokens text = .ok node.tokens := by
  have hrun := Scan.run_writesSpaced h Scan.boundary_nil []
  rw [List.append_nil, List.append_nil] at hrun
  show Scan.run Scan.start text = _
  rw [Scan.start, hrun]
  show Except.ok node.tokens.reverse.reverse = _
  rw [List.reverse_reverse]

/-! ### Assembling -/

namespace Assembly

/-- One token is assembled in one step. -/
theorem foldlM_singleton (a : Assembly) (token : Token) : [token].foldlM step a = step a token := by
  rw [List.foldlM_cons]
  exact bind_pure _

/-- The first item of an array is assembled like a further one, since no node starts with the
end of an array. -/
theorem foldlM_tokens_item (node : Node) (frames : List Frame) :
    node.tokens.foldlM step ⟨frames, .item⟩ = node.tokens.foldlM step ⟨frames, .value⟩ := by
  match node with
  | .null | .bool _ | .number _ | .text _ => rfl
  | .array [] | .array (_ :: _) => rfl
  | .object [] | .object (_ :: _) => rfl

/-- The first member of an object is assembled like a further one. -/
theorem foldlM_tokens_member (member : Member) (frames : List Frame) :
    member.tokens.foldlM step ⟨frames, .member⟩ = member.tokens.foldlM step ⟨frames, .key⟩ := by
  cases member
  rfl

mutual

/-- The tokens of a node are assembled to the node, which goes into whatever is open. -/
theorem foldlM_tokens (node : Node) (frames : List Frame) :
    node.tokens.foldlM step ⟨frames, .value⟩ = complete node frames := by
  match node with
  | .null | .bool _ | .number _ | .text _ => exact foldlM_singleton _ _
  | .array [] => exact foldlM_singleton ⟨.array [] :: frames, .item⟩ .closeArray
  | .array (node :: items) =>
    -- The first item follows the bracket, and the others follow commas.
    have hnode := foldlM_tokens node (.array [] :: frames)
    have hitems := foldlM_tokensOfItems items [node] frames
    have hclose :=
      foldlM_singleton ⟨.array (items.reverse ++ [node]) :: frames, .separator⟩ .closeArray
    have hall : (items.reverse ++ [node]).reverse = node :: items := by
      rw [List.reverse_append, List.reverse_reverse]
      rfl
    rw [Node.tokens, List.foldlM_cons]
    show List.foldlM step ⟨.array [] :: frames, .item⟩ _ = _
    rw [List.foldlM_append, foldlM_tokens_item, hnode]
    show List.foldlM step ⟨.array [node] :: frames, .separator⟩ _ = _
    rw [List.foldlM_append, hitems]
    show [Token.closeArray].foldlM step _ = _
    rw [hclose]
    show complete (.array (items.reverse ++ [node]).reverse) frames = _
    rw [hall]
  | .object [] => exact foldlM_singleton ⟨.object [] none :: frames, .member⟩ .closeObject
  | .object (member :: members) =>
    have hmember := foldlM_tokensOfMember member [] frames
    have hmembers := foldlM_tokensOfMembers members [member] frames
    have hclose := foldlM_singleton
      ⟨.object (members.reverse ++ [member]) none :: frames, .separator⟩ .closeObject
    have hall : (members.reverse ++ [member]).reverse = member :: members := by
      rw [List.reverse_append, List.reverse_reverse]
      rfl
    rw [Node.tokens, List.foldlM_cons]
    show List.foldlM step ⟨.object [] none :: frames, .member⟩ _ = _
    rw [List.foldlM_append, foldlM_tokens_member, hmember]
    show List.foldlM step ⟨.object [member] none :: frames, .separator⟩ _ = _
    rw [List.foldlM_append, hmembers]
    show [Token.closeObject].foldlM step _ = _
    rw [hclose]
    show complete (.object (members.reverse ++ [member]).reverse) frames = _
    rw [hall]
termination_by structural node

/-- Further items go into the open array. -/
theorem foldlM_tokensOfItems (items done : List Node) (frames : List Frame) :
    (tokensOfItems items).foldlM step ⟨.array done :: frames, .separator⟩
      = .ok ⟨.array (items.reverse ++ done) :: frames, .separator⟩ := by
  match items with
  | [] => rfl
  | node :: items =>
    have hnode := foldlM_tokens node (.array done :: frames)
    have hitems := foldlM_tokensOfItems items (node :: done) frames
    rw [tokensOfItems, List.foldlM_cons, List.reverse_cons, List.append_assoc]
    show (List.foldlM step ⟨.array done :: frames, .value⟩ _) = _
    rw [List.foldlM_append, hnode]
    exact hitems
termination_by structural items

/-- A member goes into the open object. -/
theorem foldlM_tokensOfMember (member : Member) (done : List Member) (frames : List Frame) :
    member.tokens.foldlM step ⟨.object done none :: frames, .key⟩
      = .ok ⟨.object (member :: done) none :: frames, .separator⟩ := by
  match member with
  | ⟨key, value⟩ =>
    -- The key and the colon are two steps that only change what is awaited.
    have hvalue := foldlM_tokens value (.object done (some key) :: frames)
    exact hvalue
termination_by structural member

/-- Further members are assembled behind their commas. -/
theorem foldlM_tokensOfMembers (members done : List Member) (frames : List Frame) :
    (tokensOfMembers members).foldlM step ⟨.object done none :: frames, .separator⟩
      = .ok ⟨.object (members.reverse ++ done) none :: frames, .separator⟩ := by
  match members with
  | [] => rfl
  | member :: members =>
    have hmember := foldlM_tokensOfMember member done frames
    have hmembers := foldlM_tokensOfMembers members (member :: done) frames
    rw [tokensOfMembers, List.foldlM_cons, List.reverse_cons, List.append_assoc]
    show (List.foldlM step ⟨.object done none :: frames, .key⟩ _) = _
    rw [List.foldlM_append, hmember]
    exact hmembers
termination_by structural members

end

end Assembly

/-- A text is read as the node that it writes. -/
theorem ofText_of_writesSpaced {node : Node} {text : List UInt8} (h : WritesSpaced node text) :
    Node.ofText text = .ok node := by
  unfold Node.ofText
  rw [tokens_of_writesSpaced h]
  show (List.foldlM Assembly.step Assembly.start node.tokens >>= Assembly.finish) = _
  rw [Assembly.start, Assembly.foldlM_tokens]
  rfl

end ServiceTypes.Json
