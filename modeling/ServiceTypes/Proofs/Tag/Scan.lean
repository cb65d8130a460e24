import Mathlib.Tactic.SplitIfs
import ServiceTypes.Proofs.Tag.Sequence
import ServiceTypes.Tag.Scan

/-!
# `ServiceTypes.Proofs.Tag.Scan`: octets and characters of a tag

A scan by octets gives the answer of a look-up by characters, and every cut it
makes is between characters. The theorems:

* `slice?_octetsOf`: characters are cut out whole.
* `takeWhile_octetsOf` / `dropWhile_octetsOf`: a test that all octets of a
  character pass or fail with it sees the character.
* `closingQuote_of_splitSpan?` / `length_le_closingQuote`: a span ends at the
  same double quote, although one octet is passed over for one character.
* `scanFirst?_octetsOf`: the same entry is split off.
* `scan?_octetsOf`: the same is found.
-/

set_option autoImplicit false

namespace ServiceTypes.Tag

open Text (isContinuation octetsOf octetsOf_append octetsOf_ne_nil ofUtf8? ofUtf8?_octetsOf)

/-! ### Octets of one character -/

/-- Continuation octets are those from `0x80` to `0xBF`. -/
theorem isContinuation_ofNat {n : Nat} (h : n < 256) :
    isContinuation (UInt8.ofNat n) = decide (0x80 ≤ n ∧ n ≤ 0xBF) := by
  have hn : (UInt8.ofNat n).toNat = n := UInt8.toNat_ofNat_of_lt' h
  simp [isContinuation, UInt8.le_iff_toNat_le, hn]

/-- A number of the upper half is an octet of the upper half. -/
theorem le_toNat_ofNat {n : Nat} (hge : 0x80 ≤ n) (hlt : n < 256) :
    0x80 ≤ (UInt8.ofNat n).toNat := by
  rw [UInt8.toNat_ofNat_of_lt' hlt]
  exact hge

/-- The octets of a character: one octet below `0x80`, or only octets from `0x80` on, the first
of which continues no sequence. -/
theorem exists_utf8EncodeChar (c : Char) :
    ∃ b bs, String.utf8EncodeChar c = b :: bs ∧ isContinuation b = false ∧
      ((c.toNat < 0x80 ∧ b.toNat = c.toNat ∧ bs = []) ∨
        (0x80 ≤ c.toNat ∧ ∀ octet ∈ b :: bs, 0x80 ≤ octet.toNat)) := by
  have hlt : c.val.toNat < 0x110000 := by
    have hvalid := c.valid
    unfold UInt32.isValidChar Nat.isValidChar at hvalid
    omega
  unfold Char.toNat String.utf8EncodeChar
  dsimp only
  generalize c.val.toNat = n at *
  have hfirst : ∀ m, m < 0x80 ∨ 0xC0 ≤ m → m < 256 → isContinuation (UInt8.ofNat m) = false := by
    intro m hm hlt
    rw [isContinuation_ofNat hlt]
    exact decide_eq_false (by omega)
  -- One case for each length of the encoding.
  split_ifs with hone htwo hthree
  · exact ⟨_, _, rfl, hfirst _ (by omega) (by omega),
      .inl ⟨by omega, UInt8.toNat_ofNat_of_lt' (Nat.lt_of_le_of_lt hone (by decide)), rfl⟩⟩
  all_goals
    refine ⟨_, _, rfl, hfirst _ (by omega) (by omega), .inr ⟨by omega, ?_⟩⟩
    simp only [List.forall_mem_cons]
  · exact ⟨le_toNat_ofNat (by omega) (by omega), le_toNat_ofNat (by omega) (by omega),
      List.forall_mem_nil _⟩
  · exact ⟨le_toNat_ofNat (by omega) (by omega), le_toNat_ofNat (by omega) (by omega),
      le_toNat_ofNat (by omega) (by omega), List.forall_mem_nil _⟩
  · exact ⟨le_toNat_ofNat (by omega) (by omega), le_toNat_ofNat (by omega) (by omega),
      le_toNat_ofNat (by omega) (by omega), le_toNat_ofNat (by omega) (by omega),
      List.forall_mem_nil _⟩

/-- Tests of octets and of characters that agree below `0x80`, and have one answer from there
on, agree on the octets of every character. -/
theorem forall_octet_eq {test : UInt8 → Bool} {charTest : Char → Bool} (above : Bool)
    (hbelow : ∀ n < 128, test (UInt8.ofNat n) = charTest (Char.ofNat n))
    (hoctet : ∀ b : UInt8, 0x80 ≤ b.toNat → test b = above)
    (hchar : ∀ c : Char, 0x80 ≤ c.toNat → charTest c = above) (c : Char) :
    ∀ b ∈ String.utf8EncodeChar c, test b = charTest c := by
  obtain ⟨b, bs, henc, -, hcases⟩ := exists_utf8EncodeChar c
  rw [henc]
  rcases hcases with ⟨hlt, hb, rfl⟩ | ⟨hge, hall⟩
  · intro octet hmem
    have heq := hbelow c.toNat hlt
    rw [← hb, UInt8.ofNat_toNat, hb, c.ofNat_toNat] at heq
    rw [List.mem_singleton.mp hmem]
    exact heq
  · intro octet hmem
    rw [hoctet octet (hall octet hmem), hchar c hge]

/-- The scan goes on in a name exactly where the characters do. All of the upper half counts as part
of a name on both sides. -/
theorem isNameOctet_eq (c : Char) :
    ∀ b ∈ String.utf8EncodeChar c, isNameOctet b = isNameChar c := by
  have hbelow : ∀ n < 128, isNameOctet (UInt8.ofNat n) = isNameChar (Char.ofNat n) := by decide
  refine forall_octet_eq true hbelow (fun b hb => ?_) (fun c hc => ?_) c
  · simp [isNameOctet, UInt8.lt_iff_toNat_lt, ← UInt8.toNat_inj]
    omega
  · have hspace : ' ' < c := UInt32.lt_iff_toNat_lt.mpr (Nat.lt_of_lt_of_le (by decide) hc)
    have hother : ∀ d : Char, d.toNat < 0x80 → c ≠ d := by
      rintro d hd rfl
      omega
    simp [isNameChar, hspace, hother]

/-- No octet of another character is taken for a space. -/
theorem isSpaceOctet_eq (c : Char) :
    ∀ b ∈ String.utf8EncodeChar c, decide (b = 0x20) = decide (c = ' ') := by
  have hbelow : ∀ n < 128, decide (UInt8.ofNat n = 0x20) = decide (Char.ofNat n = ' ') := by decide
  refine @forall_octet_eq (fun b => decide (b = 0x20)) (fun c => decide (c = ' ')) false hbelow
    (fun b hb => ?_) (fun c hc => ?_) c
  · refine decide_eq_false ?_
    rintro rfl
    exact absurd hb (by decide)
  · refine decide_eq_false ?_
    rintro rfl
    exact absurd hc (by decide)

section

variable {test : UInt8 → Bool} {charTest : Char → Bool}
  (h : ∀ c, ∀ b ∈ String.utf8EncodeChar c, test b = charTest c)

include h

/-- What a scan takes is the octets of what a reading by characters takes. -/
theorem takeWhile_octetsOf (cs : List Char) :
    (octetsOf cs).takeWhile test = octetsOf (cs.takeWhile charTest) := by
  induction cs with
  | nil => rfl
  | cons c rest ih =>
    show (String.utf8EncodeChar c ++ octetsOf rest).takeWhile test = _
    cases hc : charTest c with
    | true =>
      -- All octets of the character pass the test with it.
      rw [List.takeWhile_append_of_pos fun b hb => by rw [h c b hb, hc], ih,
        List.takeWhile_cons_of_pos hc]
      rfl
    | false =>
      -- The first octet of the character fails the test with it.
      obtain ⟨b, bs, henc, -⟩ := exists_utf8EncodeChar c
      have hb : ¬ test b = true := by
        rw [h c b (by rw [henc]; exact List.mem_cons_self), hc]
        exact Bool.false_ne_true
      rw [henc, List.cons_append, List.takeWhile_cons_of_neg hb,
        List.takeWhile_cons_of_neg (by rw [hc]; exact Bool.false_ne_true)]
      rfl

/-- What a scan leaves is the octets of what a reading by characters leaves. -/
theorem dropWhile_octetsOf (cs : List Char) :
    (octetsOf cs).dropWhile test = octetsOf (cs.dropWhile charTest) := by
  have hboth : (octetsOf cs).takeWhile test ++ (octetsOf cs).dropWhile test
      = octetsOf (cs.takeWhile charTest) ++ octetsOf (cs.dropWhile charTest) := by
    rw [List.takeWhile_append_dropWhile, ← octetsOf_append, List.takeWhile_append_dropWhile]
  rw [takeWhile_octetsOf h] at hboth
  exact List.append_cancel_left hboth

end

/-! ### Cuts -/

/-- A character starts, or nothing is left, behind whole characters. -/
theorem isBoundary_octetsOf (front rest : List Char) :
    isBoundary (octetsOf (front ++ rest)) (octetsOf front).length := by
  rw [octetsOf_append]
  cases rest with
  | nil => simp [isBoundary, octetsOf]
  | cons c rest =>
    obtain ⟨b, bs, henc, hfirst, -⟩ := exists_utf8EncodeChar c
    have hget : (octetsOf front ++ octetsOf (c :: rest))[(octetsOf front).length]? = some b := by
      rw [List.getElem?_append_right (Nat.le_refl _), Nat.sub_self]
      show (String.utf8EncodeChar c ++ octetsOf rest)[0]? = some b
      rw [henc]
      rfl
    unfold isBoundary
    rw [hget, Option.any_some, hfirst, Bool.not_false, Bool.or_true]

/-- Characters are cut out whole. -/
theorem slice?_octetsOf (front part rest : List Char) :
    slice? (octetsOf (front ++ part ++ rest)) (octetsOf front).length
      (octetsOf (front ++ part)).length = some (octetsOf part) := by
  have hstart := isBoundary_octetsOf front (part ++ rest)
  rw [← List.append_assoc] at hstart
  have hstop := isBoundary_octetsOf (front ++ part) rest
  have hlengths : (octetsOf front).length ≤ (octetsOf (front ++ part)).length ∧
      (octetsOf (front ++ part)).length ≤ (octetsOf (front ++ part ++ rest)).length := by
    simp only [octetsOf_append, List.length_append]
    omega
  unfold slice?
  rw [if_pos ⟨hlengths.1, hlengths.2, hstart, hstop⟩, octetsOf_append (front ++ part),
    List.take_left, octetsOf_append, List.drop_left]

/-! ### The end of a span -/

/-- An octet before the start only moves the indices. -/
theorem closingQuote_cons (b : UInt8) (rest : List UInt8) (i : Nat) :
    closingQuote (b :: rest) (i + 1) = closingQuote rest i + 1 := by
  -- Both scans stand at the same octet, the left one with an index that is one higher.
  fun_induction closingQuote rest i with
  | case1 i h hquote =>
    rw [closingQuote]
    simp [h, hquote]
  | case2 i h hquote hbackslash ih =>
    rw [closingQuote]
    simp [h, hbackslash, ih]
  | case3 i h hquote hbackslash ih =>
    rw [closingQuote]
    simp [h, hquote, hbackslash, ih]
  | case4 i h =>
    rw [closingQuote]
    simp [h]

/-- Octets other than the double quote and the backslash are passed over one by one. -/
theorem closingQuote_append {octets : List UInt8}
    (h : ∀ b ∈ octets, b ≠ 0x22 ∧ b ≠ 0x5C) (rest : List UInt8) :
    closingQuote (octets ++ rest) 0 = octets.length + closingQuote rest 0 := by
  induction octets with
  | nil => simp
  | cons b octets ih =>
    obtain ⟨⟨hquote, hbackslash⟩, hoctets⟩ := List.forall_mem_cons.mp h
    rw [List.cons_append, closingQuote]
    simp [hquote, hbackslash, closingQuote_cons, ih hoctets]
    omega

/-- A double quote at the start ends the span there. -/
theorem closingQuote_quote (rest : List UInt8) : closingQuote (0x22 :: rest) 0 = 0 := by
  rw [closingQuote]
  simp

/-- The octet behind a backslash is not looked at. -/
theorem closingQuote_backslash (b : UInt8) (rest : List UInt8) :
    closingQuote (0x5C :: b :: rest) 0 = closingQuote rest 0 + 2 := by
  rw [closingQuote]
  simp [closingQuote_cons]

/-- The octets of a character other than the double quote and the backslash are passed over. -/
theorem forall_octet_ne {c : Char} (hquote : c ≠ '"') (hbackslash : c ≠ '\\') :
    ∀ b ∈ String.utf8EncodeChar c, b ≠ 0x22 ∧ b ≠ 0x5C := by
  intro b hb
  refine ⟨?_, ?_⟩
  · rintro rfl
    exact hquote (Text.eq_of_mem_utf8EncodeChar (by decide) hb)
  · rintro rfl
    exact hbackslash (Text.eq_of_mem_utf8EncodeChar (by decide) hb)

/-- Behind a backslash, passing over one octet is passing over the character: its other octets
are neither double quotes nor backslashes. -/
theorem closingQuote_escaped (d : Char) (rest : List UInt8) :
    closingQuote (0x5C :: (String.utf8EncodeChar d ++ rest)) 0
      = closingQuote rest 0 + 1 + (String.utf8EncodeChar d).length := by
  obtain ⟨b, bs, henc, -, hcases⟩ := exists_utf8EncodeChar d
  have hbs : ∀ octet ∈ bs, octet ≠ 0x22 ∧ octet ≠ 0x5C := by
    rcases hcases with ⟨-, -, rfl⟩ | ⟨-, hall⟩
    · exact List.forall_mem_nil _
    · -- Both are below `0x80`.
      intro octet hmem
      have hge := hall octet (List.mem_cons_of_mem _ hmem)
      refine ⟨?_, ?_⟩
      · rintro rfl
        exact absurd hge (by decide)
      · rintro rfl
        exact absurd hge (by decide)
  rw [henc, List.cons_append, closingQuote_backslash, closingQuote_append hbs, List.length_cons]
  omega

/-- A span ends at the same double quote. -/
theorem closingQuote_of_splitSpan? {text span rest : List Char}
    (h : splitSpan? text = some (span, rest)) :
    closingQuote (octetsOf text) 0 + 1 = (octetsOf span).length := by
  fun_induction splitSpan? text generalizing span with
  | case1 => cases h
  | case2 tail =>
    obtain ⟨rfl, -⟩ := Prod.mk.inj (Option.some.inj h)
    show closingQuote (0x22 :: octetsOf tail) 0 + 1 = 1
    rw [closingQuote_quote]
  | case3 => cases h
  | case4 d tail hquote ih =>
    obtain ⟨⟨inner, behind⟩, hsplit, heq⟩ := Option.map_eq_some_iff.mp h
    obtain ⟨rfl, rfl⟩ := Prod.mk.inj heq
    have hinner := ih hsplit
    -- The backslash and the character behind it count with all their octets.
    show closingQuote (0x5C :: (String.utf8EncodeChar d ++ octetsOf tail)) 0 + 1
      = (0x5C :: (String.utf8EncodeChar d ++ octetsOf inner)).length
    rw [closingQuote_escaped, List.length_cons, List.length_append]
    omega
  | case5 c tail hquote hbackslash ih =>
    obtain ⟨⟨inner, behind⟩, hsplit, heq⟩ := Option.map_eq_some_iff.mp h
    obtain ⟨rfl, rfl⟩ := Prod.mk.inj heq
    have hinner := ih hsplit
    show closingQuote (String.utf8EncodeChar c ++ octetsOf tail) 0 + 1
      = (String.utf8EncodeChar c ++ octetsOf inner).length
    rw [closingQuote_append (forall_octet_ne hquote hbackslash), List.length_append]
    omega

/-- A span that does not end is passed over to the end. -/
theorem length_le_closingQuote {text : List Char} (h : splitSpan? text = none) :
    (octetsOf text).length ≤ closingQuote (octetsOf text) 0 := by
  fun_induction splitSpan? text with
  | case1 => exact Nat.zero_le _
  | case2 => cases h
  | case3 =>
    show 1 ≤ closingQuote [0x5C] 0
    simp [closingQuote]
  | case4 d tail hquote ih =>
    -- The escaped character is passed over with its backslash.
    have htail := ih (Option.map_eq_none_iff.mp h)
    show (0x5C :: (String.utf8EncodeChar d ++ octetsOf tail)).length
      ≤ closingQuote (0x5C :: (String.utf8EncodeChar d ++ octetsOf tail)) 0
    rw [closingQuote_escaped, List.length_cons, List.length_append]
    omega
  | case5 c tail hquote hbackslash ih =>
    have htail := ih (Option.map_eq_none_iff.mp h)
    show (String.utf8EncodeChar c ++ octetsOf tail).length
      ≤ closingQuote (String.utf8EncodeChar c ++ octetsOf tail) 0
    rw [closingQuote_append (forall_octet_ne hquote hbackslash), List.length_append]
    omega

/-! ### Entries -/

/-- An octet below `0x80` in front is a character in front. -/
theorem exists_of_octetsOf_eq_cons {cs : List Char} {b : UInt8} {bs : List UInt8}
    (hb : b.toNat < 0x80) (h : octetsOf cs = b :: bs) :
    ∃ rest, cs = Char.ofNat b.toNat :: rest ∧ bs = octetsOf rest := by
  cases cs with
  | nil => cases h
  | cons c rest =>
    -- The octet in front is the first one of the character in front.
    obtain ⟨first, others, henc, -, hcases⟩ := exists_utf8EncodeChar c
    have hcons : first :: (others ++ octetsOf rest) = b :: bs := by
      rw [← h, ← List.cons_append, ← henc]
      rfl
    obtain ⟨rfl, hbs⟩ := List.cons.inj hcons
    rcases hcases with ⟨-, hfirst, rfl⟩ | ⟨-, hall⟩
    · rw [hfirst, c.ofNat_toNat]
      exact ⟨rest, rfl, hbs.symm⟩
    · have hge := hall first List.mem_cons_self
      omega

/-- A colon and a double quote are found behind a name if the characters are there. -/
theorem exists_of_getElem? {front cs : List Char}
    (hcolon : (octetsOf (front ++ cs))[(octetsOf front).length]? = some 0x3A)
    (hquote : (octetsOf (front ++ cs))[(octetsOf front).length + 1]? = some 0x22) :
    ∃ rest, cs = ':' :: '"' :: rest := by
  rw [octetsOf_append, List.getElem?_append_right (Nat.le_add_right _ _)] at hquote
  rw [octetsOf_append, List.getElem?_append_right (Nat.le_refl _), Nat.sub_self] at hcolon
  rw [Nat.add_sub_cancel_left] at hquote
  match hoctets : octetsOf cs with
  | [] => rw [hoctets] at hcolon; cases hcolon
  | [_] => rw [hoctets] at hquote; cases hquote
  | a :: b :: bs =>
    rw [hoctets] at hcolon hquote
    obtain rfl : a = 0x3A := Option.some.inj hcolon
    obtain rfl : b = 0x22 := Option.some.inj hquote
    obtain ⟨rest, rfl, hrest⟩ := exists_of_octetsOf_eq_cons (by decide) hoctets
    obtain ⟨rest, rfl, -⟩ := exists_of_octetsOf_eq_cons (by decide) hrest.symm
    exact ⟨rest, rfl⟩

/-- Where no name stands in front of a colon and a double quote, nothing is split off. -/
theorem scanFirst?_octetsOf_of_not {text : List Char}
    (h : text.takeWhile isNameChar = []
      ∨ ¬ ∃ rest, text.dropWhile isNameChar = ':' :: '"' :: rest) :
    scanFirst? (octetsOf text) = some none := by
  have htext := List.takeWhile_append_dropWhile (p := isNameChar) (l := text)
  unfold scanFirst?
  simp only [takeWhile_octetsOf isNameOctet_eq]
  refine if_pos ?_
  cases h with
  | inl hname =>
    rw [hname]
    exact .inl rfl
  | inr hhead =>
    by_cases hcolon : (octetsOf text)[(octetsOf (text.takeWhile isNameChar)).length]? = some 0x3A
    · by_cases hquote :
          (octetsOf text)[(octetsOf (text.takeWhile isNameChar)).length + 1]? = some 0x22
      · -- With both octets there, the characters would be there too.
        exact absurd (exists_of_getElem? (by rw [htext]; exact hcolon)
          (by rw [htext]; exact hquote)) hhead
      · exact .inr (.inr (.inr hquote))
    · exact .inr (.inr (.inl hcolon))

/-- A span that ends is cut out with its quotes, and so is what stands behind it. -/
theorem slice?_span {text span behind : List Char} (h : splitSpan? text = some (span, behind)) :
    closingQuote (octetsOf text) 0 + 1 < (octetsOf ('"' :: text)).length ∧
      slice? (octetsOf ('"' :: text)) 0 (closingQuote (octetsOf text) 0 + 1 + 1)
        = some (octetsOf ('"' :: span)) ∧
      slice? (octetsOf ('"' :: text)) (closingQuote (octetsOf text) 0 + 1 + 1)
        (octetsOf ('"' :: text)).length = some (octetsOf behind) := by
  have hstop : closingQuote (octetsOf text) 0 + 1 + 1 = (octetsOf ('"' :: span)).length :=
    congrArg (· + 1) (closingQuote_of_splitSpan? h)
  have hbehind := slice?_octetsOf ('"' :: span) behind []
  obtain rfl := append_of_splitSpan? h
  rw [List.append_nil] at hbehind
  rw [hstop]
  refine ⟨?_, slice?_octetsOf [] ('"' :: span) behind, hbehind⟩
  have hlength := congrArg List.length (octetsOf_append ('"' :: span) behind)
  rw [List.length_append, List.cons_append] at hlength
  omega

/-- Behind a name, a colon and a double quote, the span and the rest are cut out if the span
ends. -/
theorem scanFirst?_octetsOf_of_name {name rest : List Char} (hname : name ≠ [])
    (hall : ∀ c ∈ name, isNameChar c) :
    scanFirst? (octetsOf (name ++ ':' :: '"' :: rest))
      = some ((splitSpan? rest).map fun split =>
          (octetsOf name, octetsOf ('"' :: split.1), octetsOf split.2)) := by
  have htake : (name ++ ':' :: '"' :: rest).takeWhile isNameChar = name := by
    rw [List.takeWhile_append_of_pos hall, List.takeWhile_cons_of_neg (by decide),
      List.append_nil]
  have htext : octetsOf (name ++ ':' :: '"' :: rest)
      = octetsOf name ++ 0x3A :: 0x22 :: octetsOf rest := octetsOf_append _ _
  have hcutName : slice? (octetsOf (name ++ ':' :: '"' :: rest)) 0 (octetsOf name).length
      = some (octetsOf name) := slice?_octetsOf [] name _
  have hcutRest : slice? (octetsOf (name ++ ':' :: '"' :: rest)) ((octetsOf name).length + 1)
      (octetsOf (name ++ ':' :: '"' :: rest)).length = some (octetsOf ('"' :: rest)) := by
    have hcut := slice?_octetsOf (name ++ [':']) ('"' :: rest) []
    rw [List.append_nil, List.append_assoc, octetsOf_append name [':'], List.length_append] at hcut
    exact hcut
  -- The name is there, and a colon and a double quote stand behind it.
  have hhead : ¬ ((octetsOf name).length = 0
      ∨ (octetsOf (name ++ ':' :: '"' :: rest)).length ≤ (octetsOf name).length + 1
      ∨ (octetsOf (name ++ ':' :: '"' :: rest))[(octetsOf name).length]? ≠ some 0x3A
      ∨ (octetsOf (name ++ ':' :: '"' :: rest))[(octetsOf name).length + 1]? ≠ some 0x22) := by
    simp [htext, octetsOf_ne_nil hname]
  have hquote : closingQuote (octetsOf ('"' :: rest)) 1 = closingQuote (octetsOf rest) 0 + 1 :=
    closingQuote_cons 0x22 (octetsOf rest) 0
  unfold scanFirst?
  simp only [takeWhile_octetsOf isNameOctet_eq, htake]
  rw [if_neg hhead, hcutName, hcutRest]
  simp only [Option.bind_eq_bind, Option.bind_some, Option.pure_def, hquote]
  cases hsplit : splitSpan? rest with
  | none =>
    have hend : (octetsOf ('"' :: rest)).length ≤ closingQuote (octetsOf rest) 0 + 1 :=
      Nat.add_le_add_right (length_le_closingQuote hsplit) 1
    rw [if_pos hend]
    rfl
  | some split =>
    obtain ⟨hshort, hspan, hbehind⟩ := slice?_span hsplit
    rw [if_neg (Nat.not_le_of_lt hshort), hspan, hbehind]
    rfl

/-- The same entry is split off, and all cuts are between characters. -/
theorem scanFirst?_octetsOf (text : List Char) :
    scanFirst? (octetsOf text)
      = some ((Entry.first? text).map fun split =>
          (octetsOf split.1.name, octetsOf split.1.span, octetsOf split.2)) := by
  have htext := List.takeWhile_append_dropWhile (p := isNameChar) (l := text)
  unfold Entry.first?
  dsimp only
  split
  case isTrue hname => exact scanFirst?_octetsOf_of_not (.inl (List.isEmpty_iff.mp hname))
  case isFalse hname =>
    split
    case h_1 rest hdrop =>
      rw [hdrop] at htext
      -- Behind the name stand a colon and a double quote, as in an entry.
      have hne : text.takeWhile isNameChar ≠ [] := fun hnil => hname (List.isEmpty_iff.mpr hnil)
      have hall : ∀ c ∈ text.takeWhile isNameChar, isNameChar c :=
        fun c hc => List.mem_takeWhile_imp hc
      rw [← htext, scanFirst?_octetsOf_of_name hne hall, htext, Option.map_map]
      rfl
    case h_2 hhead =>
      exact scanFirst?_octetsOf_of_not (.inr fun ⟨rest, hdrop⟩ => hhead rest hdrop)

/-! ### Looking up -/

/-- Different characters have different octets, since they are read back from them. -/
theorem octetsOf_inj {cs ds : List Char} : octetsOf cs = octetsOf ds ↔ cs = ds := by
  refine ⟨fun h => ?_, fun h => by rw [h]⟩
  have hread := congrArg ofUtf8? h
  rw [ofUtf8?_octetsOf, ofUtf8?_octetsOf] at hread
  exact String.ofList_injective (Option.some.inj hread)

/-- Nothing is found where no entry is split off. -/
theorem find_of_first?_eq_none {key tag : List Char} (h : Entry.first? (skipSpaces tag) = none) :
    find key tag = .missing := by
  rw [find]
  split
  case h_1 => rfl
  case h_2 hsome => rw [h] at hsome; cases hsome

/-- The scan ends where no entry is split off. -/
theorem scan?_of_scanFirst?_eq_none {key tag : List UInt8}
    (h : scanFirst? (tag.dropWhile (· = 0x20)) = some none) : scan? key tag = some .missing := by
  rw [scan?]
  split
  case isTrue => rfl
  case isFalse =>
    split
    case h_1 hnone => rw [h] at hnone; cases hnone
    case h_2 => rfl
    case h_3 hsome => rw [h] at hsome; cases hsome

/-- An entry of the key answers, and an entry of another key is passed over. -/
theorem scan?_of_scanFirst?_eq_some {key tag behind : List UInt8} {entry : Entry}
    (h : scanFirst? (tag.dropWhile (· = 0x20))
      = some (some (octetsOf entry.name, octetsOf entry.span, behind))) :
    scan? key tag = if octetsOf entry.name = key then some entry.lookup else scan? key behind := by
  rw [scan?]
  split
  case isTrue hempty =>
    -- No entry is split off an empty tag.
    rw [List.isEmpty_iff.mp hempty] at h
    cases h
  case isFalse =>
    split
    case h_1 hnone => rw [h] at hnone; cases hnone
    case h_2 hnone => rw [h] at hnone; cases hnone
    case h_3 hsome =>
      rw [h] at hsome
      obtain ⟨rfl, hrest⟩ := Prod.mk.inj (Option.some.inj (Option.some.inj hsome))
      obtain ⟨rfl, rfl⟩ := Prod.mk.inj hrest
      simp only [ofUtf8?_octetsOf, Option.bind_eq_bind, Option.bind_some, String.toList_ofList]
      unfold Entry.lookup
      cases unquote entry.span <;> rfl

/-- A scan by octets finds what a look-up by characters finds. In particular it has an answer:
no cut is out of range or inside a character. -/
theorem scan?_octetsOf (key tag : List Char) :
    scan? (octetsOf key) (octetsOf tag) = some (find key tag) := by
  induction hlength : tag.length using Nat.strongRecOn generalizing tag with
  | ind n ih =>
    have hscan := scanFirst?_octetsOf (skipSpaces tag)
    rw [skipSpaces, ← dropWhile_octetsOf isSpaceOctet_eq] at hscan
    cases hfirst : Entry.first? (skipSpaces tag) with
    | none =>
      rw [skipSpaces] at hfirst
      rw [hfirst] at hscan
      rw [scan?_of_scanFirst?_eq_none hscan, find_of_first?_eq_none hfirst]
    | some split =>
      obtain ⟨entry, behind⟩ := split
      -- The scan goes on behind the entry, on fewer characters.
      have hshorter : behind.length < n := by
        rw [← hlength]
        exact Nat.lt_of_lt_of_le (Entry.length_of_first? hfirst)
          (List.dropWhile_sublist _ (l := tag)).length_le
      rw [skipSpaces] at hfirst
      rw [hfirst] at hscan
      rw [scan?_of_scanFirst?_eq_some hscan, find_of_first? hfirst, ih _ hshorter behind rfl]
      by_cases hkey : entry.name = key
      · rw [if_pos hkey, if_pos (octetsOf_inj.mpr hkey)]
      · rw [if_neg hkey, if_neg fun hoctets => hkey (octetsOf_inj.mp hoctets)]

end ServiceTypes.Tag
