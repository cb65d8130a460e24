import ServiceTypes.Http.Message
import ServiceTypes.Json.Value

/-!
# `ServiceTypes.Proofs.Json.Word`: words that are no token

Outside strings, a text is cut into words, and each word has to be a token.
A word that starts like no token makes the whole text fail, wherever the
word ends. The theorems:

* `ofWord?_cons_eq_none`: how every token starts that is a word.
* `foldlM_step_word`: the text fails once another word has begun.
* `ofText_of_protocol`: what starts like an HTTP message is no JSON text.
-/

set_option autoImplicit false

namespace ServiceTypes.Json

/-- A word starts like a literal or like a numeral. -/
theorem ofWord?_cons_eq_none {c : Char} (hnull : c ≠ 'n') (htrue : c ≠ 't') (hfalse : c ≠ 'f')
    (hminus : c ≠ '-') (hdigit : c.isDigit = false) (more : List Char) :
    Token.ofWord? (c :: more) = none := by
  -- A numeral starts with a minus or with a digit.
  have hwhole : (c :: more).takeWhile Char.isDigit = [] := by
    rw [List.takeWhile_cons, hdigit]
    rfl
  have hunsigned : Numeral.ofUnsigned? false (c :: more) = none := by
    unfold Numeral.ofUnsigned?
    simp only [hwhole, true_or, if_true]
    rfl
  have hnumeral : Numeral.ofWord? (c :: more) = none := by
    unfold Numeral.ofWord?
    split
    case h_1 rest heq => exact absurd (List.cons.inj heq).1 hminus
    case h_2 => exact hunsigned
  unfold Token.ofWord?
  rw [if_neg fun heq => hnull (List.cons.inj heq).1, if_neg fun heq => htrue (List.cons.inj heq).1,
    if_neg fun heq => hfalse (List.cons.inj heq).1, hnumeral]
  rfl

/-- A word that is no token ends in an error. -/
theorem endWord_eq_error {letters : List Char}
    (h : ∀ more, Token.ofWord? (letters.reverse ++ more) = none) (ts : List Token) :
    endWord ts letters = .error .malformed := by
  have hword := h []
  rw [List.append_nil] at hword
  unfold endWord
  rw [hword]

/-- A word that starts like no token makes the text fail. -/
theorem foldlM_step_word {letters : List Char}
    (h : ∀ more, Token.ofWord? (letters.reverse ++ more) = none) (ts : List Token)
    (text : List UInt8) :
    (text.foldlM Scan.step ⟨.word letters, ts⟩ >>= Scan.finish) = .error .malformed := by
  induction text generalizing letters with
  | nil =>
    show (endWord ts letters >>= fun tokens => Except.ok tokens.reverse) = _
    rw [endWord_eq_error h]
    rfl
  | cons b text ih =>
    rw [List.foldlM_cons]
    by_cases hb : endsWord b
    · -- The word ends here, and its letters are no token.
      have hstep : Scan.step ⟨.word letters, ts⟩ b = .error .malformed := by
        show (if endsWord b then _ else _) = _
        rw [if_pos hb]
        show (endWord ts letters >>= fun tokens => Except.ok (Scan.begin tokens b)) = _
        rw [endWord_eq_error h]
        rfl
      rw [hstep]
      rfl
    · have hstep : Scan.step ⟨.word letters, ts⟩ b
          = .ok ⟨.word (Char.ofNat b.toNat :: letters), ts⟩ := if_neg hb
      rw [hstep]
      -- The longer word is the beginning of no token either.
      refine ih fun more => ?_
      rw [List.reverse_cons, List.append_assoc]
      exact h _

/-- What starts like an HTTP message is no JSON text. -/
theorem ofText_of_protocol {text : List UInt8}
    (h : Http.protocolOctets.isPrefixOf text = true) : Value.ofText text = .error .malformed := by
  obtain ⟨rest, rfl⟩ := List.isPrefixOf_iff_prefix.mp h
  have hword : ∀ more, Token.ofWord? (['H'].reverse ++ more) = none := fun more =>
    ofWord?_cons_eq_none (by decide) (by decide) (by decide) (by decide) (by decide) more
  -- The first octet begins a word, and the others cannot save it.
  have hrun := foldlM_step_word hword [] ([0x54, 0x54, 0x50, 0x2F] ++ rest)
  have htokens : tokens (Http.protocolOctets ++ rest) = .error .malformed := hrun
  unfold Value.ofText Node.ofText
  rw [htokens]
  rfl

end ServiceTypes.Json
