import HeaderReflection.Token.Lexer

/-!
# What follows a token

The first token of a text depends on its first character and, for some characters, on what comes
next. Each class of characters has an equation for the cut below. Of what follows a token the cut
looks at the next character alone, except after a quote that starts no literal, where it looks at
the rest of the line. So a token is cut off again when something else follows that looks the same
from there (`Lexeme.cut_replace`).
-/

namespace HeaderReflection

namespace Lexeme

/-! ## The cut by the first character -/

theorem cut_blank {c : Char} (h : c = ' ' ∨ c = '\t') (cs : List Char) :
    cut c cs = some ⟨.space, [c], cs⟩ := by
  rw [cut, if_pos h]

theorem cut_lineEnd (cs : List Char) : cut '\n' cs = some ⟨.lineEnd, ['\n'], cs⟩ := rfl

theorem cut_openBracket (cs : List Char) :
    cut '[' cs =
      if cs.head? = some '[' then some ⟨.attributeOpen, ['[', '['], cs.tail⟩
      else some ⟨.openBracket, ['['], cs⟩ := by
  have hword : isWordStart '[' = false := by decide
  simp [cut, hword]
  rfl

theorem cut_closeBracket (cs : List Char) :
    cut ']' cs =
      if cs.head? = some ']' then some ⟨.attributeClose, [']', ']'], cs.tail⟩
      else some ⟨.closeBracket, [']'], cs⟩ := by
  have hword : isWordStart ']' = false := by decide
  simp [cut, hword]
  rfl

theorem cut_slash (cs : List Char) :
    cut '/' cs =
      if cs.head? = some '/' then
        some ⟨.comment, '/' :: cs.takeWhile (· ≠ '\n'), cs.dropWhile (· ≠ '\n')⟩
      else if cs.head? = some '*' then
        some ⟨.comment, '/' :: '*' :: (splitBlock cs.tail).1, (splitBlock cs.tail).2⟩
      else some ⟨.identifier, ['/'], cs⟩ := by
  have hword : isWordStart '/' = false := by decide
  simp [cut, hword]
  rfl

theorem cut_doubleQuote (cs : List Char) :
    cut '"' cs = (splitString cs).map fun p => ⟨.stringLiteral, '"' :: p.1, p.2⟩ := rfl

theorem cut_quote (cs : List Char) :
    cut '\'' cs =
      match splitCharacter cs with
      | some p => some ⟨.charLiteral, '\'' :: p.1, p.2⟩
      | none => some ⟨.identifier, ['\''], cs⟩ := rfl

/-- The characters that the cut treats each in its own way. -/
def IsSpecial (c : Char) : Prop := c ∈ [' ', '\t', '\n', '[', ']', '/', '"', '\'']

/-- All other characters start a number, a word or a sign. -/
theorem cut_plain {c : Char} (h : ¬IsSpecial c) (cs : List Char) :
    cut c cs =
      if c.isDigit then
        some ⟨.numberLiteral, c :: cs.takeWhile Char.isDigit, cs.dropWhile Char.isDigit⟩
      else if isWordStart c then
        some ⟨(TokenKind.keyword? (c :: cs.takeWhile isWordChar)).getD .identifier,
          c :: cs.takeWhile isWordChar, cs.dropWhile isWordChar⟩
      else some ⟨.ofSign c, [c], cs⟩ := by
  simp only [IsSpecial, List.mem_cons, List.not_mem_nil, or_false, not_or] at h
  simp [cut, h]

/-! ## Something else after a token -/

/-- To a token that is no comment, `after` looks like `before`: the next character is the same, or
nothing, a blank or a line end comes instead, and a quote is not closed by it if it was not. -/
structure LooksLike (before after : List Char) : Prop where
  head : after.head? = before.head? ∨ ∀ c ∈ after.head?, c = ' ' ∨ c = '\n'
  quote : splitCharacter before = none → splitCharacter after = none

variable {before after : List Char}

/-- A character that is no blank does not come next if it did not before. -/
theorem LooksLike.head?_ne (h : LooksLike before after) {c : Char} (hc : c ≠ ' ' ∧ c ≠ '\n')
    (hbefore : before.head? ≠ some c) : after.head? ≠ some c := by
  intro hafter
  rcases h.head with hsame | hblank
  · exact hbefore (hsame ▸ hafter)
  · rcases hblank c hafter with hspace | hline
    · exact hc.1 hspace
    · exact hc.2 hline

/-- A run of characters ends where it ended. -/
theorem LooksLike.takeWhile_append {p : Char → Bool} {cs : List Char}
    (h : LooksLike (cs.dropWhile p) after) (hspace : p ' ' = false) (hline : p '\n' = false) :
    (cs.takeWhile p ++ after).takeWhile p = cs.takeWhile p ∧
      (cs.takeWhile p ++ after).dropWhile p = after := by
  have hrun : ∀ c ∈ cs.takeWhile p, p c = true :=
    List.all_eq_true.1 List.all_takeWhile
  rw [List.takeWhile_append_of_pos hrun, List.dropWhile_append_of_pos hrun]
  cases after with
  | nil => simp
  | cons c after =>
    have hc : p c = false := by
      rcases h.head with hsame | hblank
      · have hnot := List.head?_dropWhile_not p cs
        rw [← hsame] at hnot
        exact hnot
      · rcases hblank c rfl with rfl | rfl
        · exact hspace
        · exact hline
    simp [hc]

/-- A string ends at its closing quote, whatever comes after it. -/
theorem splitString_append_of_some {cs : List Char} {p : List Char × List Char}
    (h : splitString cs = some p) (after : List Char) :
    splitString (p.1 ++ after) = some (p.1, after) := by
  fun_induction splitString cs generalizing p with
  | case1 => cases h
  | case2 cs => cases h; rfl
  | case3 c cs ih =>
    obtain ⟨q, hq, rfl⟩ := Option.map_eq_some_iff.1 h
    rw [List.cons_append, List.cons_append, splitString, ih hq]
    rfl
  | case4 c cs hquote hescape ih =>
    obtain ⟨q, hq, rfl⟩ := Option.map_eq_some_iff.1 h
    have hslash : c ≠ '\\' := by
      intro hc
      cases cs with
      | nil => cases hq
      | cons d ds => exact hescape d ds hc rfl
    rw [List.cons_append, splitString, ih hq]
    · rfl
    · exact hquote
    · exact fun _ _ hc _ => hslash hc

/-- A character literal ends at its closing quote, whatever comes after it. -/
theorem splitCharacter_append_of_some {cs : List Char} {p : List Char × List Char}
    (h : splitCharacter cs = some p) (after : List Char) :
    splitCharacter (p.1 ++ after) = some (p.1, after) := by
  fun_induction splitCharacter cs generalizing p with
  | case1 => cases h
  | case2 => cases h
  | case3 cs => cases h; rfl
  | case4 => cases h
  | case5 c cs hline ih =>
    obtain ⟨q, hq, rfl⟩ := Option.map_eq_some_iff.1 h
    rw [List.cons_append, List.cons_append, splitCharacter, if_neg hline, ih hq]
    rfl
  | case6 c cs hline hquote hescape ih =>
    obtain ⟨q, hq, rfl⟩ := Option.map_eq_some_iff.1 h
    have hslash : c ≠ '\\' := by
      intro hc
      cases cs with
      | nil => cases hq
      | cons d ds => exact hescape d ds hc rfl
    rw [List.cons_append, splitCharacter, ih hq]
    · rfl
    · exact hline
    · exact hquote
    · exact fun _ _ hc _ => hslash hc

/-- A token starts with the first character of its text. -/
theorem cons_tail_text {c : Char} {cs : List Char} {l : Lexeme} (h : cut c cs = some l) :
    c :: l.text.tail = l.text := by
  have happend := text_append_rest h
  cases htext : l.text with
  | nil => exact absurd htext (text_ne_nil h)
  | cons d text =>
    rw [htext, List.cons_append, List.cons.injEq] at happend
    rw [happend.1, List.tail_cons]

/-- **A token that is no comment is cut off again** when what follows it is replaced by something
that looks like it. -/
theorem cut_replace {c : Char} {cs : List Char} {l : Lexeme} (h : cut c cs = some l)
    (hcomment : l.kind ≠ .comment) (hafter : LooksLike l.rest after) :
    cut c (l.text.tail ++ after) = some ⟨l.kind, l.text, after⟩ := by
  by_cases hspecial : IsSpecial c
  · simp only [IsSpecial, List.mem_cons, List.not_mem_nil, or_false] at hspecial
    rcases hspecial with rfl | rfl | rfl | rfl | rfl | rfl | rfl | rfl
    · rw [cut_blank (.inl rfl)] at h; cases h; rfl
    · rw [cut_blank (.inr rfl)] at h; cases h; rfl
    · rw [cut_lineEnd] at h; cases h; rfl
    · rw [cut_openBracket] at h
      split at h
      next hopen => cases h; rfl
      next hopen =>
        cases h
        exact (cut_openBracket after).trans (if_neg (hafter.head?_ne (by decide) hopen))
    · rw [cut_closeBracket] at h
      split at h
      next hclose => cases h; rfl
      next hclose =>
        cases h
        exact (cut_closeBracket after).trans (if_neg (hafter.head?_ne (by decide) hclose))
    · rw [cut_slash] at h
      split at h
      next => cases h; exact absurd rfl hcomment
      next hline =>
        split at h
        next => cases h; exact absurd rfl hcomment
        next hblock =>
          cases h
          exact (cut_slash after).trans ((if_neg (hafter.head?_ne (by decide) hline)).trans
            (if_neg (hafter.head?_ne (by decide) hblock)))
    · rw [cut_doubleQuote] at h
      obtain ⟨p, hp, rfl⟩ := Option.map_eq_some_iff.1 h
      show cut '"' (p.1 ++ after) = _
      rw [cut_doubleQuote, splitString_append_of_some hp]
      rfl
    · rw [cut_quote] at h
      split at h
      next p hp =>
        cases h
        show cut '\'' (p.1 ++ after) = _
        rw [cut_quote, splitCharacter_append_of_some hp]
      next hnone =>
        cases h
        show cut '\'' after = _
        rw [cut_quote, hafter.quote hnone]
  · rw [cut_plain hspecial] at h
    split at h
    next hdigit =>
      cases h
      obtain ⟨htake, hdrop⟩ := hafter.takeWhile_append (by decide) (by decide)
      show cut c (cs.takeWhile Char.isDigit ++ after) = _
      rw [cut_plain hspecial, if_pos hdigit, htake, hdrop]
    next hdigit =>
      split at h
      next hword =>
        cases h
        obtain ⟨htake, hdrop⟩ := hafter.takeWhile_append (by decide) (by decide)
        show cut c (cs.takeWhile isWordChar ++ after) = _
        rw [cut_plain hspecial, if_neg hdigit, if_pos hword, htake, hdrop]
      next hword =>
        cases h
        show cut c after = _
        rw [cut_plain hspecial, if_neg hdigit, if_neg hword]

end Lexeme

end HeaderReflection
