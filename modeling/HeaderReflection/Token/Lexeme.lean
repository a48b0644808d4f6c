import HeaderReflection.Token

/-!
# Cutting the first token off a text

`Lexeme.cut` splits a nonempty text into its first token and what follows. The only text that has
no first token is one that starts with a string without a closing quote. Nothing is lost by a cut
(`Lexeme.text_append_rest`) and every token holds a character (`Lexeme.text_ne_nil`).
-/

namespace HeaderReflection

/-- The first token of a text and what follows it. -/
structure Lexeme where
  /-- The category of the token. -/
  kind : TokenKind
  /-- The characters of the token. -/
  text : List Char
  /-- The characters after it. -/
  rest : List Char

namespace Lexeme

/-! ## Where a literal or comment ends -/

/-- Splits a text after the first double quote that no backslash escapes. -/
def splitString : List Char → Option (List Char × List Char)
  | [] => none
  | '"' :: cs => some (['"'], cs)
  | '\\' :: c :: cs => (splitString cs).map fun p => ('\\' :: c :: p.1, p.2)
  | c :: cs => (splitString cs).map fun p => (c :: p.1, p.2)

/-- Splits a text after the first single quote that no backslash escapes, if that quote comes
before the end of the line. -/
def splitCharacter : List Char → Option (List Char × List Char)
  | [] => none
  | '\n' :: _ => none
  | '\'' :: cs => some (['\''], cs)
  | '\\' :: c :: cs =>
    if c = '\n' then none else (splitCharacter cs).map fun p => ('\\' :: c :: p.1, p.2)
  | c :: cs => (splitCharacter cs).map fun p => (c :: p.1, p.2)

/-- Splits a text after the first end of a block comment; without one nothing is left. -/
def splitBlock : List Char → List Char × List Char
  | [] => ([], [])
  | '*' :: '/' :: cs => (['*', '/'], cs)
  | c :: cs => (c :: (splitBlock cs).1, (splitBlock cs).2)

/-! ## The cut -/

/-- Cuts the first token off the text `c :: cs`, or fails at a string that is never closed. -/
def cut (c : Char) (cs : List Char) : Option Lexeme :=
  if c = ' ' ∨ c = '\t' then some ⟨.space, [c], cs⟩
  else if c = '\n' then some ⟨.lineEnd, [c], cs⟩
  else if c = '[' ∧ cs.head? = some '[' then some ⟨.attributeOpen, ['[', '['], cs.tail⟩
  else if c = ']' ∧ cs.head? = some ']' then some ⟨.attributeClose, [']', ']'], cs.tail⟩
  else if c = '/' ∧ cs.head? = some '/' then
    some ⟨.comment, c :: cs.takeWhile (· ≠ '\n'), cs.dropWhile (· ≠ '\n')⟩
  else if c = '/' ∧ cs.head? = some '*' then
    some ⟨.comment, '/' :: '*' :: (splitBlock cs.tail).1, (splitBlock cs.tail).2⟩
  else if c = '"' then (splitString cs).map fun p => ⟨.stringLiteral, '"' :: p.1, p.2⟩
  else if c = '\'' then
    match splitCharacter cs with
    | some p => some ⟨.charLiteral, '\'' :: p.1, p.2⟩
    | none => some ⟨.identifier, ['\''], cs⟩
  else if c.isDigit then
    some ⟨.numberLiteral, c :: cs.takeWhile Char.isDigit, cs.dropWhile Char.isDigit⟩
  else if isWordStart c then
    let word := c :: cs.takeWhile isWordChar
    some ⟨(TokenKind.keyword? word).getD .identifier, word, cs.dropWhile isWordChar⟩
  else some ⟨.ofSign c, [c], cs⟩

/-! ## A cut loses nothing -/

theorem splitString_append {cs : List Char} {p : List Char × List Char}
    (h : splitString cs = some p) : p.1 ++ p.2 = cs := by
  fun_induction splitString cs generalizing p with
  | case1 => simp at h
  | case2 cs => cases h; rfl
  | case3 c cs ih =>
    obtain ⟨q, hq, rfl⟩ := Option.map_eq_some_iff.1 h
    simp [ih hq]
  | case4 c cs _ _ ih =>
    obtain ⟨q, hq, rfl⟩ := Option.map_eq_some_iff.1 h
    simp [ih hq]

theorem splitCharacter_append {cs : List Char} {p : List Char × List Char}
    (h : splitCharacter cs = some p) : p.1 ++ p.2 = cs := by
  fun_induction splitCharacter cs generalizing p with
  | case1 => simp at h
  | case2 => simp at h
  | case3 => cases h; rfl
  | case4 => simp at h
  | case5 c cs _ ih =>
    obtain ⟨q, hq, rfl⟩ := Option.map_eq_some_iff.1 h
    simp [ih hq]
  | case6 c cs _ _ _ ih =>
    obtain ⟨q, hq, rfl⟩ := Option.map_eq_some_iff.1 h
    simp [ih hq]

theorem splitBlock_append (cs : List Char) : (splitBlock cs).1 ++ (splitBlock cs).2 = cs := by
  fun_induction splitBlock cs with
  | case1 => rfl
  | case2 => rfl
  | case3 c cs _ ih => simp [ih]

private theorem cons_tail_of_head? {c : Char} {cs : List Char} (h : cs.head? = some c) :
    c :: cs.tail = cs := by
  cases cs <;> simp_all

/-- The token and what follows it make up the text. -/
theorem text_append_rest {c : Char} {cs : List Char} {l : Lexeme} (h : cut c cs = some l) :
    l.text ++ l.rest = c :: cs := by
  unfold cut at h
  split at h
  · cases h; rfl
  split at h
  · cases h; rfl
  split at h
  next hb => cases h; simp [hb.1, cons_tail_of_head? hb.2]
  split at h
  next hb => cases h; simp [hb.1, cons_tail_of_head? hb.2]
  split at h
  · cases h; simp
  split at h
  next hb => cases h; simp [splitBlock_append, hb.1, cons_tail_of_head? hb.2]
  split at h
  next hq =>
    obtain ⟨p, hp, rfl⟩ := Option.map_eq_some_iff.1 h
    simp [splitString_append hp, hq]
  split at h
  next hq =>
    split at h
    next p hp => cases h; simp [splitCharacter_append hp, hq]
    next => cases h; simp [hq]
  split at h
  · cases h; simp
  split at h <;> (cases h; simp)

/-- A token holds at least one character. -/
theorem text_ne_nil {c : Char} {cs : List Char} {l : Lexeme} (h : cut c cs = some l) :
    l.text ≠ [] := by
  unfold cut at h
  repeat' split at h
  all_goals first
    | (cases h; simp)
    | (obtain ⟨p, _, rfl⟩ := Option.map_eq_some_iff.1 h; simp)

/-- What follows the first token is no longer than what follows the first character. -/
theorem length_rest_le {c : Char} {cs : List Char} {l : Lexeme} (h : cut c cs = some l) :
    l.rest.length ≤ cs.length := by
  have hlen := congrArg List.length (text_append_rest h)
  have hpos := List.length_pos_iff.2 (text_ne_nil h)
  simp at hlen
  omega

end Lexeme

end HeaderReflection
