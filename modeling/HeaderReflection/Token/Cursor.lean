import HeaderReflection.Token.Lexeme

/-!
# The cursor of a lexer

A cursor stands in a text and counts the characters, lines and columns that it has passed. The
scanners below move it past one token. The scanner of character literals may run ahead of a quote
that starts none; the cursor is then put back, but for its line.

What a scanner passes is what `Lexeme.cut` cuts off, and the cursor stands past it
(`Cursor.scan_eq_cut`).
-/

namespace HeaderReflection

/-- A place in a text and the characters from there on. -/
structure Cursor where
  /-- The place of the next character. -/
  position : Position := {}
  /-- The characters that are left. -/
  rest : List Char
  deriving DecidableEq, Repr

namespace Cursor

/-! ## Moving -/

/-- The character after the next one. -/
def peek (cursor : Cursor) : Option Char := cursor.rest.tail.head?

/-- Passes one character; at the end of the text the cursor stays. -/
def advance (cursor : Cursor) : Cursor :=
  match cursor.rest with
  | [] => cursor
  | c :: cs => ⟨cursor.position.step c, cs⟩

/-- Passes several characters. -/
def advanceBy : Nat → Cursor → Cursor
  | 0, cursor => cursor
  | n + 1, cursor => advanceBy n cursor.advance

/-- Passes characters as long as they are of a class. -/
def advanceWhile (p : Char → Bool) (position : Position) : List Char → Cursor
  | [] => ⟨position, []⟩
  | c :: cs => if p c then advanceWhile p (position.step c) cs else ⟨position, c :: cs⟩

/-- Passes a string after its opening quote; tells whether the closing quote came. -/
def passString (position : Position) : List Char → Bool × Cursor
  | [] => (false, ⟨position, []⟩)
  | '"' :: cs => (true, ⟨position.step '"', cs⟩)
  | '\\' :: c :: cs => passString ((position.step '\\').step c) cs
  | c :: cs => passString (position.step c) cs

/-- Passes a character literal after its opening quote; tells whether the closing quote came before
the end of the line. -/
def passCharacter (position : Position) : List Char → Bool × Cursor
  | [] => (false, ⟨position, []⟩)
  | '\n' :: cs => (false, ⟨position, '\n' :: cs⟩)
  | '\'' :: cs => (true, ⟨position.step '\'', cs⟩)
  | '\\' :: c :: cs =>
    if c = '\n' then passCharacter (position.step '\\') (c :: cs)
    else passCharacter ((position.step '\\').step c) cs
  | c :: cs => passCharacter (position.step c) cs

/-- Passes a block comment after its opening; without an end it runs to the end of the text. -/
def passBlock (position : Position) : List Char → Cursor
  | [] => ⟨position, []⟩
  | '*' :: '/' :: cs => ⟨(position.step '*').step '/', cs⟩
  | c :: cs => passBlock (position.step c) cs

/-- Goes back to where a scanner started. The line stays the one that was reached. -/
def backTo (start : Cursor) (reached : Cursor) : Cursor where
  position :=
    { reached.position with offset := start.position.offset, column := start.position.column }
  rest := start.rest

/-- The characters between two cursors in one text. -/
def slice (start reached : Cursor) : List Char :=
  start.rest.take (reached.position.offset - start.position.offset)

/-! ## One token -/

/-- Passes a block comment. -/
def scanBlock (start : Cursor) : Cursor :=
  passBlock (start.advanceBy 2).position (start.advanceBy 2).rest

/-- Passes a string, if it has an end. -/
def scanString (start : Cursor) : Option TokenKind × Cursor :=
  let passed := passString start.advance.position start.advance.rest
  (if passed.1 then some .stringLiteral else none, passed.2)

/-- Passes a character literal, or its quote alone if the literal has no end on its line. -/
def scanQuote (start : Cursor) : Option TokenKind × Cursor :=
  let passed := passCharacter start.advance.position start.advance.rest
  if passed.1 then (some .charLiteral, passed.2)
  else (some (.ofSign '\''), (start.backTo passed.2).advance)

/-- Passes a word, which may be a keyword. -/
def scanWord (start : Cursor) : Option TokenKind × Cursor :=
  let passed := advanceWhile isWordChar start.position start.rest
  (some ((TokenKind.keyword? (start.slice passed)).getD .identifier), passed)

/-- Passes the token that starts with `c`, the next character. Gives the category of the token, if
it is no string without an end, and the cursor after it. -/
def scan (start : Cursor) (c : Char) : Option TokenKind × Cursor :=
  if c = ' ' ∨ c = '\t' then (some .space, start.advance)
  else if c = '\n' then (some .lineEnd, start.advance)
  else if c = '[' ∧ start.peek = some '[' then (some .attributeOpen, start.advanceBy 2)
  else if c = ']' ∧ start.peek = some ']' then (some .attributeClose, start.advanceBy 2)
  else if c = '/' ∧ start.peek = some '/' then
    (some .comment, advanceWhile (· ≠ '\n') start.position start.rest)
  else if c = '/' ∧ start.peek = some '*' then (some .comment, start.scanBlock)
  else if c = '"' then start.scanString
  else if c = '\'' then start.scanQuote
  else if c.isDigit then (some .numberLiteral, advanceWhile Char.isDigit start.position start.rest)
  else if isWordStart c then start.scanWord
  else (some (.ofSign c), start.advance)

/-! ## What the scanners pass -/

theorem advanceWhile_eq (p : Char → Bool) (position : Position) (cs : List Char) :
    advanceWhile p position cs = ⟨position.advance (cs.takeWhile p), cs.dropWhile p⟩ := by
  induction cs generalizing position with
  | nil => rfl
  | cons c cs ih =>
    by_cases h : p c = true
    · rw [advanceWhile, if_pos h, ih, List.takeWhile_cons_of_pos h, List.dropWhile_cons_of_pos h]
      rfl
    · rw [advanceWhile, if_neg h, List.takeWhile_cons_of_neg h, List.dropWhile_cons_of_neg h]
      rfl

/-- A string is passed up to its closing quote, or the whole text is. -/
theorem passString_eq (position : Position) (cs : List Char) :
    passString position cs =
      match Lexeme.splitString cs with
      | some p => (true, ⟨position.advance p.1, p.2⟩)
      | none => (false, ⟨position.advance cs, []⟩) := by
  fun_induction passString position cs with
  | case1 position => rfl
  | case2 position cs => rfl
  | case3 position c cs ih =>
    rw [ih, Lexeme.splitString]
    cases Lexeme.splitString cs <;> rfl
  | case4 position c cs hquote hescape ih =>
    rw [ih, Lexeme.splitString]
    · cases Lexeme.splitString cs <;> rfl
    · exact hquote
    · exact hescape

/-- A literal is passed up to its closing quote, if that quote comes on the line. -/
theorem passCharacter_of_some (position : Position) {cs : List Char} {p : List Char × List Char}
    (h : Lexeme.splitCharacter cs = some p) :
    passCharacter position cs = (true, ⟨position.advance p.1, p.2⟩) := by
  fun_induction passCharacter position cs generalizing p with
  | case1 position => simp [Lexeme.splitCharacter] at h
  | case2 position cs => simp [Lexeme.splitCharacter] at h
  | case3 position cs =>
    cases h
    rfl
  | case4 position cs ih =>
    rw [Lexeme.splitCharacter, if_pos rfl] at h
    simp at h
  | case5 position c cs hline ih =>
    rw [Lexeme.splitCharacter, if_neg hline] at h
    obtain ⟨q, hq, rfl⟩ := Option.map_eq_some_iff.1 h
    rw [ih hq]
    rfl
  | case6 position c cs hline hquote hescape ih =>
    rw [Lexeme.splitCharacter] at h
    · obtain ⟨q, hq, rfl⟩ := Option.map_eq_some_iff.1 h
      rw [ih hq]
      rfl
    all_goals assumption

/-- The scanner of a character literal that is never closed stays on its line. This is why the
cursor needs no other line when it is put back. -/
theorem passCharacter_of_none (position : Position) {cs : List Char}
    (h : Lexeme.splitCharacter cs = none) :
    (passCharacter position cs).1 = false ∧
      (passCharacter position cs).2.position.line = position.line := by
  have hstep : ∀ (position : Position) (c : Char), c ≠ '\n' →
      (position.step c).line = position.line := by
    intro position c hc
    rw [Position.step, if_neg hc]
  fun_induction passCharacter position cs with
  | case1 position => exact ⟨rfl, rfl⟩
  | case2 position cs => exact ⟨rfl, rfl⟩
  | case3 position cs => simp [Lexeme.splitCharacter] at h
  | case4 position cs ih =>
    obtain ⟨hopen, hline⟩ := ih rfl
    exact ⟨hopen, hline.trans (hstep _ _ (by decide))⟩
  | case5 position c cs hc ih =>
    rw [Lexeme.splitCharacter, if_neg hc, Option.map_eq_none_iff] at h
    obtain ⟨hopen, hline⟩ := ih h
    exact ⟨hopen, hline.trans ((hstep _ _ hc).trans (hstep _ _ (by decide)))⟩
  | case6 position c cs hc hquote hescape ih =>
    rw [Lexeme.splitCharacter] at h
    · obtain ⟨hopen, hline⟩ := ih (Option.map_eq_none_iff.1 h)
      exact ⟨hopen, hline.trans (hstep _ _ hc)⟩
    all_goals assumption

theorem passBlock_eq (position : Position) (cs : List Char) :
    passBlock position cs =
      ⟨position.advance (Lexeme.splitBlock cs).1, (Lexeme.splitBlock cs).2⟩ := by
  fun_induction passBlock position cs with
  | case1 position => rfl
  | case2 position cs => rfl
  | case3 position c cs hend ih =>
    rw [ih, Lexeme.splitBlock]
    · rfl
    · exact hend

theorem backTo_eq {start reached : Cursor} (h : reached.position.line = start.position.line) :
    start.backTo reached = start := by
  simp only [backTo, h]

theorem slice_eq (position : Position) (text rest : List Char) :
    slice ⟨position, text ++ rest⟩ ⟨position.advance text, rest⟩ = text := by
  have hlen : (position.advance text).offset - position.offset = text.length := by
    rw [Position.offset_advance]
    omega
  rw [slice, hlen, List.take_left]

/-! ## What one token is -/

/-- How a scanner ends that passes `l`, or that finds no end before the end of `text`. -/
def after (position : Position) (text : List Char) : Option Lexeme → Option TokenKind × Cursor
  | some l => (some l.kind, ⟨position.advance l.text, l.rest⟩)
  | none => (none, ⟨position.advance text, []⟩)

theorem advanceBy_two (position : Position) (c : Char) {d : Char} {cs : List Char}
    (h : cs.head? = some d) :
    advanceBy 2 ⟨position, c :: cs⟩ = ⟨position.advance [c, d], cs.tail⟩ := by
  cases cs with
  | nil => simp at h
  | cons e es =>
    cases h
    rfl

theorem scanString_eq (position : Position) (cs : List Char) :
    scanString ⟨position, '"' :: cs⟩ =
      after position ('"' :: cs)
        ((Lexeme.splitString cs).map fun p => ⟨.stringLiteral, '"' :: p.1, p.2⟩) := by
  simp only [scanString, advance, passString_eq]
  cases Lexeme.splitString cs <;> rfl

theorem scanQuote_eq (position : Position) (cs : List Char) :
    scanQuote ⟨position, '\'' :: cs⟩ =
      after position ('\'' :: cs)
        (match Lexeme.splitCharacter cs with
          | some p => some ⟨.charLiteral, '\'' :: p.1, p.2⟩
          | none => some ⟨.identifier, ['\''], cs⟩) := by
  cases h : Lexeme.splitCharacter cs with
  | none =>
    obtain ⟨hopen, hline⟩ := passCharacter_of_none (position.step '\'') h
    have hback : backTo ⟨position, '\'' :: cs⟩ (passCharacter (position.step '\'') cs).2 =
        ⟨position, '\'' :: cs⟩ := backTo_eq hline
    simp only [scanQuote, advance, hopen, hback]
    rfl
  | some p =>
    simp only [scanQuote, advance, passCharacter_of_some _ h]
    rfl

theorem scanWord_eq (position : Position) {c : Char} (cs : List Char) (h : isWordStart c = true) :
    scanWord ⟨position, c :: cs⟩ =
      after position (c :: cs)
        (some ⟨(TokenKind.keyword? (c :: cs.takeWhile isWordChar)).getD .identifier,
          c :: cs.takeWhile isWordChar, cs.dropWhile isWordChar⟩) := by
  have hword : isWordChar c = true := by
    simp only [isWordStart, isWordChar, Bool.or_eq_true] at h ⊢
    exact h.imp Unicode.isAlphanumeric_of_isAlphabetic id
  have hslice := slice_eq position (c :: cs.takeWhile isWordChar) (cs.dropWhile isWordChar)
  rw [List.cons_append, List.takeWhile_append_dropWhile] at hslice
  simp only [scanWord, advanceWhile_eq, List.takeWhile_cons_of_pos hword,
    List.dropWhile_cons_of_pos hword, hslice]
  rfl

/-- The scanners pass what the cut of the first token cuts off. Where there is no first token, the
cursor is left at the end of the text. -/
theorem scan_eq_cut (position : Position) (c : Char) (cs : List Char) :
    scan ⟨position, c :: cs⟩ c = after position (c :: cs) (Lexeme.cut c cs) := by
  have hpeek : peek ⟨position, c :: cs⟩ = cs.head? := rfl
  rw [scan, Lexeme.cut, hpeek]
  by_cases hblank : c = ' ' ∨ c = '\t'
  · rw [if_pos hblank, if_pos hblank]
    rfl
  rw [if_neg hblank, if_neg hblank]
  by_cases hline : c = '\n'
  · rw [if_pos hline, if_pos hline]
    rfl
  rw [if_neg hline, if_neg hline]
  by_cases hopen : c = '[' ∧ cs.head? = some '['
  · rw [if_pos hopen, if_pos hopen, advanceBy_two _ _ hopen.2, hopen.1]
    rfl
  rw [if_neg hopen, if_neg hopen]
  by_cases hclose : c = ']' ∧ cs.head? = some ']'
  · rw [if_pos hclose, if_pos hclose, advanceBy_two _ _ hclose.2, hclose.1]
    rfl
  rw [if_neg hclose, if_neg hclose]
  by_cases hcomment : c = '/' ∧ cs.head? = some '/'
  · rw [if_pos hcomment, if_pos hcomment, advanceWhile_eq, hcomment.1]
    rfl
  rw [if_neg hcomment, if_neg hcomment]
  by_cases hblock : c = '/' ∧ cs.head? = some '*'
  · rw [if_pos hblock, if_pos hblock, scanBlock, advanceBy_two _ _ hblock.2, passBlock_eq,
      hblock.1]
    rfl
  rw [if_neg hblock, if_neg hblock]
  by_cases hstring : c = '"'
  · rw [if_pos hstring, if_pos hstring, hstring]
    exact scanString_eq position cs
  rw [if_neg hstring, if_neg hstring]
  by_cases hquote : c = '\''
  · rw [if_pos hquote, if_pos hquote, hquote]
    exact scanQuote_eq position cs
  rw [if_neg hquote, if_neg hquote]
  by_cases hdigit : c.isDigit = true
  · rw [if_pos hdigit, if_pos hdigit, advanceWhile_eq, List.takeWhile_cons_of_pos hdigit,
      List.dropWhile_cons_of_pos hdigit]
    rfl
  rw [if_neg hdigit, if_neg hdigit]
  by_cases hstart : isWordStart c = true
  · rw [if_pos hstart, if_pos hstart]
    exact scanWord_eq position cs hstart
  · rw [if_neg hstart, if_neg hstart]
    rfl

end Cursor

end HeaderReflection
