import HeaderReflection.Proofs.Grammar.Failing

/-!
# Calling a reader again

A session keeps the tokens of a file with a cursor that tells how many of them have been taken. Each
call reads on from the cursor and leaves the cursor where it stopped, so what a reader does with the
front of a list (`Parser.Steady`) becomes a statement on places in the list: a failed call stops at
the token that its error names.
-/

namespace HeaderReflection

theorem LiteralKind.of?_eq_none_iff {kind : TokenKind} :
    LiteralKind.of? kind = none ↔ kind ∉ [.identifier, .numberLiteral, .stringLiteral] := by
  cases kind <;> decide

/-- The tokens of a file with a cursor, from which reading goes on. -/
structure Session where
  /-- The significant tokens of the file. -/
  tokens : List Token
  /-- The number of tokens that have been taken. -/
  cursor : Nat
  cursor_le : cursor ≤ tokens.length

namespace Session

/-- A session before its first call. -/
def start (ts : List Token) : Session := ⟨Token.significant ts, 0, Nat.zero_le _⟩

/-- The tokens from the cursor on. -/
def left (s : Session) : List Token := s.tokens.drop s.cursor

/-- The session with the cursor in front of the last tokens. -/
def leaving (s : Session) (rest : List Token) : Session :=
  ⟨s.tokens, s.tokens.length - rest.length, Nat.sub_le _ _⟩

/-- Reads on from the cursor. -/
def parse (s : Session) : Except ParseError CompilationUnit × Session :=
  (Reading.result (Parser.unit s.left), s.leaving (Reading.rest (Parser.unit s.left)))

/-- The first call reads the file. -/
theorem parse_start (ts : List Token) : (start ts).parse.1 = CompilationUnit.ofTokens ts := rfl

theorem length_left (s : Session) : s.left.length = s.tokens.length - s.cursor :=
  List.length_drop

theorem left_leaving {s : Session} {rest : List Token} (h : rest <:+ s.left) :
    (s.leaving rest).left = rest :=
  (List.suffix_iff_eq_drop.1 (h.trans (List.drop_suffix _ _))).symm

/-- The cursor stands in front of what the call leaves. -/
theorem left_parse (s : Session) : s.parse.2.left = Reading.rest (Parser.unit s.left) :=
  left_leaving (Parser.steady_unit s.left).rest_suffix

theorem head?_left (s : Session) : s.left.head? = s.tokens[s.cursor]? := List.head?_drop

theorem unit_of_parse_error {s : Session} {e : ParseError} (h : s.parse.1 = .error e) :
    Parser.unit s.left = .error e s.parse.2.left := by
  rw [left_parse]
  cases hread : Parser.unit s.left with
  | ok u rest => simp [parse, hread, Reading.result] at h
  | error e' rest =>
    simp only [parse, hread, Reading.result, Except.error.injEq] at h
    rw [h]
    rfl

theorem unit_of_parse_ok {s : Session} {u : CompilationUnit} (h : s.parse.1 = .ok u) :
    Parser.unit s.left = .ok u s.parse.2.left := by
  rw [left_parse]
  cases hread : Parser.unit s.left with
  | ok u' rest =>
    simp only [parse, hread, Reading.result, Except.ok.injEq] at h
    rw [h]
    rfl
  | error e rest => simp [parse, hread, Reading.result] at h

/-! ## Errors and the cursor -/

/-- What an error says is true of the token at the cursor, or of the end. -/
def Confirms (s : Session) : ParseError → Prop
  | .mismatch expected found => s.tokens[s.cursor]? = some found ∧ found.kind ≠ expected
  | .notLiteral found =>
    s.tokens[s.cursor]? = some found ∧
      found.kind ∉ [.identifier, .numberLiteral, .stringLiteral]
  | .unexpectedEnd _ => s.cursor = s.tokens.length
  | .lexical _ => False

theorem confirms_of_isAbout {s : Session} {e : ParseError} (h : e.IsAbout s.left) :
    s.Confirms e := by
  cases e with
  | mismatch expected found => exact ⟨s.head?_left ▸ h.1, h.2⟩
  | notLiteral found => exact ⟨s.head?_left ▸ h.1, LiteralKind.of?_eq_none_iff.1 h.2⟩
  | unexpectedEnd expected =>
    have hlength := s.length_left
    rw [show s.left = [] from h] at hlength
    simp only [List.length_nil] at hlength
    exact Nat.le_antisymm s.cursor_le (Nat.le_of_sub_eq_zero hlength.symm)
  | lexical cause => exact h

/-- The place that an error names is that of the token at the cursor; at the end it names none. -/
theorem position?_of_confirms {s : Session} {e : ParseError} (h : s.Confirms e) :
    e.position? = s.tokens[s.cursor]?.map Token.position := by
  cases e with
  | mismatch expected found => rw [h.1]; rfl
  | notLiteral found => rw [h.1]; rfl
  | unexpectedEnd expected =>
    rw [List.getElem?_eq_none (Nat.le_of_eq h.symm)]
    rfl
  | lexical cause => exact h.elim

/-- **A failed call stops at the token that its error names.** The cursor is not moved back and not
moved past that token; where tokens are missing it is at the end, and the error names no place. -/
theorem error_names_token_at_cursor (s : Session) {e : ParseError} (h : s.parse.1 = .error e) :
    s.parse.2.tokens = s.tokens ∧ s.cursor ≤ s.parse.2.cursor ∧ s.parse.2.Confirms e ∧
      e.position? = s.tokens[s.parse.2.cursor]?.map Token.position := by
  have hread := unit_of_parse_error h
  obtain ⟨hsuffix, habout⟩ := Parser.steady_unit.of_error hread
  have hconfirms := confirms_of_isAbout habout
  have hcursor : s.cursor ≤ s.parse.2.cursor := by
    have hle := hsuffix.length_le
    rw [length_left, length_left] at hle
    have := s.cursor_le
    have := s.parse.2.cursor_le
    have : s.parse.2.tokens.length = s.tokens.length := rfl
    omega
  exact ⟨rfl, hcursor, hconfirms, position?_of_confirms hconfirms⟩

/-- A parameter that is no literal, in a class in a namespace, after a first token that was taken
before. The texts of two tokens are not those of their categories. -/
theorem error_names_token_at_cursor_nested :
    let found : Token := ⟨.charLiteral, "word", ⟨40, 3, 7⟩⟩
    let s : Session := ⟨[⟨.semicolon, ";", {}⟩, ⟨.namespaceKeyword, "namespace", {}⟩,
      ⟨.identifier, "A", {}⟩, ⟨.openBrace, "\x7b", {}⟩, ⟨.classKeyword, "using", {}⟩,
      ⟨.identifier, "B", {}⟩, ⟨.openBrace, "\x7b", {}⟩, ⟨.attributeOpen, "[[", {}⟩,
      ⟨.identifier, "C", {}⟩, ⟨.openParen, "(", {}⟩, found, ⟨.closeParen, ")", {}⟩], 1, by decide⟩
    s.parse.1 = .error (.notLiteral found) ∧ s.parse.2.cursor = 10 ∧
      s.parse.2.tokens = s.tokens ∧ s.cursor ≤ s.parse.2.cursor ∧
      s.parse.2.Confirms (.notLiteral found) ∧
      (ParseError.notLiteral found).position? = s.tokens[s.parse.2.cursor]?.map Token.position := by
  intro found s
  have hfails : (match s.parse.1 with | .ok _ => none | .error e => some e) =
      some (.notLiteral found) := by decide +kernel
  have herror : s.parse.1 = .error (.notLiteral found) := by
    cases hread : s.parse.1 with
    | ok u => simp [hread] at hfails
    | error e =>
      rw [hread] at hfails
      rw [Option.some.inj hfails]
  have hcursor : s.parse.2.cursor = 10 := by decide +kernel
  exact ⟨herror, hcursor, error_names_token_at_cursor s herror⟩

end Session

end HeaderReflection
