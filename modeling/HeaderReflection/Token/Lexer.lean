import HeaderReflection.Token.Cursor

/-!
# Lexing

A lexer moves a cursor past one token after another until the text ends or a string is never closed.
In both cases the cursor is left at the end of the text. The tokens are those that `Lexeme.cut` cuts
off one by one, each at the place where it starts (`Lexer.run_eq_cuts`).
-/

namespace HeaderReflection

/-- Why a text has no tokens. -/
inductive LexError
  /-- The string that starts here has no closing quote. -/
  | unclosedString (start : Position)
  deriving DecidableEq, Repr

namespace LexError

/-- The place that an error names. -/
def position : LexError → Position
  | unclosedString start => start

/-- The text of an error. -/
def message : LexError → String
  | unclosedString start => s!"Unterminated string literal starting at {start.describe}"

end LexError

/-- What a lexer did until it stopped. -/
structure Lexing where
  /-- The tokens that were cut off, in order. -/
  tokens : List Token
  /-- Why the lexer stopped before the end, if it did. -/
  error : Option LexError
  /-- The cursor where the lexer stopped. -/
  stopped : Cursor

namespace Lexer

/-- The text without its carriage returns. -/
def withoutReturns (text : List Char) : List Char := text.filter (· ≠ '\r')

/-- A cursor at the start of a text; carriage returns are dropped first. -/
def ofString (text : String) : Cursor := { rest := withoutReturns text.toList }

/-- Every token takes at least one character. -/
theorem length_rest_scan_lt {cursor reached : Cursor} {c : Char} {cs : List Char}
    {kind : TokenKind} (hrest : cursor.rest = c :: cs)
    (hscan : cursor.scan c = (some kind, reached)) :
    reached.rest.length < cursor.rest.length := by
  obtain ⟨position, rest⟩ := cursor
  cases hrest
  rw [Cursor.scan_eq_cut] at hscan
  cases hcut : Lexeme.cut c cs with
  | none => simp [hcut, Cursor.after] at hscan
  | some l =>
    rw [hcut] at hscan
    cases hscan
    exact Nat.lt_succ_of_le (Lexeme.length_rest_le hcut)

/-- Reads tokens from a cursor on until no character is left. -/
def run (cursor : Cursor) : Lexing :=
  match _hrest : cursor.rest with
  | [] => ⟨[], none, cursor⟩
  | c :: _ =>
    match _hscan : cursor.scan c with
    | (none, reached) => ⟨[], some (.unclosedString cursor.position), reached⟩
    | (some kind, reached) =>
      let more := run reached
      { more with
        tokens := ⟨kind, .ofList (cursor.slice reached), cursor.position⟩ :: more.tokens }
termination_by cursor.rest.length
decreasing_by exact length_rest_scan_lt _hrest _hscan

/-- Reads the tokens that are left: the tokens or why there are none, and where the lexer stopped.
-/
def tokenize (cursor : Cursor) : Except LexError (List Token) × Cursor :=
  let lexing := run cursor
  match lexing.error with
  | none => (.ok lexing.tokens, lexing.stopped)
  | some error => (.error error, lexing.stopped)

/-- Reads several times, each time from where the lexer stopped. -/
def tokenizeTimes : Nat → Cursor → List (Except LexError (List Token))
  | 0, _ => []
  | n + 1, cursor => (tokenize cursor).1 :: tokenizeTimes n (tokenize cursor).2

/-! ## Tokens by cuts -/

/-- Cuts tokens off the characters `cs`, which start at `position`, until none is left. -/
def cuts (position : Position) (cs : List Char) : Lexing :=
  match cs with
  | [] => ⟨[], none, ⟨position, []⟩⟩
  | c :: cs =>
    match _h : Lexeme.cut c cs with
    | none => ⟨[], some (.unclosedString position), ⟨position.advance (c :: cs), []⟩⟩
    | some lexeme =>
      let more := cuts (position.advance lexeme.text) lexeme.rest
      { more with tokens := ⟨lexeme.kind, .ofList lexeme.text, position⟩ :: more.tokens }
termination_by cs.length
decreasing_by
  have := Lexeme.length_rest_le _h
  simp
  omega

theorem run_of_cut_none {position : Position} {c : Char} {cs : List Char}
    (h : Lexeme.cut c cs = none) :
    run ⟨position, c :: cs⟩ =
      ⟨[], some (.unclosedString position), ⟨position.advance (c :: cs), []⟩⟩ := by
  have hscan := Cursor.scan_eq_cut position c cs
  rw [h, Cursor.after] at hscan
  rw [run]
  split
  next hrest => cases hrest
  next hrest =>
    cases hrest
    split
    next hnone =>
      rw [hscan] at hnone
      cases hnone
      rfl
    next hsome =>
      rw [hscan] at hsome
      cases hsome

theorem run_of_cut_some {position : Position} {c : Char} {cs : List Char} {l : Lexeme}
    (h : Lexeme.cut c cs = some l) :
    run ⟨position, c :: cs⟩ =
      { run ⟨position.advance l.text, l.rest⟩ with
        tokens := ⟨l.kind, .ofList l.text, position⟩ ::
          (run ⟨position.advance l.text, l.rest⟩).tokens } := by
  have hscan := Cursor.scan_eq_cut position c cs
  rw [h, Cursor.after] at hscan
  have hslice := Cursor.slice_eq position l.text l.rest
  rw [Lexeme.text_append_rest h] at hslice
  rw [run]
  split
  next hrest => cases hrest
  next hrest =>
    cases hrest
    split
    next hnone =>
      rw [hscan] at hnone
      cases hnone
    next hsome =>
      rw [hscan] at hsome
      cases hsome
      rw [hslice]

theorem run_eq_cuts (position : Position) (cs : List Char) :
    run ⟨position, cs⟩ = cuts position cs := by
  fun_induction cuts position cs with
  | case1 position => rw [run]
  | case2 position c cs hcut => exact run_of_cut_none hcut
  | case3 position c cs lexeme hcut more ih => rw [run_of_cut_some hcut, ih]

/-- However it stops, a lexer is left at the end of its text. -/
theorem rest_stopped_cuts (position : Position) (cs : List Char) :
    (cuts position cs).stopped.rest = [] := by
  fun_induction cuts position cs with
  | case1 => rfl
  | case2 => rfl
  | case3 _ _ _ _ _ _ ih => exact ih

end Lexer

/-- The tokens of a text. -/
def tokenize (text : String) : Except LexError (List Token) :=
  (Lexer.tokenize (Lexer.ofString text)).1

/-- A text has tokens when the cuts come to its end, and then it has those that were cut off. -/
theorem tokenize_eq_ok {text : String} {ts : List Token} :
    tokenize text = .ok ts ↔
      (Lexer.cuts {} (Lexer.withoutReturns text.toList)).error = none ∧
        (Lexer.cuts {} (Lexer.withoutReturns text.toList)).tokens = ts := by
  rw [tokenize, Lexer.ofString, Lexer.tokenize, Lexer.run_eq_cuts]
  cases (Lexer.cuts {} (Lexer.withoutReturns text.toList)).error with
  | none => simp
  | some error => simp

end HeaderReflection
