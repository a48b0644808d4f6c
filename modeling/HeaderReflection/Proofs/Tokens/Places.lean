import HeaderReflection.Token.Lexer

/-!
# Nothing is lost in lexing, and every token knows its place

The texts of the tokens put together give the text back, without its carriage returns. The place of
a token follows from what stands before it alone: its offset is the number of characters, its line
the number of line feeds and its column the number of characters since the last line feed.
-/

namespace HeaderReflection

/-- The characters of several tokens put together. -/
def Token.characters (ts : List Token) : List Char := ts.flatMap fun t => t.text.toList

/-- The place of what comes after the text `before`. -/
def Position.past (before : List Char) : Position where
  offset := before.length
  line := 1 + before.count '\n'
  column := 1 + (before.reverse.takeWhile (· ≠ '\n')).length

/-! ## Positions count -/

theorem Position.past_append_singleton (before : List Char) (c : Char) :
    past (before ++ [c]) = (past before).step c := by
  by_cases h : c = '\n'
  · subst h
    rw [step, if_pos rfl, past]
    simp [past]
    omega
  · rw [step, if_neg h, past]
    simp [past, h]
    omega

/-- The three counters of a position, moved one character at a time, count what `past` says. -/
theorem Position.advance_past (before text : List Char) :
    (past before).advance text = past (before ++ text) := by
  induction text generalizing before with
  | nil => rw [List.append_nil, Position.advance_nil]
  | cons c text ih =>
    rw [Position.advance_cons, ← past_append_singleton, ih, List.append_assoc,
      List.singleton_append]

/-! ## Cuts -/

namespace Lexer

theorem text_ne_empty_of_mem_cuts {position : Position} {cs : List Char} {t : Token}
    (h : t ∈ (cuts position cs).tokens) : t.text ≠ "" := by
  fun_induction cuts position cs with
  | case1 position => cases h
  | case2 position c cs hcut => cases h
  | case3 position c cs lexeme hcut more ih =>
    rcases List.mem_cons.1 h with rfl | hmore
    · intro hempty
      have := congrArg String.toList hempty
      rw [String.toList_ofList] at this
      exact Lexeme.text_ne_nil hcut this
    · exact ih hmore

/-- When the cuts come to the end of the text, all of it is in the tokens. -/
theorem characters_cuts {position : Position} {cs : List Char}
    (h : (cuts position cs).error = none) : Token.characters (cuts position cs).tokens = cs := by
  fun_induction cuts position cs with
  | case1 position => rfl
  | case2 position c cs hcut => cases h
  | case3 position c cs lexeme hcut more ih =>
    have hmore : Token.characters more.tokens = lexeme.rest := ih h
    rw [Token.characters, List.flatMap_cons, String.toList_ofList]
    rw [Token.characters] at hmore
    rw [hmore, Lexeme.text_append_rest hcut]

/-- Every token stands past those before it, whether or not the cuts come to the end. -/
theorem position_of_cuts {after : List Token} {t : Token} (position : Position) (cs : List Char) :
    ∀ before : List Token, (cuts position cs).tokens = before ++ t :: after →
      t.position = position.advance (Token.characters before) := by
  fun_induction cuts position cs with
  | case1 position => simp
  | case2 position c cs hcut => simp
  | case3 position c cs lexeme hcut more ih =>
    intro before h
    cases before with
    | nil =>
      rw [List.nil_append, List.cons.injEq] at h
      rw [← h.1]
      rfl
    | cons first before =>
      rw [List.cons_append, List.cons.injEq] at h
      obtain ⟨rfl, hmore⟩ := h
      rw [ih before hmore, Token.characters, Token.characters, List.flatMap_cons,
        String.toList_ofList, Position.advance_append]

/-- Every token starts at or after the place where the cuts start, and before the next one. -/
theorem offsets_increase_cuts (position : Position) (cs : List Char) :
    (∀ t ∈ (cuts position cs).tokens, position.offset ≤ t.position.offset) ∧
      (cuts position cs).tokens.Pairwise fun a b => a.position.offset < b.position.offset := by
  fun_induction cuts position cs with
  | case1 position => simp
  | case2 position c cs hcut => simp
  | case3 position c cs lexeme hcut more ih =>
    have hnext : position.offset < (position.advance lexeme.text).offset := by
      have := List.length_pos_iff.2 (Lexeme.text_ne_nil hcut)
      rw [Position.offset_advance]
      omega
    constructor
    · intro t ht
      rcases List.mem_cons.1 ht with rfl | hmore
      · exact Nat.le_refl _
      · exact Nat.le_trans (Nat.le_of_lt hnext) (ih.1 t hmore)
    · refine List.pairwise_cons.2 ⟨?_, ih.2⟩
      intro t ht
      exact Nat.lt_of_lt_of_le hnext (ih.1 t ht)

end Lexer

theorem Token.offsets_increase {text : String} {ts : List Token} (h : tokenize text = .ok ts) :
    ts.Pairwise fun a b => a.position.offset < b.position.offset := by
  obtain ⟨-, rfl⟩ := tokenize_eq_ok.1 h
  exact (Lexer.offsets_increase_cuts {} _).2

/-- **Lexing is lossless and its places are exact.** -/
theorem tokenize_lossless {text : String} {ts : List Token} (h : tokenize text = .ok ts) :
    (∀ t ∈ ts, t.text ≠ "") ∧
      Token.characters ts = Lexer.withoutReturns text.toList ∧
      ∀ before t after, ts = before ++ t :: after →
        t.position = Position.past (Token.characters before) := by
  obtain ⟨hend, rfl⟩ := tokenize_eq_ok.1 h
  refine ⟨?_, ?_, ?_⟩
  · intro t ht
    exact Lexer.text_ne_empty_of_mem_cuts ht
  · exact Lexer.characters_cuts hend
  · intro before t after hts
    rw [Lexer.position_of_cuts {} _ before hts]
    exact Position.advance_past [] (Token.characters before)

/-- A string over two lines, a comment over two lines and a quote that starts no literal. -/
theorem tokenize_lossless_over_lines :
    ∃ ts, tokenize "\"a\\\n\"\r\n/*\n*/ 'x" = .ok ts ∧ ts.length = 6 ∧
      (∀ t ∈ ts, t.text ≠ "") ∧
      Token.characters ts = Lexer.withoutReturns "\"a\\\n\"\r\n/*\n*/ 'x".toList ∧
      ∀ before t after, ts = before ++ t :: after →
        t.position = Position.past (Token.characters before) := by
  have h : tokenize "\"a\\\n\"\r\n/*\n*/ 'x" = .ok [
      ⟨.stringLiteral, "\"a\\\n\"", ⟨0, 1, 1⟩⟩, ⟨.lineEnd, "\n", ⟨5, 2, 2⟩⟩,
      ⟨.comment, "/*\n*/", ⟨6, 3, 1⟩⟩, ⟨.space, " ", ⟨11, 4, 3⟩⟩,
      ⟨.identifier, "'", ⟨12, 4, 4⟩⟩, ⟨.identifier, "x", ⟨13, 4, 5⟩⟩] := by
    rw [tokenize_eq_ok]
    decide +kernel
  exact ⟨_, h, rfl, tokenize_lossless h⟩

end HeaderReflection
