import HeaderReflection.Proofs.Layout.Independence
import HeaderReflection.Proofs.Tokens.Comments

/-!
# Comments say nothing

A text with blanks for its comments has the same tokens but for trivia, each on the line where it
stood (`Lexer.cuts_withoutComments`). They are laid out alike, so the same classes are found, or the
same token is complained about.
-/

namespace HeaderReflection

/-- Each token is moved to the start of its line, and the characters before are not counted. -/
def Moving.toLine : Moving := fun t => { line := t.position.line }

/-- The line of the place past a text is counted by its line ends. -/
theorem Position.line_advance (p : Position) (text : List Char) :
    (p.advance text).line = p.line + text.count '\n' := by
  induction text generalizing p with
  | nil => rfl
  | cons c text ih =>
    rw [Position.advance_cons, ih, Position.step]
    by_cases hc : c = '\n'
    · subst hc
      rw [if_pos rfl, List.count_cons_self]
      show p.line + 1 + _ = _
      omega
    · rw [if_neg hc, List.count_cons_of_ne hc]

namespace Lexer

open Token

/-- Blanks and line ends at the start of a text are trivia. -/
theorem cuts_blank {blank : List Char} (hblank : ∀ c ∈ blank, c = ' ' ∨ c = '\n')
    (position : Position) (cs : List Char) :
    (cuts position (blank ++ cs)).error = (cuts (position.advance blank) cs).error ∧
      significant (cuts position (blank ++ cs)).tokens =
        significant (cuts (position.advance blank) cs).tokens := by
  induction blank generalizing position with
  | nil => exact ⟨rfl, rfl⟩
  | cons c blank ih =>
    have hmore := ih (fun d hd => hblank d (List.mem_cons_of_mem c hd)) (position.step c)
    rcases hblank c List.mem_cons_self with rfl | rfl
    · rw [List.cons_append, cuts_of_cut_some (Lexeme.cut_blank (.inl rfl) (blank ++ cs))]
      exact hmore
    · rw [List.cons_append, cuts_of_cut_some (Lexeme.cut_lineEnd (blank ++ cs))]
      exact hmore

/-- One more token on the same line, in front of tokens that are alike on each line. -/
theorem toLine_significant_cons {kind : TokenKind} {text : String} {p q : Position}
    {ts us : List Token} (hline : p.line = q.line)
    (h : (significant ts).map (Token.moved .toLine) = (significant us).map (Token.moved .toLine)) :
    (significant (⟨kind, text, p⟩ :: ts)).map (Token.moved .toLine) =
      (significant (⟨kind, text, q⟩ :: us)).map (Token.moved .toLine) := by
  have hmoved : Token.moved .toLine ⟨kind, text, p⟩ = Token.moved .toLine ⟨kind, text, q⟩ := by
    rw [Token.moved, Moving.toLine, hline]
    rfl
  rw [significant, significant, List.filter_cons, List.filter_cons]
  split
  next => rw [List.map_cons, List.map_cons, hmoved]; exact congrArg _ h
  next => exact h

/-- **A text with blanks for comments is cut like the text itself**, from a place on the same
line. -/
theorem cuts_withoutComments (position : Position) (cs : List Char) :
    (cuts position cs).error = none → ∀ position' : Position, position'.line = position.line →
      (cuts position' (withoutComments (cuts position cs).tokens)).error = none ∧
        (significant (cuts position' (withoutComments (cuts position cs).tokens)).tokens).map
            (Token.moved .toLine) =
          (significant (cuts position cs).tokens).map (Token.moved .toLine) := by
  fun_induction cuts position cs with
  | case1 position =>
    intro _ position' _
    rw [withoutComments, List.flatMap_nil, cuts]
    exact ⟨rfl, rfl⟩
  | case2 position c cs hcut => intro h; cases h
  | case3 position c cs l hcut more ih =>
    intro h position' hline
    rw [withoutComments_cons, String.toList_ofList]
    by_cases hcomment : l.kind = .comment
    · rw [if_pos hcomment]
      obtain ⟨herror, htokens⟩ := cuts_blank (fun c hc => eq_blank_of_mem_commentBlank hc) position'
        (withoutComments more.tokens)
      have hnext : (position'.advance (commentBlank l.text)).line =
          (position.advance l.text).line := by
        rw [Position.line_advance, Position.line_advance, count_commentBlank, hline]
      rw [herror, htokens]
      have htrivia : significant (⟨l.kind, .ofList l.text, position⟩ :: more.tokens) =
          significant more.tokens := by
        rw [significant, List.filter_cons_of_neg (by simp [hcomment, TokenKind.isTrivia])]
        rfl
      rw [htrivia]
      exact ih h _ hnext
    · rw [if_neg hcomment]
      have hnext : (position'.advance l.text).line = (position.advance l.text).line := by
        rw [Position.line_advance, Position.line_advance, hline]
      obtain ⟨herror, htokens⟩ := ih h _ hnext
      rw [cuts_replace hcut hcomment (blanked_cuts h).looksLike]
      exact ⟨herror, toLine_significant_cons hline htokens⟩

end Lexer

/-! ## What is read of the tokens -/

open Token

variable {us vs : List Token}

/-- Tokens that are alike on each line are laid out alike. -/
theorem Token.SameLayout.of_toLine
    (h : us.map (Token.moved .toLine) = vs.map (Token.moved .toLine)) : SameLayout us vs := by
  have hlength : us.length = vs.length := by simpa using congrArg List.length h
  have hline (i : Nat) (hi : i < us.length) (hi' : i < vs.length) :
      us[i].position.line = vs[i].position.line := by
    have hmap : (us.map (Token.moved .toLine))[i]? = (vs.map (Token.moved .toLine))[i]? := by rw [h]
    simp only [List.getElem?_map, List.getElem?_eq_getElem hi, List.getElem?_eq_getElem hi',
      Option.map_some, Option.some.injEq] at hmap
    exact congrArg (fun t => t.position.line) hmap
  constructor
  · have hspelling := congrArg (List.map spelling) h
    rwa [List.map_map, List.map_map] at hspelling
  · refine List.pairwise_iff_getElem.2 fun i j hi hj hij _ => ?_
    rw [List.length_zip] at hi hj
    rw [List.getElem_zip, List.getElem_zip, hline i (by omega) (by omega),
      hline j (by omega) (by omega)]

/-- Errors that are counterparts in lists that are alike on each line are about one line. -/
theorem ParseError.Counterparts.toLine {e f : ParseError} (h : e.Counterparts us vs f)
    (hlines : us.map (Token.moved .toLine) = vs.map (Token.moved .toLine)) :
    e.moved .toLine = f.moved .toLine := by
  obtain ⟨hsame, hnumber⟩ := h
  have hfound : ∀ t ∈ e.found?, ∀ t' ∈ f.found?, t.moved .toLine = t'.moved .toLine := by
    intro t ht t' ht'
    obtain ⟨number, hus, hvs⟩ := hnumber t ht
    have hmap : (us.map (Token.moved .toLine))[number]? =
        (vs.map (Token.moved .toLine))[number]? := by rw [hlines]
    rw [List.getElem?_map, List.getElem?_map, hus, hvs, ht'] at hmap
    exact Option.some.inj hmap
  cases e with
  | mismatch expected found =>
    cases f with
    | mismatch expected' found' =>
      rw [moved, moved, hfound found rfl found' rfl, (ParseError.mismatch.inj hsame).1]
    | notLiteral | unexpectedEnd | lexical => cases hsame
  | notLiteral found =>
    cases f with
    | notLiteral found' => rw [moved, moved, hfound found rfl found' rfl]
    | mismatch | unexpectedEnd | lexical => cases hsame
  | unexpectedEnd expected =>
    cases f with
    | unexpectedEnd expected' => exact hsame
    | mismatch | notLiteral | lexical => cases hsame
  | lexical cause =>
    cases f with
    | lexical cause' => exact hsame
    | mismatch | notLiteral | unexpectedEnd => cases hsame

/-- The classes that are read of tokens, or the token that is complained about, are the same when
the tokens are alike on each line. -/
theorem CompilationUnit.classes_of_toLine (file : String)
    (h : (significant us).map (Token.moved .toLine) = (significant vs).map (Token.moved .toLine)) :
    ((ofTokens us).map (classes file)).mapError (ParseError.moved .toLine) =
      ((ofTokens vs).map (classes file)).mapError (ParseError.moved .toLine) := by
  have hlayout := SameLayout.of_toLine h
  rw [ofTokens, ofTokens, Parser.unit_of_sameLayout (SameLayout.refl (significant us)),
    Parser.unit_of_sameLayout hlayout]
  cases hread : Parser.unit (numbered (significant us)) with
  | ok u rest =>
    show Except.ok _ = Except.ok _
    rw [classes_moved, classes_moved]
  | error e rest =>
    have hcounterparts := ParseError.counterparts_of_numbered hlayout hread
    exact congrArg Except.error (hcounterparts.toLine h)

/-- **Comments say nothing.** A text whose comments are replaced by blanks, carriage returns left as
they are or dropped, has the same tokens but for trivia, each on the line where it stood, and the
same classes; or the same token is complained about, on the same line. -/
theorem Model.classesOfText_withoutComments {old : String} {ts : List Token}
    (h : tokenize old = .ok ts) :
    Lexer.withoutReturns (withoutComments ts) = withoutComments ts ∧
      ∀ new : String, Lexer.withoutReturns new.toList = withoutComments ts →
        ∃ us, tokenize new = .ok us ∧
          (significant us).map (Token.moved .toLine) =
            (significant ts).map (Token.moved .toLine) ∧
          ∀ file, (classesOfText file new).mapError (ParseError.moved .toLine) =
            (classesOfText file old).mapError (ParseError.moved .toLine) := by
  obtain ⟨hend, hts⟩ := tokenize_eq_ok.1 h
  constructor
  · refine List.filter_eq_self.2 fun c hc => ?_
    rcases mem_withoutComments hc with rfl | rfl | hchar
    · decide
    · decide
    · rw [← hts, Lexer.characters_cuts hend, Lexer.withoutReturns, List.mem_filter] at hchar
      exact hchar.2
  · intro new hnew
    obtain ⟨hend', halike⟩ := Lexer.cuts_withoutComments {} _ hend {} rfl
    rw [hts, ← hnew] at hend' halike
    have hus := tokenize_eq_ok.2 ⟨hend', rfl⟩
    refine ⟨_, hus, halike, fun file => ?_⟩
    rw [classesOfText, classesOfText, CompilationUnit.ofString, CompilationUnit.ofString, h, hus]
    exact CompilationUnit.classes_of_toLine file halike

/-- A comment between two words, one over two lines and one after a quote that starts no literal. -/
theorem Model.classesOfText_withoutComments_quote :
    ∃ ts us,
      tokenize "class/**/A \x7b [[B]] int/* 1\n * 2 */x; \x7d;\r\n' // one quote" = .ok ts ∧
      Lexer.withoutReturns "class A \x7b [[B]] int \nx; \x7d;\r\n'  ".toList = withoutComments ts ∧
      tokenize "class A \x7b [[B]] int \nx; \x7d;\r\n'  " = .ok us ∧
      (significant us).map (Token.moved .toLine) = (significant ts).map (Token.moved .toLine) ∧
      ∀ file, (classesOfText file "class A \x7b [[B]] int \nx; \x7d;\r\n'  ").mapError
          (ParseError.moved .toLine) =
        (classesOfText file
          "class/**/A \x7b [[B]] int/* 1\n * 2 */x; \x7d;\r\n' // one quote").mapError
          (ParseError.moved .toLine) := by
  have hts := tokenize_eq_ok.2 ⟨show (Lexer.cuts {} (Lexer.withoutReturns
    "class/**/A \x7b [[B]] int/* 1\n * 2 */x; \x7d;\r\n' // one quote".toList)).error = none
    by decide +kernel, rfl⟩
  have hblank : Lexer.withoutReturns "class A \x7b [[B]] int \nx; \x7d;\r\n'  ".toList =
      withoutComments (Lexer.cuts {} (Lexer.withoutReturns
        "class/**/A \x7b [[B]] int/* 1\n * 2 */x; \x7d;\r\n' // one quote".toList)).tokens := by
    decide +kernel
  obtain ⟨us, hus, halike, hclasses⟩ := (classesOfText_withoutComments hts).2 _ hblank
  exact ⟨_, us, hts, hblank, hus, halike, hclasses⟩

end HeaderReflection
