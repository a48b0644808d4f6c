import HeaderReflection.Proofs.Tokens.Beginnings
import HeaderReflection.Proofs.TypeText.Relexing

/-!
# Lines are lexed by themselves

A line end is a seam that no token reaches over from the left, but for a string, which then goes on
to its closing quote, and a block comment without an end. So the tokens of two texts with a line end
between them are the tokens of the first, the line end and the tokens of the second
(`tokenize_lines`), each further down in the text. Every token that is no trivia keeps to itself on
a line, or on several if it is a string: written one below the other, the tokens of a text are read
back (`tokenize_significant_lines`).
-/

namespace HeaderReflection

open Lexeme

/-! ## A line end after a piece -/

section

variable {kind : TokenKind} {text rest : List Char}

/-- A quote that is not closed on its line is not closed by anything on a later line. -/
theorem Lexeme.splitCharacter_append_lineEnd (h : splitCharacter rest = none)
    (more : List Char) : splitCharacter (rest ++ '\n' :: more) = none := by
  refine Option.eq_none_iff_forall_ne_some.2 fun p hp => ?_
  obtain ⟨body, -, hline, hfirst, hsplit⟩ := splitCharacter_eq_some_iff.1 hp
  rcases List.append_eq_append_iff.1 hsplit with ⟨between, hbody, hmore⟩ | ⟨between, hrest, hmore⟩
  · cases between with
    | nil => exact absurd (List.cons.inj hmore).1 (by decide)
    | cons c between =>
      refine hline ?_
      rw [hbody, (List.cons.inj hmore).1]
      exact List.mem_append_right rest List.mem_cons_self
  · cases between with
    | nil => exact absurd (List.cons.inj hmore).1 (by decide)
    | cons c between =>
      obtain ⟨rfl, -⟩ := List.cons.inj hmore
      rw [splitCharacter_eq_some_iff.2 ⟨body, rfl, hline, hfirst, hrest⟩] at h
      cases h

/-- Further lines after what follows a token look the same from there. -/
theorem Lexeme.LooksLike.append_lineEnd (rest more : List Char) :
    LooksLike rest (rest ++ '\n' :: more) := by
  refine ⟨?_, fun hnone => splitCharacter_append_lineEnd hnone more⟩
  cases rest with
  | nil => exact .inr fun c hc => .inr (Option.some.inj hc).symm
  | cons c rest => exact .inl rfl

/-- A line end looks like anything else that lets a token end. -/
theorem Lexeme.LooksLike.lineEnd (rest more : List Char) : LooksLike rest ('\n' :: more) :=
  ⟨.inr fun _ hc => .inr (Option.some.inj hc).symm, fun _ => rfl⟩

/-- Only the end of the text ends a comment that is not closed. -/
theorem Piece.rest_of_isOpenBlock (h : Piece kind text rest) (hopen : IsOpenBlock text) :
    rest = [] := by
  obtain ⟨inside, rfl, hend⟩ := hopen
  obtain ⟨c, cs, hfirst, hcut⟩ := h.cut_eq
  obtain ⟨rfl, rfl⟩ := List.cons.inj hfirst
  have hsplit := (cut_blockComment (inside ++ rest)).symm.trans hcut
  simp only [Option.some.injEq, Lexeme.mk.injEq, List.cons.injEq, true_and] at hsplit
  obtain ⟨-, hinside, hrest⟩ := hsplit
  rcases splitBlock_closed (inside ++ rest) with ⟨front, hclosed⟩ | hnil
  · refine absurd ?_ hend
    rw [← hinside, hclosed]
    exact List.suffix_append front _ |>.isInfix
  · rw [← hrest, hnil]

/-- **Further lines may follow a piece** that is no comment without an end. -/
theorem Piece.beforeLine (h : Piece kind text rest) (hopen : ¬IsOpenBlock text)
    (more : List Char) : Piece kind text (rest ++ '\n' :: more) := by
  by_cases hcomment : kind = .comment
  · subst hcomment
    refine h.replace_comment (fun hrest c hc => ?_) fun hblock => absurd hblock hopen
    cases rest with
    | nil =>
      cases hc
      decide
    | cons d rest => exact hrest c hc
  · exact h.replace hcomment (.append_lineEnd rest more)

end

/-! ## Further down in a text -/

/-- The place some characters and lines further down in a text. -/
def Position.shift (characters lines : Nat) (p : Position) : Position where
  offset := p.offset + characters
  line := p.line + lines
  column := p.column

/-- The token some characters and lines further down in a text. -/
def Token.shift (characters lines : Nat) (t : Token) : Token :=
  { t with position := t.position.shift characters lines }

/-- The error some characters and lines further down in a text. -/
def LexError.shift (characters lines : Nat) : LexError → LexError
  | unclosedString start => unclosedString (start.shift characters lines)

theorem Position.shift_step (m n : Nat) (p : Position) (c : Char) :
    (p.shift m n).step c = (p.step c).shift m n := by
  unfold step
  split
  · simp [shift]
    omega
  · simp [shift]
    omega

theorem Position.shift_advance (m n : Nat) (p : Position) (cs : List Char) :
    (p.shift m n).advance cs = (p.advance cs).shift m n := by
  induction cs generalizing p with
  | nil => rfl
  | cons c cs ih => rw [advance_cons, advance_cons, shift_step, ih]

/-- The start of the line below a text is as far down as the text is long. -/
theorem Position.past_step_lineEnd (before : List Char) :
    (past before).step '\n' =
      ({} : Position).shift (before.length + 1) (before.count '\n' + 1) := by
  rw [step, if_pos rfl]
  simp [past, shift]
  omega

namespace Lexer

open Token

/-- What is cut off a text does not depend on where the text starts. -/
theorem cuts_shift (m n : Nat) (position : Position) (cs : List Char) :
    (cuts (position.shift m n) cs).tokens = (cuts position cs).tokens.map (Token.shift m n) ∧
      (cuts (position.shift m n) cs).error = (cuts position cs).error.map (LexError.shift m n) := by
  fun_induction cuts position cs with
  | case1 position =>
    rw [cuts_nil]
    exact ⟨rfl, rfl⟩
  | case2 position c cs hcut =>
    rw [← run_eq_cuts, run_of_cut_none hcut]
    exact ⟨rfl, rfl⟩
  | case3 position c cs l hcut more ih =>
    obtain ⟨htokens, herror⟩ := ih
    rw [cuts_of_cut_some hcut, Position.shift_advance]
    exact ⟨congrArg _ htokens, herror⟩

/-- **The line end between two texts is a token,** and the texts are cut as they are alone, unless
the first one ends in a comment without an end. -/
theorem cuts_line (position : Position) (cs more : List Char)
    (hend : (cuts position cs).error = none)
    (hopen : ∀ t ∈ (cuts position cs).tokens.getLast?, ¬IsOpenBlock t.text.toList) :
    cuts position (cs ++ '\n' :: more) =
      { cuts ((position.advance cs).step '\n') more with
        tokens := (cuts position cs).tokens ++ ⟨.lineEnd, "\n", position.advance cs⟩ ::
          (cuts ((position.advance cs).step '\n') more).tokens } := by
  fun_induction cuts position cs with
  | case1 position => exact cuts_piece .lineEnd position
  | case2 position c cs hcut => cases hend
  | case3 position c cs l hcut rest ih =>
    have hpiece := piece_of_cut hcut
    have hclosed : ¬IsOpenBlock l.text := by
      intro hblock
      have hnil := hpiece.rest_of_isOpenBlock hblock
      refine hopen ⟨l.kind, .ofList l.text, position⟩ ?_ ?_
      · show List.getLast? (_ :: (cuts _ l.rest).tokens) = _
        rw [hnil, cuts_nil]
        rfl
      · rwa [String.toList_ofList]
    have hrest : ∀ t ∈ rest.tokens.getLast?, ¬IsOpenBlock t.text.toList := by
      intro t ht
      refine hopen t ?_
      rw [Option.mem_def, List.getLast?_cons, Option.mem_def.1 ht]
      rfl
    have hmore := ih hend hrest
    rw [← text_append_rest hcut, List.append_assoc, cuts_piece (hpiece.beforeLine hclosed more),
      hmore, Position.advance_append]
    rfl

end Lexer

/-- **Lexing goes line by line.** When the first text has tokens and ends in no comment without an
end, the second one has tokens exactly if the two have them with a line end between them. These are
the tokens of the first text, the line end, and the tokens of the second text further down; if the
second one has none, the error is further down, too. -/
theorem tokenize_lines {first : String} {ts : List Token} (hreturns : '\r' ∉ first.toList)
    (h : tokenize first = .ok ts) (hopen : ∀ t ∈ ts.getLast?, ¬IsOpenBlock t.text.toList)
    (second : String) :
    tokenize (first ++ "\n" ++ second) =
      ((tokenize second).map fun us =>
        ts ++ ⟨.lineEnd, "\n", Position.past first.toList⟩ ::
          us.map (Token.shift (first.length + 1) (first.toList.count '\n' + 1))).mapError
        (LexError.shift (first.length + 1) (first.toList.count '\n' + 1)) := by
  have hfirst : Lexer.withoutReturns first.toList = first.toList :=
    List.filter_eq_self.2 fun c hc => decide_eq_true fun hcr => hreturns (hcr ▸ hc)
  obtain ⟨hend, hts⟩ := tokenize_eq_ok.1 h
  rw [hfirst] at hend hts
  subst hts
  have hpast : ({} : Position).advance first.toList = Position.past first.toList :=
    Position.advance_past [] first.toList
  have hcuts := Lexer.cuts_line {} _ (Lexer.withoutReturns second.toList) hend hopen
  rw [hpast, Position.past_step_lineEnd, String.length_toList] at hcuts
  have hjoined : Lexer.withoutReturns (first ++ "\n" ++ second).toList =
      first.toList ++ '\n' :: Lexer.withoutReturns second.toList := by
    rw [String.toList_append, String.toList_append, Lexer.withoutReturns_append,
      Lexer.withoutReturns_append, hfirst, List.append_assoc]
    rfl
  obtain ⟨htokens, herror⟩ := Lexer.cuts_shift (first.length + 1) (first.toList.count '\n' + 1) {}
    (Lexer.withoutReturns second.toList)
  cases hsecond : tokenize second with
  | ok us =>
    obtain ⟨hend', rfl⟩ := tokenize_eq_ok.1 hsecond
    refine tokenize_eq_ok.2 ?_
    rw [hjoined, hcuts, htokens]
    exact ⟨herror.trans (congrArg _ hend'), rfl⟩
  | error e =>
    have hstop := tokenize_eq_error.1 hsecond
    refine tokenize_eq_error.2 ?_
    rw [hjoined, hcuts]
    exact herror.trans (congrArg _ hstop)

/-- A string over two lines, and a quote and an escape sign that stand at the end of a line. -/
theorem tokenize_lines_escape :
    ∃ ts, '\r' ∉ "\"a\nb\" 'c\\".toList ∧ tokenize "\"a\nb\" 'c\\" = .ok ts ∧
      (∀ t ∈ ts.getLast?, ¬IsOpenBlock t.text.toList) ∧
      tokenize ("\"a\nb\" 'c\\" ++ "\n" ++ "d' \"") =
        ((tokenize "d' \"").map fun us =>
          ts ++ ⟨.lineEnd, "\n", Position.past "\"a\nb\" 'c\\".toList⟩ ::
            us.map (Token.shift ("\"a\nb\" 'c\\".length + 1)
              ("\"a\nb\" 'c\\".toList.count '\n' + 1))).mapError
          (LexError.shift ("\"a\nb\" 'c\\".length + 1)
            ("\"a\nb\" 'c\\".toList.count '\n' + 1)) := by
  have h : tokenize "\"a\nb\" 'c\\" = .ok [
      ⟨.stringLiteral, "\"a\nb\"", ⟨0, 1, 1⟩⟩, ⟨.space, " ", ⟨5, 2, 3⟩⟩,
      ⟨.identifier, "'", ⟨6, 2, 4⟩⟩, ⟨.identifier, "c", ⟨7, 2, 5⟩⟩,
      ⟨.identifier, "\\", ⟨8, 2, 6⟩⟩] := by
    rw [tokenize_eq_ok]
    decide +kernel
  have hreturns : '\r' ∉ "\"a\nb\" 'c\\".toList := by decide +kernel
  refine ⟨_, hreturns, h, ?hopen, tokenize_lines hreturns h ?hopen "d' \""⟩
  rintro t ht ⟨inside, hinside, -⟩
  cases ht
  cases hinside

/-! ## Tokens one below the other -/

namespace Token

/-- **A token that is no trivia keeps its category alone**, whatever stands around it in a text. -/
theorem isSingle_of_tokenize {text : String} {ts : List Token} (h : tokenize text = .ok ts)
    {t : Token} (ht : t ∈ significant ts) : t.IsSingle := by
  obtain ⟨hmem, hkind⟩ := mem_significant.1 ht
  have hcutting := (cutting_iff_pieces h _).2 rfl
  obtain ⟨rest, hpiece⟩ := hcutting.piece_of_mem (List.mem_map_of_mem hmem)
  refine isSingle_of_piece hkind (List.filter_eq_self.2 fun c hc => ?_)
    (hpiece.beginning List.nil_prefix)
  obtain ⟨hend, rfl⟩ := tokenize_eq_ok.1 h
  have hchar : c ∈ characters (Lexer.cuts {} (Lexer.withoutReturns text.toList)).tokens :=
    List.mem_flatMap.2 ⟨t, hmem, hc⟩
  rw [Lexer.characters_cuts hend] at hchar
  exact (List.mem_filter.1 hchar).2

/-- Tokens one below the other are cut off again, with a line end between each two. -/
theorem cutting_lines {ts : List Token} (hts : ∀ t ∈ ts, t.IsSingle) :
    ∃ pieces, Cutting ("\n".intercalate (ts.map Token.text)).toList pieces ∧
      pieces.filter (fun p => !p.1.isTrivia) = ts.map piece := by
  induction ts with
  | nil =>
    refine ⟨[], ?_, rfl⟩
    rw [List.map_nil, String.intercalate_nil]
    exact .done
  | cons t ts ih =>
    obtain ⟨ht, hmore⟩ := List.forall_mem_cons.1 hts
    obtain ⟨pieces, hcutting, hpieces⟩ := ih hmore
    have hpiece := ht.piece_nil.1
    have hcomment : t.kind ≠ .comment := by
      intro hcomment
      have hkind := ht.significant
      rw [hcomment] at hkind
      cases hkind
    have hkeep : (!t.piece.1.isTrivia) = true := by
      rw [show t.piece.1 = t.kind from rfl, ht.significant]
      rfl
    cases ts with
    | nil =>
      refine ⟨[t.piece], ?_, by rw [List.filter_cons, if_pos hkeep]; rfl⟩
      have hall := Cutting.piece hpiece .done
      rw [List.append_nil, String.ofList_toList] at hall
      rwa [List.map_singleton, String.intercalate_singleton]
    | cons u ts =>
      refine ⟨t.piece :: (.lineEnd, "\n") :: pieces, ?_, ?_⟩
      · have hbelow := Cutting.piece (hpiece.replace hcomment (.lineEnd [] _))
          (Cutting.piece .lineEnd hcutting)
        rw [String.ofList_toList] at hbelow
        rw [List.map_cons, List.map_cons, String.intercalate_cons_cons, String.toList_append,
          String.toList_append, List.append_assoc]
        exact hbelow
      · rw [List.filter_cons, if_pos hkeep, List.filter_cons, if_neg (by decide), hpieces]
        rfl

/-- Tokens one below the other bring no carriage returns. -/
theorem withoutReturns_lines {ts : List Token} (hts : ∀ t ∈ ts, t.IsSingle) :
    Lexer.withoutReturns ("\n".intercalate (ts.map Token.text)).toList =
      ("\n".intercalate (ts.map Token.text)).toList := by
  induction ts with
  | nil => rfl
  | cons t ts ih =>
    obtain ⟨ht, hmore⟩ := List.forall_mem_cons.1 hts
    cases ts with
    | nil =>
      rw [List.map_singleton, String.intercalate_singleton]
      exact ht.piece_nil.2
    | cons u ts =>
      have hbelow := ih hmore
      rw [List.map_cons] at hbelow
      rw [List.map_cons, List.map_cons, String.intercalate_cons_cons, String.toList_append,
        String.toList_append, Lexer.withoutReturns_append, Lexer.withoutReturns_append,
        ht.piece_nil.2, hbelow]
      rfl

end Token

/-- **The tokens of a text survive lexing one below the other.** The texts of all tokens but trivia,
with line ends between them, have these tokens again, each of its category. -/
theorem tokenize_significant_lines {text : String} {ts : List Token}
    (h : tokenize text = .ok ts) :
    ∃ us, tokenize ("\n".intercalate ((Token.significant ts).map Token.text)) = .ok us ∧
      (Token.significant us).map Token.piece = (Token.significant ts).map Token.piece := by
  have hsingle : ∀ t ∈ Token.significant ts, t.IsSingle := fun t ht =>
    Token.isSingle_of_tokenize h ht
  obtain ⟨pieces, hcutting, hpieces⟩ := Token.cutting_lines hsingle
  rw [← Token.withoutReturns_lines hsingle] at hcutting
  obtain ⟨us, hus⟩ := (exists_cutting_iff _).1 ⟨pieces, hcutting⟩
  refine ⟨us, hus, ?_⟩
  rw [← hpieces, (cutting_iff_pieces hus pieces).1 hcutting, List.filter_map]
  rfl

/-- Two quotes that start no literal, an escape sign, a numeral that is no digit, a slash before a
comment, brackets that stand close together and a string over two lines. -/
theorem tokenize_significant_lines_signs :
    ∃ ts, tokenize "'\\'\n\u00b3a//*\n/ [[[\"b\n//c\\\"\"\"\"/**/]]" = .ok ts ∧
      (Token.significant ts).map Token.text =
        ["'", "\\", "'", "\u00b3", "a", "/", "[[", "[", "\"b\n//c\\\"\"", "\"\"", "]]"] ∧
      ∃ us, tokenize ("\n".intercalate ((Token.significant ts).map Token.text)) = .ok us ∧
        (Token.significant us).map Token.piece = (Token.significant ts).map Token.piece := by
  have hend : (Lexer.cuts {} (Lexer.withoutReturns
      "'\\'\n\u00b3a//*\n/ [[[\"b\n//c\\\"\"\"\"/**/]]".toList)).error = none := by decide +kernel
  have h := tokenize_eq_ok.2 ⟨hend, rfl⟩
  exact ⟨_, h, by decide +kernel, tokenize_significant_lines h⟩

end HeaderReflection
