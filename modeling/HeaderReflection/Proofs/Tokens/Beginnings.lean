import HeaderReflection.Proofs.Tokens.Comments
import HeaderReflection.Proofs.Tokens.Grammar

/-!
# The beginning of a text

Lexing never takes back what it did: the characters of the first tokens of a text have these tokens
and no others (`Lexer.cuts_take`). A piece may lose what follows it, because a shorter rest neither
goes on with a run nor closes a quote that the whole rest does not close (`Piece.beginning`). A text
without tokens is cut up to its first string that is never closed, and what stands before this
string has tokens (`tokenize_beginnings`).
-/

namespace HeaderReflection

open Lexeme

variable {kind : TokenKind} {text rest after : List Char}

/-! ## Something else after a piece -/

/-- A block comment without an end. -/
def IsOpenBlock (text : List Char) : Prop :=
  ∃ inside, text = '/' :: '*' :: inside ∧ ¬HasBlockEnd inside

theorem TokenKind.Classified.isTrivia_word {word : List Char}
    (h : Classified keywords word kind) : kind.isTrivia = false := by
  rw [classified_keyword_iff.1 h]
  exact TokenKind.isTrivia_word word

theorem TokenKind.Classified.isTrivia_sign {c : Char} (h : Classified signs c kind) :
    kind.isTrivia = false := by
  rw [classified_sign_iff.1 h]
  exact TokenKind.isTrivia_ofSign c

/-- A piece that is no comment stays one before something that looks the same from it. -/
theorem Piece.replace (h : Piece kind text rest) (hcomment : kind ≠ .comment)
    (hafter : LooksLike rest after) : Piece kind text after := by
  obtain ⟨c, cs, -, hcut⟩ := h.cut_eq
  exact piece_of_cut (cut_replace hcut hcomment hafter)

/-- A comment stays one if what follows ends its line where it did, and nothing follows it where it
is not closed. -/
theorem Piece.replace_comment (h : Piece .comment text rest)
    (hline : EndsRun (· ≠ '\n') rest → EndsRun (· ≠ '\n') after)
    (hopen : IsOpenBlock text → rest = [] → after = []) : Piece .comment text after := by
  cases h with
  | lineComment hbody hrest => exact .lineComment hbody (hline hrest)
  | blockComment h => exact .blockComment h
  | openBlock h =>
    rw [hopen ⟨_, rfl, h⟩ rfl]
    exact .openBlock h
  | word _ _ _ hkind => cases hkind.isTrivia_word
  | sign _ hkind => cases hkind.isTrivia_sign

/-- A beginning of what follows a token looks the same from there: the next character is the same,
and a quote that is closed in it is closed in the whole. -/
theorem Lexeme.LooksLike.of_beginning (h : after <+: rest) : LooksLike rest after := by
  obtain ⟨more, rfl⟩ := h
  refine ⟨?_, fun hnone => ?_⟩
  · cases after with
    | nil => exact .inr fun c hc => by cases hc
    | cons c after => exact .inl rfl
  · cases hsplit : splitCharacter after with
    | none => rfl
    | some p =>
      have hclosed := splitCharacter_append_of_some hsplit (p.2 ++ more)
      rw [← List.append_assoc, splitCharacter_append hsplit, hnone] at hclosed
      cases hclosed

/-- **A piece may lose the end of what follows it.** -/
theorem Piece.beginning (h : Piece kind text rest) (hafter : after <+: rest) :
    Piece kind text after := by
  by_cases hcomment : kind = .comment
  · subst hcomment
    obtain ⟨more, rfl⟩ := hafter
    refine h.replace_comment (fun hrest c hc => hrest c ?_)
      fun _ hnil => (List.append_eq_nil_iff.1 hnil).1
    cases after with
    | nil => cases hc
    | cons d after => exact hc
  · exact h.replace hcomment (.of_beginning hafter)

/-! ## Where the cuts stop -/

/-- The cut fails only at a string that is never closed. -/
theorem Lexeme.splitString_of_cut_none {c : Char} {cs : List Char} (h : cut c cs = none) :
    c = '"' ∧ splitString cs = none := by
  by_cases hspecial : IsSpecial c
  · simp only [IsSpecial, List.mem_cons, List.not_mem_nil, or_false] at hspecial
    rcases hspecial with rfl | rfl | rfl | rfl | rfl | rfl | rfl | rfl
    · rw [cut_blank (.inl rfl)] at h; cases h
    · rw [cut_blank (.inr rfl)] at h; cases h
    · rw [cut_lineEnd] at h; cases h
    · rw [cut_openBracket] at h; split at h <;> cases h
    · rw [cut_closeBracket] at h; split at h <;> cases h
    · rw [cut_slash] at h
      split at h
      · cases h
      · split at h <;> cases h
    · rw [cut_doubleQuote, Option.map_eq_none_iff] at h
      exact ⟨rfl, h⟩
    · rw [cut_quote] at h; split at h <;> cases h
  · rw [cut_plain hspecial] at h
    split at h
    · cases h
    · split at h <;> cases h

/-- A string is never closed if every double quote after its opening is escaped. Of quotes that are
not escaped there is a first one, and it closes the string. -/
theorem Lexeme.isEscapedAfter_of_splitString_none {cs : List Char} (h : splitString cs = none) :
    ∀ front back, cs = front ++ '"' :: back → IsEscapedAfter front := by
  intro front
  induction hlength : front.length using Nat.strongRecOn generalizing front with
  | ind n ih =>
    intro back hcs
    refine Classical.byContradiction fun hunescaped => ?_
    have hfirst : IsFirstQuote '"' front := by
      refine ⟨hunescaped, fun shorter between hfront => ?_⟩
      have hshorter : shorter.length < n := by
        rw [← hlength, hfront, List.length_append, List.length_cons]
        omega
      refine ih _ hshorter shorter rfl (between ++ '"' :: back) ?_
      rw [hcs, hfront, List.append_assoc, List.cons_append]
    rw [splitString_eq_some_iff.2 ⟨front, rfl, hfirst, hcs⟩] at h
    cases h

namespace Lexer

open Token

variable {position : Position}

theorem cuts_nil (position : Position) : cuts position [] = ⟨[], none, ⟨position, []⟩⟩ := by
  rw [cuts]

/-- A piece at the start of a text is the first token. -/
theorem cuts_piece (h : Piece kind text rest) (position : Position) :
    cuts position (text ++ rest) =
      { cuts (position.advance text) rest with
        tokens := ⟨kind, .ofList text, position⟩ ::
          (cuts (position.advance text) rest).tokens } := by
  obtain ⟨c, cs, hfirst, hcut⟩ := h.cut_eq
  rw [hfirst, cuts_of_cut_some hcut]

theorem characters_cons_ofList (kind : TokenKind) (text : List Char) (position : Position)
    (ts : List Token) :
    characters (⟨kind, .ofList text, position⟩ :: ts) = text ++ characters ts := by
  rw [characters, List.flatMap_cons, String.toList_ofList]
  rfl

/-- **Where the cuts stop:** at the end of the text, or at a double quote that starts a string which
is never closed. What was cut off before is all that stands before this place. -/
theorem cuts_stop (position : Position) (cs : List Char) :
    (cuts position cs).error = none ∧ characters (cuts position cs).tokens = cs ∨
      ∃ left, (cuts position cs).error =
          some (.unclosedString (position.advance (characters (cuts position cs).tokens))) ∧
        cs = characters (cuts position cs).tokens ++ '"' :: left ∧ splitString left = none := by
  fun_induction cuts position cs with
  | case1 position => exact .inl ⟨rfl, rfl⟩
  | case2 position c cs hcut =>
    obtain ⟨rfl, hopen⟩ := splitString_of_cut_none hcut
    exact .inr ⟨cs, rfl, rfl, hopen⟩
  | case3 position c cs l hcut more ih =>
    rw [characters_cons_ofList, ← text_append_rest hcut]
    rcases ih with ⟨hend, hmore⟩ | ⟨left, herror, hrest, hopen⟩
    · exact .inl ⟨hend, congrArg (l.text ++ ·) hmore⟩
    · refine .inr ⟨left, ?_, ?_, hopen⟩
      · rw [Position.advance_append]
        exact herror
      · rw [List.append_assoc, ← hrest]

theorem characters_take_beginning (ts : List Token) (k : Nat) :
    characters (ts.take k) <+: characters ts := by
  refine ⟨characters (ts.drop k), ?_⟩
  rw [characters, characters, ← List.flatMap_append, List.take_append_drop]
  rfl

/-- The tokens that were cut off are a beginning of the text. -/
theorem characters_cuts_beginning (position : Position) (cs : List Char) :
    characters (cuts position cs).tokens <+: cs := by
  rcases cuts_stop position cs with ⟨-, hall⟩ | ⟨left, -, hcs, -⟩
  · exact ⟨[], by rw [List.append_nil, hall]⟩
  · exact ⟨_, hcs.symm⟩

/-- **The characters of the first tokens have these tokens**, and no others. -/
theorem cuts_take (position : Position) (cs : List Char) (k : Nat) :
    (cuts position (characters ((cuts position cs).tokens.take k))).error = none ∧
      (cuts position (characters ((cuts position cs).tokens.take k))).tokens =
        (cuts position cs).tokens.take k := by
  fun_induction cuts position cs generalizing k with
  | case1 position =>
    rw [List.take_nil]
    exact ⟨congrArg Lexing.error (cuts_nil position), congrArg Lexing.tokens (cuts_nil position)⟩
  | case2 position c cs hcut =>
    rw [List.take_nil]
    exact ⟨congrArg Lexing.error (cuts_nil position), congrArg Lexing.tokens (cuts_nil position)⟩
  | case3 position c cs l hcut more ih =>
    cases k with
    | zero =>
      exact ⟨congrArg Lexing.error (cuts_nil position), congrArg Lexing.tokens (cuts_nil position)⟩
    | succ k =>
      obtain ⟨hend, htokens⟩ := ih k
      have hbefore : characters (more.tokens.take k) <+: l.rest :=
        (characters_take_beginning more.tokens k).trans (characters_cuts_beginning _ l.rest)
      rw [List.take_succ_cons, characters_cons_ofList,
        cuts_piece ((piece_of_cut hcut).beginning hbefore)]
      exact ⟨hend, congrArg _ htokens⟩

/-- A lexer that stopped has nothing left to read. -/
theorem tokenizeTimes_of_rest {cursor : Cursor} (h : cursor.rest = []) (n : Nat) :
    tokenizeTimes n cursor = List.replicate n (.ok []) := by
  obtain ⟨position, rest⟩ := cursor
  cases h
  have hrun : run ⟨position, []⟩ = ⟨[], none, ⟨position, []⟩⟩ := by
    rw [run_eq_cuts, cuts_nil]
  induction n with
  | zero => rfl
  | succ n ih =>
    rw [tokenizeTimes, tokenize, hrun, List.replicate_succ]
    exact congrArg _ ih

/-- However it stops, a lexer is then at the end of its text. -/
theorem rest_tokenize (cursor : Cursor) : (tokenize cursor).2.rest = [] := by
  have hstopped : (run cursor).stopped.rest = [] := by
    rw [run_eq_cuts]
    exact rest_stopped_cuts cursor.position cursor.rest
  rw [tokenize]
  split <;> exact hstopped

theorem withoutReturns_append (cs ds : List Char) :
    withoutReturns (cs ++ ds) = withoutReturns cs ++ withoutReturns ds := List.filter_append ..

/-- A beginning of a text without carriage returns has none either. -/
theorem withoutReturns_of_beginning {cs ds : List Char} (h : cs <+: withoutReturns ds) :
    withoutReturns cs = cs := by
  refine List.filter_eq_self.2 fun c hc => ?_
  exact (List.mem_filter.1 (h.subset hc)).2

end Lexer

/-- A text has no tokens when the cuts stop at a string that is never closed. -/
theorem tokenize_eq_error {text : String} {e : LexError} :
    tokenize text = .error e ↔
      (Lexer.cuts {} (Lexer.withoutReturns text.toList)).error = some e := by
  rw [tokenize, Lexer.ofString, Lexer.tokenize, Lexer.run_eq_cuts]
  cases (Lexer.cuts {} (Lexer.withoutReturns text.toList)).error with
  | none => simp
  | some error => simp

/-- The tokens of a beginning of a text that ends where a token does. -/
theorem tokenize_characters_take (text : String) (k : Nat) :
    tokenize (.ofList (Token.characters ((Lexer.run (Lexer.ofString text)).tokens.take k))) =
      .ok ((Lexer.run (Lexer.ofString text)).tokens.take k) := by
  have hbefore := (Lexer.characters_take_beginning _ k).trans
    (Lexer.characters_cuts_beginning {} (Lexer.withoutReturns text.toList))
  rw [Lexer.ofString, Lexer.run_eq_cuts, tokenize_eq_ok, String.toList_ofList,
    Lexer.withoutReturns_of_beginning hbefore]
  exact Lexer.cuts_take {} _ k

/-- **A lexer stops at the first string that is never closed, and keeps what it had.** The error
names the place of a double quote after which every double quote is escaped, and the text before it
has the tokens that the lexer had cut off. Of any text the characters of the first tokens have these
tokens. Once a lexer has stopped, it gives no more tokens and no error. -/
theorem tokenize_beginnings (text : String) :
    (∀ start, tokenize text = .error (.unclosedString start) →
      ∃ before after, Lexer.withoutReturns text.toList = before ++ '"' :: after ∧
        start = Position.past before ∧
        (∀ front back, after = front ++ '"' :: back → IsEscapedAfter front) ∧
        tokenize (.ofList before) = .ok (Lexer.run (Lexer.ofString text)).tokens) ∧
      (∀ k,
        tokenize (.ofList (Token.characters ((Lexer.run (Lexer.ofString text)).tokens.take k))) =
          .ok ((Lexer.run (Lexer.ofString text)).tokens.take k)) ∧
      (Lexer.tokenize (Lexer.ofString text)).2.rest = [] ∧
      ∀ n, Lexer.tokenizeTimes (n + 1) (Lexer.ofString text) =
        tokenize text :: List.replicate n (.ok []) := by
  refine ⟨fun start herror => ?_, tokenize_characters_take text, Lexer.rest_tokenize _, fun n => ?_⟩
  · have hstop := tokenize_eq_error.1 herror
    have hwhole := tokenize_characters_take text (Lexer.run (Lexer.ofString text)).tokens.length
    rw [List.take_length] at hwhole
    rcases Lexer.cuts_stop {} (Lexer.withoutReturns text.toList) with ⟨hend, -⟩ |
      ⟨left, hleft, hcs, hopen⟩
    · rw [hend] at hstop
      cases hstop
    · rw [Lexer.ofString, Lexer.run_eq_cuts] at hwhole ⊢
      refine ⟨_, left, hcs, ?_, isEscapedAfter_of_splitString_none hopen, hwhole⟩
      rw [hleft] at hstop
      cases hstop
      exact Position.advance_past [] _
  · exact congrArg (tokenize text :: ·) (Lexer.tokenizeTimes_of_rest (Lexer.rest_tokenize _) n)

/-- A string that is never closed: a quote that starts no literal and a line end after an escape
sign stand before it, an escaped quote after it. -/
theorem tokenize_beginnings_unclosed :
    tokenize "'a\\\r\n\"b\\\"" = .error (.unclosedString ⟨4, 2, 1⟩) ∧
      (Lexer.run (Lexer.ofString "'a\\\r\n\"b\\\"")).tokens.map Token.text =
        ["'", "a", "\\", "\n"] ∧
      ∃ before after, Lexer.withoutReturns "'a\\\r\n\"b\\\"".toList = before ++ '"' :: after ∧
        (⟨4, 2, 1⟩ : Position) = Position.past before ∧
        (∀ front back, after = front ++ '"' :: back → IsEscapedAfter front) ∧
        tokenize (.ofList before) =
          .ok (Lexer.run (Lexer.ofString "'a\\\r\n\"b\\\"")).tokens := by
  have herror : tokenize "'a\\\r\n\"b\\\"" = .error (.unclosedString ⟨4, 2, 1⟩) := by
    rw [tokenize_eq_error]
    decide +kernel
  have htexts : (Lexer.run (Lexer.ofString "'a\\\r\n\"b\\\"")).tokens.map Token.text =
      ["'", "a", "\\", "\n"] := by
    rw [Lexer.ofString, Lexer.run_eq_cuts]
    decide +kernel
  exact ⟨herror, htexts, (tokenize_beginnings _).1 _ herror⟩

end HeaderReflection
