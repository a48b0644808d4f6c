import HeaderReflection.Proofs.Tokens.Closing
import HeaderReflection.Proofs.Tokens.Following

/-!
# The grammar of tokens

A text is cut into pieces from the left. `Piece` says which pieces there are: each rule names the
category of a piece, its characters and what has to come after it. At most one piece starts a text
(`Piece.unique`), so a text is cut in at most one way, and the lexer gives this cutting
(`tokenize_cutting`). A text without tokens is one that cannot be cut (`exists_cutting_iff`).
-/

namespace HeaderReflection

/-! ## Categories by tables -/

namespace TokenKind

/-- The keywords. -/
def keywords : List (List Char × TokenKind) := [
  ("class".toList, classKeyword),
  ("struct".toList, structKeyword),
  ("namespace".toList, namespaceKeyword),
  ("auto".toList, autoKeyword),
  ("public".toList, publicKeyword),
  ("private".toList, privateKeyword),
  ("protected".toList, protectedKeyword),
  ("template".toList, templateKeyword),
  ("using".toList, usingKeyword)]

/-- The signs that have a category of their own. -/
def signs : List (Char × TokenKind) := [
  ('[', openBracket),
  (']', closeBracket),
  ('\x7b', openBrace),
  ('\x7d', closeBrace),
  ('(', openParen),
  (')', closeParen),
  (':', colon),
  (',', comma),
  (';', semicolon),
  ('#', hash)]

/-- The category that a table gives, or that of identifiers for what is not in it. -/
def Classified {α : Type} (table : List (α × TokenKind)) (a : α) (kind : TokenKind) : Prop :=
  (a, kind) ∈ table ∨ kind = .identifier ∧ ∀ other, (a, other) ∉ table

theorem keyword?_eq_some_iff {word : List Char} {kind : TokenKind} :
    keyword? word = some kind ↔ (word, kind) ∈ keywords := by
  constructor
  · intro h
    unfold keyword? at h
    split at h
    all_goals first | (cases h; decide) | cases h
  · intro h
    simp only [keywords, List.mem_cons, List.not_mem_nil, or_false, Prod.mk.injEq] at h
    rcases h with ⟨rfl, rfl⟩ | ⟨rfl, rfl⟩ | ⟨rfl, rfl⟩ | ⟨rfl, rfl⟩ | ⟨rfl, rfl⟩ | ⟨rfl, rfl⟩ |
      ⟨rfl, rfl⟩ | ⟨rfl, rfl⟩ | ⟨rfl, rfl⟩ <;> rfl

theorem classified_keyword_iff {word : List Char} {kind : TokenKind} :
    Classified keywords word kind ↔ kind = (keyword? word).getD .identifier := by
  cases h : keyword? word with
  | some found =>
    have hfound := keyword?_eq_some_iff.1 h
    constructor
    · rintro (hmem | ⟨-, hnone⟩)
      · exact Option.some.inj ((keyword?_eq_some_iff.2 hmem).symm.trans h)
      · exact absurd hfound (hnone found)
    · rintro rfl
      exact .inl hfound
  | none =>
    have hnone : ∀ other, (word, other) ∉ keywords := fun other hmem =>
      Option.some_ne_none other ((keyword?_eq_some_iff.2 hmem).symm.trans h)
    constructor
    · rintro (hmem | ⟨rfl, -⟩)
      · exact absurd hmem (hnone kind)
      · rfl
    · rintro rfl
      exact .inr ⟨rfl, hnone⟩

theorem classified_sign_iff {c : Char} {kind : TokenKind} :
    Classified signs c kind ↔ kind = ofSign c := by
  have hmem : ∀ other, (c, other) ∈ signs → other = ofSign c := by
    intro other h
    simp only [signs, List.mem_cons, List.not_mem_nil, or_false, Prod.mk.injEq] at h
    rcases h with ⟨rfl, rfl⟩ | ⟨rfl, rfl⟩ | ⟨rfl, rfl⟩ | ⟨rfl, rfl⟩ | ⟨rfl, rfl⟩ | ⟨rfl, rfl⟩ |
      ⟨rfl, rfl⟩ | ⟨rfl, rfl⟩ | ⟨rfl, rfl⟩ | ⟨rfl, rfl⟩ <;> rfl
  have hsign : (c, ofSign c) ∈ signs ∨ ofSign c = .identifier ∧ ∀ other, (c, other) ∉ signs := by
    unfold ofSign
    split
    case h_11 =>
      refine .inr ⟨rfl, fun other h => ?_⟩
      simp_all [signs]
    all_goals exact .inl (by decide)
  constructor
  · rintro (h | ⟨rfl, hnone⟩)
    · exact hmem kind h
    · rcases hsign with hfound | ⟨hidentifier, -⟩
      · exact absurd hfound (hnone _)
      · exact hidentifier.symm
  · rintro rfl
    exact hsign

end TokenKind

/-! ## Pieces -/

/-- The next character is none of a class; the text may also end. -/
def EndsRun (p : Char → Bool) (rest : List Char) : Prop := ∀ c ∈ rest.head?, p c = false

/-- A sign that starts none of the longer pieces. -/
structure StandsAlone (c : Char) (rest : List Char) : Prop where
  plain : c ∉ [' ', '\t', '\n', '"', '\'']
  notDigit : c.isDigit = false
  notWord : isWordStart c = false
  notOpen : c = '[' → rest.head? ≠ some '['
  notClose : c = ']' → rest.head? ≠ some ']'
  notComment : c = '/' → rest.head? ≠ some '/' ∧ rest.head? ≠ some '*'

/-- `Piece kind text rest`: a text that starts with `text` and goes on with `rest` starts with a
piece of this category, which is `text`. -/
inductive Piece : TokenKind → List Char → List Char → Prop
  | blank {c : Char} {rest : List Char} (h : c = ' ' ∨ c = '\t') : Piece .space [c] rest
  | lineEnd {rest : List Char} : Piece .lineEnd ['\n'] rest
  | attributeOpen {rest : List Char} : Piece .attributeOpen ['[', '['] rest
  | attributeClose {rest : List Char} : Piece .attributeClose [']', ']'] rest
  /-- A comment up to the end of its line. -/
  | lineComment {body rest : List Char} (hbody : '\n' ∉ body) (hrest : EndsRun (· ≠ '\n') rest) :
      Piece .comment ('/' :: '/' :: body) rest
  /-- A comment up to the first end after its opening. -/
  | blockComment {inside rest : List Char} (h : ¬HasBlockEnd (inside ++ ['*'])) :
      Piece .comment ('/' :: '*' :: (inside ++ ['*', '/'])) rest
  /-- A comment without an end, which goes on to the end of the text. -/
  | openBlock {inside : List Char} (h : ¬HasBlockEnd inside) :
      Piece .comment ('/' :: '*' :: inside) []
  | string {body rest : List Char} (h : IsFirstQuote '"' body) :
      Piece .stringLiteral ('"' :: (body ++ ['"'])) rest
  | character {body rest : List Char} (hline : '\n' ∉ body) (h : IsFirstQuote '\'' body) :
      Piece .charLiteral ('\'' :: (body ++ ['\''])) rest
  /-- A quote that starts no literal, since none closes it on its line. -/
  | quote {rest : List Char}
      (h : ∀ body after, rest = body ++ '\'' :: after → '\n' ∉ body → ¬IsFirstQuote '\'' body) :
      Piece .identifier ['\''] rest
  | number {c : Char} {run rest : List Char} (hdigits : ∀ d ∈ c :: run, d.isDigit = true)
      (hrest : EndsRun Char.isDigit rest) : Piece .numberLiteral (c :: run) rest
  | word {kind : TokenKind} {c : Char} {run rest : List Char} (hstart : isWordStart c = true)
      (hrun : ∀ d ∈ run, isWordChar d = true) (hrest : EndsRun isWordChar rest)
      (hkind : TokenKind.Classified TokenKind.keywords (c :: run) kind) :
      Piece kind (c :: run) rest
  | sign {kind : TokenKind} {c : Char} {rest : List Char} (h : StandsAlone c rest)
      (hkind : TokenKind.Classified TokenKind.signs c kind) : Piece kind [c] rest

/-- A text cut into pieces, each with its category. -/
inductive Cutting : List Char → List (TokenKind × String) → Prop
  | done : Cutting [] []
  | piece {kind : TokenKind} {text rest : List Char} {pieces : List (TokenKind × String)}
      (h : Piece kind text rest) (hrest : Cutting rest pieces) :
      Cutting (text ++ rest) ((kind, String.ofList text) :: pieces)

/-! ## Runs of characters -/

theorem takeWhile_run {p : Char → Bool} {run rest : List Char} (hrun : ∀ c ∈ run, p c = true)
    (hrest : EndsRun p rest) :
    (run ++ rest).takeWhile p = run ∧ (run ++ rest).dropWhile p = rest := by
  rw [List.takeWhile_append_of_pos hrun, List.dropWhile_append_of_pos hrun]
  cases rest with
  | nil => exact ⟨List.append_nil run, rfl⟩
  | cons c rest =>
    have hc : ¬p c = true := by
      rw [hrest c rfl]
      exact Bool.false_ne_true
    rw [List.takeWhile_cons_of_neg hc, List.dropWhile_cons_of_neg hc, List.append_nil]
    exact ⟨rfl, rfl⟩

theorem endsRun_dropWhile (p : Char → Bool) (cs : List Char) : EndsRun p (cs.dropWhile p) := by
  intro c hc
  have hnot := List.head?_dropWhile_not p cs
  rw [Option.mem_def.1 hc] at hnot
  exact hnot

/-- The letters of ASCII come after its digits. -/
theorem not_isDigit_of_isAlpha {c : Char} (h : c.isAlpha = true) : ¬c.isDigit = true := by
  intro hdigit
  have hnine : c.val ≤ '9'.val := of_decide_eq_true (Bool.and_eq_true_iff.1 hdigit).2
  rcases Bool.or_eq_true_iff.1 h with hupper | hlower
  · have hfirst : 'A'.val ≤ c.val := (of_decide_eq_true hupper).1
    exact absurd (UInt32.le_trans hfirst hnine) (by decide)
  · have hfirst : 'a'.val ≤ c.val := of_decide_eq_true (Bool.and_eq_true_iff.1 hlower).1
    exact absurd (UInt32.le_trans hfirst hnine) (by decide)

/-- A digit starts no word. -/
theorem isDigit_eq_false_of_isWordStart {c : Char} (h : isWordStart c = true) :
    c.isDigit = false := by
  rw [isWordStart, Bool.or_eq_true] at h
  rcases h with halphabetic | hunderscore
  · rw [← Bool.not_eq_true]
    intro hdigit
    have hnine : c.val ≤ '9'.val := of_decide_eq_true (Bool.and_eq_true_iff.1 hdigit).2
    have hascii : Unicode.isAscii c = true :=
      decide_eq_true (UInt32.lt_of_le_of_lt hnine (by decide))
    rw [Unicode.isAlphabetic_of_isAscii hascii] at halphabetic
    exact not_isDigit_of_isAlpha halphabetic hdigit
  · rw [of_decide_eq_true hunderscore]
    rfl

/-! ## Pieces are what the cut gives -/

namespace Lexeme

/-- None of the signs that the cut treats each in its own way starts a word or a number. -/
theorem not_isSpecial_of_isWordStart {c : Char} (h : isWordStart c = true) : ¬IsSpecial c := by
  intro hspecial
  simp only [IsSpecial, List.mem_cons, List.not_mem_nil, or_false] at hspecial
  rcases hspecial with rfl | rfl | rfl | rfl | rfl | rfl | rfl | rfl <;>
    exact absurd h (by decide)

theorem not_isSpecial_of_isDigit {c : Char} (h : c.isDigit = true) : ¬IsSpecial c := by
  intro hspecial
  simp only [IsSpecial, List.mem_cons, List.not_mem_nil, or_false] at hspecial
  rcases hspecial with rfl | rfl | rfl | rfl | rfl | rfl | rfl | rfl <;>
    exact absurd h (by decide)

theorem cut_lineComment (cs : List Char) :
    cut '/' ('/' :: cs) =
      some ⟨.comment, '/' :: '/' :: cs.takeWhile (· ≠ '\n'), cs.dropWhile (· ≠ '\n')⟩ := by
  rw [cut_slash]
  rfl

theorem cut_blockComment (cs : List Char) :
    cut '/' ('*' :: cs) =
      some ⟨.comment, '/' :: '*' :: (splitBlock cs).1, (splitBlock cs).2⟩ := by
  rw [cut_slash]
  rfl

end Lexeme

/-- **Every piece is what the cut gives**, whatever the text is. -/
theorem Piece.cut_eq {kind : TokenKind} {text rest : List Char} (h : Piece kind text rest) :
    ∃ c cs, text ++ rest = c :: cs ∧ Lexeme.cut c cs = some ⟨kind, text, rest⟩ := by
  cases h with
  | blank h => exact ⟨_, _, rfl, Lexeme.cut_blank h _⟩
  | lineEnd => exact ⟨_, _, rfl, Lexeme.cut_lineEnd _⟩
  | attributeOpen => exact ⟨_, _, rfl, Lexeme.cut_openBracket _⟩
  | attributeClose => exact ⟨_, _, rfl, Lexeme.cut_closeBracket _⟩
  | @lineComment body rest hbody hrest =>
    refine ⟨'/', '/' :: (body ++ rest), rfl, ?_⟩
    have hrun : ∀ c ∈ body, decide (c ≠ '\n') = true := fun c hc =>
      decide_eq_true fun hline => hbody (hline ▸ hc)
    obtain ⟨htake, hdrop⟩ := takeWhile_run hrun hrest
    rw [Lexeme.cut_lineComment, htake, hdrop]
  | @blockComment inside rest h =>
    refine ⟨'/', '*' :: (inside ++ '*' :: '/' :: rest), ?_, ?_⟩
    · rw [List.cons_append, List.cons_append, List.append_assoc]
      rfl
    · rw [Lexeme.cut_blockComment, Lexeme.splitBlock_of_first h]
  | @openBlock inside h =>
    refine ⟨'/', '*' :: inside, by rw [List.append_nil], ?_⟩
    rw [Lexeme.cut_blockComment, Lexeme.splitBlock_of_open h]
  | @string body rest h =>
    refine ⟨'"', body ++ '"' :: rest, by rw [List.cons_append, List.append_assoc]; rfl, ?_⟩
    rw [Lexeme.cut_doubleQuote, Lexeme.splitString_eq_some_iff.2 ⟨body, rfl, h, rfl⟩]
    rfl
  | @character body rest hline h =>
    refine ⟨'\'', body ++ '\'' :: rest, by rw [List.cons_append, List.append_assoc]; rfl, ?_⟩
    rw [Lexeme.cut_quote, Lexeme.splitCharacter_eq_some_iff.2 ⟨body, rfl, hline, h, rfl⟩]
  | @quote rest h =>
    refine ⟨'\'', rest, rfl, ?_⟩
    cases hsplit : Lexeme.splitCharacter rest with
    | none => rw [Lexeme.cut_quote, hsplit]
    | some p =>
      obtain ⟨body, -, hline, hfirst, hrest⟩ := Lexeme.splitCharacter_eq_some_iff.1 hsplit
      exact absurd hfirst (h body p.2 hrest hline)
  | @number c run rest hdigits hrest =>
    refine ⟨c, run ++ rest, rfl, ?_⟩
    have hc := hdigits c List.mem_cons_self
    obtain ⟨htake, hdrop⟩ :=
      takeWhile_run (fun d hd => hdigits d (List.mem_cons_of_mem c hd)) hrest
    rw [Lexeme.cut_plain (Lexeme.not_isSpecial_of_isDigit hc), if_pos hc, htake, hdrop]
  | @word _ c run rest hstart hrun hrest hkind =>
    refine ⟨c, run ++ rest, rfl, ?_⟩
    have hdigit := isDigit_eq_false_of_isWordStart hstart
    obtain ⟨htake, hdrop⟩ := takeWhile_run hrun hrest
    rw [Lexeme.cut_plain (Lexeme.not_isSpecial_of_isWordStart hstart),
      if_neg (by rw [hdigit]; decide), if_pos hstart, htake, hdrop,
      ← TokenKind.classified_keyword_iff.1 hkind]
  | @sign _ c rest h hkind =>
    refine ⟨c, rest, rfl, ?_⟩
    rw [TokenKind.classified_sign_iff.1 hkind]
    by_cases hspecial : Lexeme.IsSpecial c
    · simp only [Lexeme.IsSpecial, List.mem_cons, List.not_mem_nil, or_false] at hspecial
      rcases hspecial with rfl | rfl | rfl | rfl | rfl | rfl | rfl | rfl
      · exact absurd (by decide) h.plain
      · exact absurd (by decide) h.plain
      · exact absurd (by decide) h.plain
      · rw [Lexeme.cut_openBracket, if_neg (h.notOpen rfl)]
        rfl
      · rw [Lexeme.cut_closeBracket, if_neg (h.notClose rfl)]
        rfl
      · rw [Lexeme.cut_slash, if_neg (h.notComment rfl).1, if_neg (h.notComment rfl).2]
        rfl
      · exact absurd (by decide) h.plain
      · exact absurd (by decide) h.plain
    · rw [Lexeme.cut_plain hspecial, if_neg (by rw [h.notDigit]; decide),
        if_neg (by rw [h.notWord]; decide)]

/-- At most one piece starts a text. -/
theorem Piece.unique {kind kind' : TokenKind} {text text' rest rest' : List Char}
    (h : Piece kind text rest) (h' : Piece kind' text' rest')
    (htext : text ++ rest = text' ++ rest') :
    kind = kind' ∧ text = text' ∧ rest = rest' := by
  obtain ⟨c, cs, hfirst, hcut⟩ := h.cut_eq
  obtain ⟨d, ds, hfirst', hcut'⟩ := h'.cut_eq
  obtain ⟨rfl, rfl⟩ := List.cons.inj (hfirst.symm.trans (htext.trans hfirst'))
  rw [hcut, Option.some.injEq, Lexeme.mk.injEq] at hcut'
  exact hcut'

theorem piece_of_cut_slash {cs : List Char} {l : Lexeme} (h : Lexeme.cut '/' cs = some l) :
    Piece l.kind l.text l.rest := by
  rcases cs with _ | ⟨c, cs⟩
  · cases h
    refine .sign ⟨by decide, rfl, by decide, ?_, ?_, ?_⟩ (TokenKind.classified_sign_iff.2 rfl)
    · exact fun hc => absurd hc (by decide)
    · exact fun hc => absurd hc (by decide)
    · exact fun _ => ⟨Option.some_ne_none _ ∘ Eq.symm, Option.some_ne_none _ ∘ Eq.symm⟩
  by_cases hline : c = '/'
  · subst hline
    rw [Lexeme.cut_lineComment] at h
    cases h
    refine .lineComment (fun hmem => ?_) (endsRun_dropWhile _ _)
    exact absurd (List.all_eq_true.1 List.all_takeWhile _ hmem) (by decide)
  by_cases hblock : c = '*'
  · subst hblock
    rw [Lexeme.cut_blockComment] at h
    cases h
    rcases Lexeme.splitBlock_first cs with ⟨inside, rest, hfirst, -, hsplit⟩ | ⟨hopen, hsplit⟩
    · rw [hsplit]
      exact .blockComment hfirst
    · rw [hsplit]
      exact .openBlock hopen
  · have hnext : (c :: cs).head? ≠ some '/' ∧ (c :: cs).head? ≠ some '*' :=
      ⟨fun hc => hline (Option.some.inj hc), fun hc => hblock (Option.some.inj hc)⟩
    rw [Lexeme.cut_slash, if_neg hnext.1, if_neg hnext.2] at h
    cases h
    refine .sign ⟨by decide, rfl, by decide, ?_, ?_, fun _ => hnext⟩
      (TokenKind.classified_sign_iff.2 rfl)
    · exact fun hc => absurd hc (by decide)
    · exact fun hc => absurd hc (by decide)

/-- **What the cut gives is a piece.** -/
theorem piece_of_cut {c : Char} {cs : List Char} {l : Lexeme} (h : Lexeme.cut c cs = some l) :
    Piece l.kind l.text l.rest := by
  by_cases hspecial : Lexeme.IsSpecial c
  · simp only [Lexeme.IsSpecial, List.mem_cons, List.not_mem_nil, or_false] at hspecial
    rcases hspecial with rfl | rfl | rfl | rfl | rfl | rfl | rfl | rfl
    · rw [Lexeme.cut_blank (.inl rfl)] at h
      cases h
      exact .blank (.inl rfl)
    · rw [Lexeme.cut_blank (.inr rfl)] at h
      cases h
      exact .blank (.inr rfl)
    · rw [Lexeme.cut_lineEnd] at h
      cases h
      exact .lineEnd
    · rw [Lexeme.cut_openBracket] at h
      split at h
      next hopen =>
        cases h
        exact .attributeOpen
      next hopen =>
        cases h
        refine .sign ⟨by decide, rfl, by decide, fun _ => hopen, ?_, ?_⟩
          (TokenKind.classified_sign_iff.2 rfl)
        · exact fun hc => absurd hc (by decide)
        · exact fun hc => absurd hc (by decide)
    · rw [Lexeme.cut_closeBracket] at h
      split at h
      next hclose =>
        cases h
        exact .attributeClose
      next hclose =>
        cases h
        refine .sign ⟨by decide, rfl, by decide, ?_, fun _ => hclose, ?_⟩
          (TokenKind.classified_sign_iff.2 rfl)
        · exact fun hc => absurd hc (by decide)
        · exact fun hc => absurd hc (by decide)
    · exact piece_of_cut_slash h
    · rw [Lexeme.cut_doubleQuote] at h
      obtain ⟨p, hp, rfl⟩ := Option.map_eq_some_iff.1 h
      obtain ⟨body, htext, hfirst, -⟩ := Lexeme.splitString_eq_some_iff.1 hp
      rw [htext]
      exact .string hfirst
    · rw [Lexeme.cut_quote] at h
      split at h
      next p hp =>
        cases h
        obtain ⟨body, htext, hline, hfirst, -⟩ := Lexeme.splitCharacter_eq_some_iff.1 hp
        rw [htext]
        exact .character hline hfirst
      next hnone =>
        cases h
        refine .quote fun body after hrest hline hfirst => ?_
        rw [Lexeme.splitCharacter_eq_some_iff.2 ⟨body, rfl, hline, hfirst, hrest⟩] at hnone
        cases hnone
  · rw [Lexeme.cut_plain hspecial] at h
    split at h
    next hdigit =>
      cases h
      refine .number ?_ (endsRun_dropWhile _ _)
      exact List.forall_mem_cons.2 ⟨hdigit, List.all_eq_true.1 List.all_takeWhile⟩
    next hdigit =>
      split at h
      next hword =>
        cases h
        exact .word hword (List.all_eq_true.1 List.all_takeWhile) (endsRun_dropWhile _ _)
          (TokenKind.classified_keyword_iff.2 rfl)
      next hword =>
        cases h
        have hne : ∀ {d : Char}, d ∈ [' ', '\t', '\n', '[', ']', '/', '"', '\''] → c ≠ d :=
          fun hd hc => hspecial (hc ▸ hd)
        refine .sign ⟨?_, eq_false_of_ne_true hdigit, eq_false_of_ne_true hword, ?_, ?_, ?_⟩
          (TokenKind.classified_sign_iff.2 rfl)
        · intro hmem
          simp only [List.mem_cons, List.not_mem_nil, or_false] at hmem
          rcases hmem with hc | hc | hc | hc | hc <;> exact absurd hc (hne (by decide))
        · exact fun hc => absurd hc (hne (by decide))
        · exact fun hc => absurd hc (hne (by decide))
        · exact fun hc => absurd hc (hne (by decide))

/-! ## The lexer gives the cutting -/

/-- A token without its place. -/
def Token.piece (t : Token) : TokenKind × String := (t.kind, t.text)

/-- The cuttings of a text are what the cuts give when they come to its end. -/
theorem Lexer.cutting_iff_cuts (position : Position) (cs : List Char)
    (pieces : List (TokenKind × String)) :
    Cutting cs pieces ↔
      (cuts position cs).error = none ∧ (cuts position cs).tokens.map Token.piece = pieces := by
  fun_induction cuts position cs generalizing pieces with
  | case1 position =>
    constructor
    · intro h
      generalize htext : ([] : List Char) = text at h
      cases h with
      | done => exact ⟨rfl, rfl⟩
      | piece h hrest =>
        obtain ⟨c, cs, hfirst, -⟩ := h.cut_eq
        rw [← htext] at hfirst
        cases hfirst
    · rintro ⟨-, rfl⟩
      exact .done
  | case2 position c cs hcut =>
    constructor
    · intro h
      generalize htext : c :: cs = text at h
      cases h with
      | done => cases htext
      | piece h hrest =>
        obtain ⟨d, ds, hfirst, hpiece⟩ := h.cut_eq
        obtain ⟨rfl, rfl⟩ := List.cons.inj (htext.trans hfirst)
        rw [hcut] at hpiece
        cases hpiece
    · rintro ⟨herror, -⟩
      cases herror
  | case3 position c cs lexeme hcut more ih =>
    constructor
    · intro h
      generalize htext : c :: cs = text at h
      cases h with
      | done => cases htext
      | piece h hrest =>
        obtain ⟨d, ds, hfirst, hpiece⟩ := h.cut_eq
        obtain ⟨rfl, rfl⟩ := List.cons.inj (htext.trans hfirst)
        rw [hcut] at hpiece
        cases hpiece
        obtain ⟨hend, htokens⟩ := (ih _).1 hrest
        exact ⟨hend, congrArg _ htokens⟩
    · rintro ⟨hend, rfl⟩
      rw [← Lexeme.text_append_rest hcut]
      exact .piece (piece_of_cut hcut) ((ih _).2 ⟨hend, rfl⟩)

/-- **A text has tokens exactly if it can be cut into pieces.** -/
theorem exists_cutting_iff (text : String) :
    (∃ pieces, Cutting (Lexer.withoutReturns text.toList) pieces) ↔
      ∃ ts, tokenize text = .ok ts := by
  constructor
  · rintro ⟨pieces, h⟩
    obtain ⟨hend, -⟩ := (Lexer.cutting_iff_cuts {} _ pieces).1 h
    exact ⟨_, tokenize_eq_ok.2 ⟨hend, rfl⟩⟩
  · rintro ⟨ts, h⟩
    obtain ⟨hend, rfl⟩ := tokenize_eq_ok.1 h
    exact ⟨_, (Lexer.cutting_iff_cuts {} _ _).2 ⟨hend, rfl⟩⟩

/-- The tokens of a text are a way to cut it, and there is no other. -/
theorem cutting_iff_pieces {text : String} {ts : List Token} (h : tokenize text = .ok ts)
    (pieces : List (TokenKind × String)) :
    Cutting (Lexer.withoutReturns text.toList) pieces ↔ pieces = ts.map Token.piece := by
  obtain ⟨hend, rfl⟩ := tokenize_eq_ok.1 h
  exact ((Lexer.cutting_iff_cuts {} _ pieces).trans (and_iff_right hend)).trans eq_comm

/-! ## What literals stand for -/

theorem Token.unquote_quoted (body : List Char) : unquote ('"' :: (body ++ ['"'])) = body := by
  have hlast : (body ++ ['"']).getLast? = some '"' := List.getLast?_concat
  simp [unquote]

/-- A piece that is a string has a quote at each end. -/
theorem Piece.eq_quoted {kind : TokenKind} {text rest : List Char} (h : Piece kind text rest)
    (hkind : kind = .stringLiteral) :
    ∃ body, text = '"' :: (body ++ ['"']) ∧ IsFirstQuote '"' body := by
  cases h with
  | @string body rest h => exact ⟨body, rfl, h⟩
  | word hstart hrun hrest hclass =>
    subst hkind
    rcases hclass with hmem | ⟨hidentifier, -⟩
    · simp [TokenKind.keywords] at hmem
    · cases hidentifier
  | sign h hclass =>
    subst hkind
    rcases hclass with hmem | ⟨hidentifier, -⟩
    · simp [TokenKind.signs] at hmem
    · cases hidentifier
  | blank | lineEnd | attributeOpen | attributeClose | lineComment | blockComment | openBlock
  | character | quote | number => cases hkind

theorem Cutting.piece_of_mem {cs : List Char} {pieces : List (TokenKind × String)}
    (h : Cutting cs pieces) {p : TokenKind × String} (hp : p ∈ pieces) :
    ∃ rest, Piece p.1 p.2.toList rest := by
  induction h with
  | done => cases hp
  | @piece kind text rest pieces h hrest ih =>
    rcases List.mem_cons.1 hp with rfl | hmore
    · refine ⟨rest, ?_⟩
      rw [String.toList_ofList]
      exact h
    · exact ih hmore

/-- A string stands for what is between its quotes, anything else for its own characters. -/
theorem Token.value_of_piece {t : Token} {rest : List Char} (h : Piece t.kind t.text.toList rest) :
    if t.kind = .stringLiteral then
      t.text.toList = '"' :: (t.value.toList ++ ['"']) ∧ IsFirstQuote '"' t.value.toList
    else t.value = t.text := by
  split
  next hkind =>
    obtain ⟨body, htext, hbody⟩ := h.eq_quoted hkind
    have hvalue : t.value.toList = body := by
      rw [value, if_pos hkind, htext, unquote_quoted, String.toList_ofList]
    rw [hvalue]
    exact ⟨htext, hbody⟩
  next hkind => exact value_of_kind_ne hkind

/-- **The tokens of a text are the one way to cut it into pieces,** and a literal stands for what is
between its quotes. -/
theorem tokenize_cutting {text : String} {ts : List Token} (h : tokenize text = .ok ts) :
    Cutting (Lexer.withoutReturns text.toList) (ts.map Token.piece) ∧
      (∀ pieces, Cutting (Lexer.withoutReturns text.toList) pieces → pieces = ts.map Token.piece) ∧
      ∀ t ∈ ts,
        if t.kind = .stringLiteral then
          t.text.toList = '"' :: (t.value.toList ++ ['"']) ∧ IsFirstQuote '"' t.value.toList
        else t.value = t.text := by
  obtain ⟨hend, htokens⟩ := tokenize_eq_ok.1 h
  have hcutting : Cutting (Lexer.withoutReturns text.toList) (ts.map Token.piece) :=
    (Lexer.cutting_iff_cuts {} _ _).2 ⟨hend, congrArg _ htokens⟩
  refine ⟨hcutting, ?_, ?_⟩
  · intro pieces hpieces
    obtain ⟨-, rfl⟩ := (Lexer.cutting_iff_cuts {} _ pieces).1 hpieces
    rw [htokens]
  · intro t ht
    obtain ⟨rest, hpiece⟩ := hcutting.piece_of_mem (List.mem_map_of_mem ht)
    exact Token.value_of_piece hpiece

/-- A string with an escaped quote, a quote that starts no literal, a word that only starts like a
keyword and a comment without an end. -/
theorem tokenize_cutting_of_quotes :
    ∃ ts, tokenize "class class1\t\"a\\\"\"'b[[\r]//c\n'\\''/*/" = .ok ts ∧ ts.length = 13 ∧
      Cutting (Lexer.withoutReturns "class class1\t\"a\\\"\"'b[[\r]//c\n'\\''/*/".toList)
        (ts.map Token.piece) ∧
      (∀ pieces,
        Cutting (Lexer.withoutReturns "class class1\t\"a\\\"\"'b[[\r]//c\n'\\''/*/".toList) pieces →
          pieces = ts.map Token.piece) ∧
      ∀ t ∈ ts,
        if t.kind = .stringLiteral then
          t.text.toList = '"' :: (t.value.toList ++ ['"']) ∧ IsFirstQuote '"' t.value.toList
        else t.value = t.text := by
  have h : tokenize "class class1\t\"a\\\"\"'b[[\r]//c\n'\\''/*/" = .ok [
      ⟨.classKeyword, "class", ⟨0, 1, 1⟩⟩, ⟨.space, " ", ⟨5, 1, 6⟩⟩,
      ⟨.identifier, "class1", ⟨6, 1, 7⟩⟩, ⟨.space, "\t", ⟨12, 1, 13⟩⟩,
      ⟨.stringLiteral, "\"a\\\"\"", ⟨13, 1, 14⟩⟩, ⟨.identifier, "'", ⟨18, 1, 19⟩⟩,
      ⟨.identifier, "b", ⟨19, 1, 20⟩⟩, ⟨.attributeOpen, "[[", ⟨20, 1, 21⟩⟩,
      ⟨.closeBracket, "]", ⟨22, 1, 23⟩⟩, ⟨.comment, "//c", ⟨23, 1, 24⟩⟩,
      ⟨.lineEnd, "\n", ⟨26, 1, 27⟩⟩, ⟨.charLiteral, "'\\''", ⟨27, 2, 1⟩⟩,
      ⟨.comment, "/*/", ⟨31, 2, 5⟩⟩] := by
    rw [tokenize_eq_ok]
    decide +kernel
  exact ⟨_, h, rfl, tokenize_cutting h⟩

end HeaderReflection
