import HeaderReflection.Proofs.Tokens.Following
import HeaderReflection.Proofs.Tokens.Places

/-!
# Blanks for comments

Each comment of a text is replaced by one blank and as many line ends as it holds. A token before a
comment cannot tell. A blank ends a word or a number just as a slash does. A quote that starts no
literal looks for another quote on its line: a line end in the comment is one in the blanks too,
and the end of a comment is never the second half of an escape, so what comes after the comment is
looked at in the same way (`Blanked.closes`). Hence a text with blanks for comments looks the same
from every token that is no comment (`Blanked.looksLike`).
-/

namespace HeaderReflection

open Lexeme

/-- What stands in the place of a comment. -/
def commentBlank (text : List Char) : List Char := ' ' :: List.replicate (text.count '\n') '\n'

/-- The characters of several tokens, with blanks in the place of comments. -/
def Token.withoutComments (ts : List Token) : List Char :=
  ts.flatMap fun t =>
    if t.kind = .comment then commentBlank t.text.toList else t.text.toList

theorem Token.withoutComments_cons (t : Token) (ts : List Token) :
    withoutComments (t :: ts) =
      (if t.kind = .comment then commentBlank t.text.toList else t.text.toList) ++
        withoutComments ts := rfl

/-- The line ends of a comment are kept. -/
theorem count_commentBlank (text : List Char) :
    (commentBlank text).count '\n' = text.count '\n' := by
  rw [commentBlank, List.count_cons_of_ne (by decide), List.count_replicate_self]

theorem eq_blank_of_mem_commentBlank {text : List Char} {c : Char} (h : c ∈ commentBlank text) :
    c = ' ' ∨ c = '\n' := by
  rcases List.mem_cons.1 h with rfl | hline
  · exact .inl rfl
  · exact .inr (List.eq_of_mem_replicate hline)

/-- Every character is a blank, a line end or one of the characters of the tokens. -/
theorem Token.mem_withoutComments {c : Char} {ts : List Token} (h : c ∈ withoutComments ts) :
    c = ' ' ∨ c = '\n' ∨ c ∈ characters ts := by
  rw [withoutComments, List.mem_flatMap] at h
  obtain ⟨t, ht, hc⟩ := h
  split at hc
  next => exact (eq_blank_of_mem_commentBlank hc).elim .inl fun hline => .inr (.inl hline)
  next => exact .inr (.inr (List.mem_flatMap.2 ⟨t, ht, hc⟩))

/-- The second text is the first with blanks for some of its comments: closed ones, and those that
go on to the end of a line or of the text. -/
inductive Blanked : List Char → List Char → Prop
  | nil : Blanked [] []
  | keep (c : Char) {before after : List Char} (h : Blanked before after) :
    Blanked (c :: before) (c :: after)
  | closed (inside : List Char) {before after : List Char} (h : Blanked before after) :
    Blanked (inside ++ '*' :: '/' :: before) (commentBlank (inside ++ ['*', '/']) ++ after)
  | toLineEnd (text : List Char) {before after : List Char} (h : Blanked before after)
    (hafter : ∀ c ∈ after.head?, c = '\n') : Blanked (text ++ before) (commentBlank text ++ after)

theorem Blanked.keep_append (text : List Char) {before after : List Char}
    (h : Blanked before after) : Blanked (text ++ before) (text ++ after) := by
  induction text with
  | nil => exact h
  | cons c text ih => exact .keep c ih

/-! ## Quotes that are closed on their line -/

/-- Whether a quote before this text starts a character literal. -/
def Closes (cs : List Char) : Prop := (splitCharacter cs).isSome

theorem not_closes_nil : ¬Closes [] := by simp [Closes, splitCharacter]

theorem not_closes_lineEnd (cs : List Char) : ¬Closes ('\n' :: cs) := by
  simp [Closes, splitCharacter]

theorem closes_quote (cs : List Char) : Closes ('\'' :: cs) := by simp [Closes, splitCharacter]

theorem not_closes_escape_lineEnd (cs : List Char) : ¬Closes ('\\' :: '\n' :: cs) := by
  simp [Closes, splitCharacter]

theorem closes_escape {c : Char} (hc : c ≠ '\n') (cs : List Char) :
    Closes ('\\' :: c :: cs) ↔ Closes cs := by
  simp [Closes, splitCharacter, hc]

theorem closes_cons {c : Char} (hline : c ≠ '\n') (hquote : c ≠ '\'') (hescape : c ≠ '\\')
    (cs : List Char) : Closes (c :: cs) ↔ Closes cs := by
  rw [Closes, Closes, splitCharacter, Option.isSome_map]
  · exact hline
  · exact hquote
  · exact fun _ _ h _ => hescape h

/-- One more character that ends no line is a quote, or it is looked past. -/
theorem closes_cons_iff {c : Char} (hline : c ≠ '\n') (cs : List Char) :
    Closes (c :: cs) ↔ c = '\'' ∨ if c = '\\' then Closes ('\\' :: cs) else Closes cs := by
  by_cases hquote : c = '\''
  · subst hquote
    exact ⟨fun _ => .inl rfl, fun _ => closes_quote cs⟩
  · rw [or_iff_right hquote]
    by_cases hescape : c = '\\'
    · rw [if_pos hescape, hescape]
    · rw [if_neg hescape, closes_cons hline hquote hescape]

/-- A quote before this text starts a character literal, also if an escape sign stands between. -/
structure ClosesAnyway (cs : List Char) : Prop where
  plain : Closes cs
  escaped : Closes ('\\' :: cs)

theorem ClosesAnyway.cons {c : Char} {cs : List Char} (hc : c ≠ '\n') (h : ClosesAnyway cs) :
    ClosesAnyway (c :: cs) := by
  refine ⟨(closes_cons_iff hc cs).2 (.inr ?_), (closes_escape hc cs).2 h.plain⟩
  split
  next => exact h.escaped
  next => exact h.plain

theorem ClosesAnyway.append {text cs : List Char} (hline : '\n' ∉ text) (h : ClosesAnyway cs) :
    ClosesAnyway (text ++ cs) := by
  induction text with
  | nil => exact h
  | cons c text ih =>
    rw [List.mem_cons, not_or] at hline
    exact (ih hline.2).cons (Ne.symm hline.1)

/-- The end of a comment stands between an escape sign and the text. -/
theorem closesAnyway_of_closes {cs : List Char} (h : Closes cs) :
    ClosesAnyway ('*' :: '/' :: cs) := by
  have hslash : Closes ('/' :: cs) :=
    (closes_cons (by decide) (by decide) (by decide) cs).2 h
  exact ⟨(closes_cons (by decide) (by decide) (by decide) _).2 hslash,
    (closes_escape (by decide) _).2 hslash⟩

/-- If the blanks for a comment close a quote, then not themselves, and they hold no line end. -/
theorem closes_commentBlank {text cs : List Char} (h : Closes (commentBlank text ++ cs)) :
    '\n' ∉ text ∧ Closes cs := by
  rw [commentBlank, List.cons_append,
    closes_cons (by decide) (by decide) (by decide)] at h
  cases hcount : text.count '\n' with
  | zero =>
    rw [hcount] at h
    exact ⟨List.count_eq_zero.1 hcount, h⟩
  | succ n =>
    rw [hcount] at h
    exact absurd h (not_closes_lineEnd _)

theorem closes_escape_commentBlank {text cs : List Char}
    (h : Closes ('\\' :: (commentBlank text ++ cs))) : Closes (commentBlank text ++ cs) := by
  rw [commentBlank, List.cons_append, closes_escape (by decide)] at h
  rw [commentBlank, List.cons_append]
  exact (closes_cons (by decide) (by decide) (by decide) _).2 h

theorem not_closes_of_lineEnd {cs : List Char} (h : ∀ c ∈ cs.head?, c = '\n') : ¬Closes cs := by
  cases cs with
  | nil => exact not_closes_nil
  | cons c cs => exact h c rfl ▸ not_closes_lineEnd cs

/-- **Blanks for comments close no quote** that was not closed before. -/
theorem Blanked.closes {before after : List Char} (h : Blanked before after) :
    (Closes after → Closes before) ∧ (Closes ('\\' :: after) → Closes ('\\' :: before)) := by
  -- an escape sign is looked past together with the next sign, so both are shown at once
  induction h with
  | nil => exact ⟨id, id⟩
  | @keep c before after _ ih =>
    by_cases hline : c = '\n'
    · subst hline
      exact ⟨fun h => absurd h (not_closes_lineEnd _),
        fun h => absurd h (not_closes_escape_lineEnd _)⟩
    · rw [closes_escape hline, closes_escape hline, closes_cons_iff hline, closes_cons_iff hline]
      refine ⟨Or.imp_right fun h => ?_, ih.1⟩
      by_cases hescape : c = '\\'
      · rw [if_pos hescape] at h ⊢
        exact ih.2 h
      · rw [if_neg hescape] at h ⊢
        exact ih.1 h
  | @closed inside before after _ ih =>
    have hboth (h : Closes (commentBlank (inside ++ ['*', '/']) ++ after)) :
        ClosesAnyway (inside ++ '*' :: '/' :: before) := by
      obtain ⟨hline, hclosed⟩ := closes_commentBlank h
      rw [List.mem_append, not_or] at hline
      exact (closesAnyway_of_closes (ih.1 hclosed)).append hline.1
    exact ⟨fun h => (hboth h).plain, fun h => (hboth (closes_escape_commentBlank h)).escaped⟩
  | @toLineEnd text before after _ hafter ih =>
    have hnone (h : Closes (commentBlank text ++ after)) : False :=
      not_closes_of_lineEnd hafter (closes_commentBlank h).2
    exact ⟨fun h => (hnone h).elim, fun h => (hnone (closes_escape_commentBlank h)).elim⟩

/-- To a token that is no comment, a text with blanks for comments looks like the text itself. -/
theorem Blanked.looksLike {before after : List Char} (h : Blanked before after) :
    LooksLike before after := by
  refine ⟨?_, fun hnone => ?_⟩
  · cases h with
    | nil => exact .inl rfl
    | keep => exact .inl rfl
    | closed =>
      refine .inr fun c hc => .inl ?_
      cases hc
      rfl
    | toLineEnd =>
      refine .inr fun c hc => .inl ?_
      cases hc
      rfl
  · have hbefore : ¬Closes before := by simp [Closes, hnone]
    have hafter : ¬Closes after := fun hclosed => hbefore (h.closes.1 hclosed)
    simpa [Closes] using hafter

/-! ## Cutting a text with blanks -/

/-- A sign is no trivia. -/
theorem TokenKind.isTrivia_ofSign (c : Char) : (TokenKind.ofSign c).isTrivia = false := by
  unfold TokenKind.ofSign
  split <;> rfl

/-- A word is no trivia, be it a keyword or not. -/
theorem TokenKind.isTrivia_word (word : List Char) :
    ((TokenKind.keyword? word).getD .identifier).isTrivia = false := by
  unfold TokenKind.keyword?
  split <;> rfl

/-- A block comment is closed or the last token of its text. -/
theorem splitBlock_closed (cs : List Char) :
    (∃ inside, (splitBlock cs).1 = inside ++ ['*', '/']) ∨ (splitBlock cs).2 = [] := by
  fun_induction splitBlock cs with
  | case1 => exact .inr rfl
  | case2 cs => exact .inl ⟨[], rfl⟩
  | case3 c cs _ ih =>
    rcases ih with ⟨inside, hinside⟩ | hend
    · exact .inl ⟨c :: inside, by rw [hinside, List.cons_append]⟩
    · exact .inr hend

/-- A comment starts with a slash. -/
theorem Lexeme.eq_slash_of_comment {c : Char} {cs : List Char} {l : Lexeme} (h : cut c cs = some l)
    (hcomment : l.kind = .comment) : c = '/' := by
  by_cases hspecial : IsSpecial c
  · simp only [IsSpecial, List.mem_cons, List.not_mem_nil, or_false] at hspecial
    rcases hspecial with rfl | rfl | rfl | rfl | rfl | rfl | rfl | rfl
    · rw [cut_blank (.inl rfl)] at h; cases h; cases hcomment
    · rw [cut_blank (.inr rfl)] at h; cases h; cases hcomment
    · rw [cut_lineEnd] at h; cases h; cases hcomment
    · rw [cut_openBracket] at h; split at h <;> cases h <;> cases hcomment
    · rw [cut_closeBracket] at h; split at h <;> cases h <;> cases hcomment
    · rfl
    · rw [cut_doubleQuote] at h
      obtain ⟨p, -, rfl⟩ := Option.map_eq_some_iff.1 h
      cases hcomment
    · rw [cut_quote] at h; split at h <;> cases h <;> cases hcomment
  · have hkind : l.kind.isTrivia = false := by
      rw [cut_plain hspecial] at h
      split at h
      next => cases h; rfl
      next =>
        split at h
        next => cases h; exact TokenKind.isTrivia_word _
        next => cases h; exact TokenKind.isTrivia_ofSign c
    rw [hcomment] at hkind
    cases hkind

/-- A comment is closed, or the line or the text ends after it. -/
theorem Lexeme.comment_closed {c : Char} {cs : List Char} {l : Lexeme} (h : cut c cs = some l)
    (hcomment : l.kind = .comment) :
    (∃ inside, l.text = inside ++ ['*', '/']) ∨ ∀ c ∈ l.rest.head?, c = '\n' := by
  cases eq_slash_of_comment h hcomment
  rw [cut_slash] at h
  split at h
  next =>
    cases h
    refine .inr fun c hc => ?_
    have hnot := List.head?_dropWhile_not (fun c => decide (c ≠ '\n')) cs
    rw [Option.mem_def.1 hc] at hnot
    simpa using hnot
  next =>
    split at h
    next =>
      cases h
      rcases splitBlock_closed cs.tail with ⟨inside, hinside⟩ | hend
      · exact .inl ⟨'/' :: '*' :: inside, by rw [hinside]; rfl⟩
      · refine .inr fun c hc => ?_
        rw [hend] at hc
        cases hc
    next => cases h; cases hcomment

namespace Lexer

theorem cuts_of_cut_some {position : Position} {c : Char} {cs : List Char} {l : Lexeme}
    (h : Lexeme.cut c cs = some l) :
    cuts position (c :: cs) =
      { cuts (position.advance l.text) l.rest with
        tokens := ⟨l.kind, .ofList l.text, position⟩ ::
          (cuts (position.advance l.text) l.rest).tokens } := by
  rw [← run_eq_cuts, run_of_cut_some h, run_eq_cuts]

/-- A token that is no comment is cut off again before something that looks the same. -/
theorem cuts_replace {position : Position} {c : Char} {cs after : List Char} {l : Lexeme}
    (h : Lexeme.cut c cs = some l) (hcomment : l.kind ≠ .comment)
    (hafter : LooksLike l.rest after) :
    cuts position (l.text ++ after) =
      { cuts (position.advance l.text) after with
        tokens := ⟨l.kind, .ofList l.text, position⟩ ::
          (cuts (position.advance l.text) after).tokens } := by
  have hcuts := @cuts_of_cut_some position _ _ _ (cut_replace h hcomment hafter)
  rw [← List.cons_append, cons_tail_text h] at hcuts
  exact hcuts

/-- Where a line or the text ends, it ends with blanks for comments too. -/
theorem head?_withoutComments_cuts {position : Position} {cs : List Char}
    (h : ∀ c ∈ cs.head?, c = '\n') :
    ∀ c ∈ (Token.withoutComments (cuts position cs).tokens).head?, c = '\n' := by
  cases cs with
  | nil =>
    rw [cuts]
    exact fun c hc => by cases hc
  | cons c cs =>
    cases h c rfl
    rw [cuts_of_cut_some (cut_lineEnd cs), Token.withoutComments_cons, String.toList_ofList]
    intro d hd
    exact (Option.some.inj hd).symm

/-- Blanks for the comments among the tokens of a text are blanks for comments of the text. -/
theorem blanked_cuts {position : Position} {cs : List Char}
    (h : (cuts position cs).error = none) :
    Blanked cs (Token.withoutComments (cuts position cs).tokens) := by
  fun_induction cuts position cs with
  | case1 position => exact .nil
  | case2 position c cs hcut => cases h
  | case3 position c cs l hcut more ih =>
    rw [Token.withoutComments_cons, String.toList_ofList, ← Lexeme.text_append_rest hcut]
    split
    next hcomment =>
      rcases Lexeme.comment_closed hcut hcomment with ⟨inside, hinside⟩ | hend
      · rw [hinside, List.append_assoc]
        exact .closed inside (ih h)
      · exact .toLineEnd l.text (ih h) (head?_withoutComments_cuts hend)
    next => exact (ih h).keep_append l.text

end Lexer

end HeaderReflection
