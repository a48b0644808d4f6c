import HeaderReflection.Proofs.TypeText.Spacing
import Mathlib.Data.List.Chain

/-!
# The text of a type has the tokens of the type

The blanks in the text of a type keep apart what would be one token if it touched: words and
numbers. Brackets and slashes may merge all the same, but for these the text of a type is cut into
its tokens again (`TypeName.text_relexes`). A token of its own (`Token.IsSingle`) is cut off
whatever follows it as long as this is no such neighbour (`Piece.followed`).
-/

namespace HeaderReflection

/-! ## Tokens of their own -/

/-- The token is what its text alone is cut into, and it is no trivia. -/
structure Token.IsSingle (t : Token) : Prop where
  significant : t.kind.isTrivia = false
  alone : (tokenize t.text).map (List.map Token.piece) = .ok [t.piece]

instance (t : Token) : Decidable t.IsSingle :=
  decidable_of_iff
    (t.kind.isTrivia = false ∧ (tokenize t.text).map (List.map Token.piece) = .ok [t.piece])
    ⟨fun h => ⟨h.1, h.2⟩, fun h => ⟨h.significant, h.alone⟩⟩

/-- The first token, if it does not end in a word, can stand directly before the second: they are no
two brackets and no start of a comment. -/
structure Token.Separable (a b : Token) : Prop where
  openBracket : a.text = "[" → b.text ≠ "[" ∧ b.text ≠ "[["
  closeBracket : a.text = "]" → b.text ≠ "]" ∧ b.text ≠ "]]"
  slash : a.text = "/" → b.text ≠ "/" ∧ b.text ≠ "*"

instance (a b : Token) : Decidable (a.Separable b) :=
  decidable_of_iff
    ((a.text = "[" → b.text ≠ "[" ∧ b.text ≠ "[[") ∧ (a.text = "]" → b.text ≠ "]" ∧ b.text ≠ "]]") ∧
      (a.text = "/" → b.text ≠ "/" ∧ b.text ≠ "*"))
    ⟨fun h => ⟨h.1, h.2.1, h.2.2⟩, fun h => ⟨h.openBracket, h.closeBracket, h.slash⟩⟩

theorem Cutting.eq_nil_of_nil {cs : List Char} (h : Cutting cs []) : cs = [] := by
  cases h
  rfl

theorem Cutting.piece_of_singleton {cs : List Char} {p : TokenKind × String} (h : Cutting cs [p]) :
    cs = p.2.toList ∧ Piece p.1 p.2.toList [] := by
  cases h with
  | @piece kind text rest _ h hrest =>
    obtain rfl := hrest.eq_nil_of_nil
    rw [String.toList_ofList, List.append_nil]
    exact ⟨rfl, h⟩

namespace Token

variable {t : Token}

/-- A token of its own is a piece, and has no carriage returns. -/
theorem IsSingle.piece_nil (h : t.IsSingle) :
    Piece t.kind t.text.toList [] ∧ Lexer.withoutReturns t.text.toList = t.text.toList := by
  have halone := h.alone
  cases htokens : tokenize t.text with
  | error e =>
    rw [htokens] at halone
    cases halone
  | ok us =>
    rw [htokens] at halone
    have hus : us.map piece = [t.piece] := Except.ok.inj halone
    have hcutting := (cutting_iff_pieces htokens _).2 hus.symm
    obtain ⟨htext, hpiece⟩ := hcutting.piece_of_singleton
    exact ⟨hpiece, htext⟩

/-- A piece that is no trivia is a token of its own, if it has no carriage returns. -/
theorem isSingle_of_piece (hkind : t.kind.isTrivia = false)
    (hreturns : Lexer.withoutReturns t.text.toList = t.text.toList)
    (h : Piece t.kind t.text.toList []) : t.IsSingle := by
  have hcutting := Cutting.piece h .done
  rw [List.append_nil, String.ofList_toList, ← hreturns] at hcutting
  obtain ⟨us, htokens⟩ := (exists_cutting_iff t.text).1 ⟨_, hcutting⟩
  refine ⟨hkind, ?_⟩
  rw [htokens]
  exact congrArg Except.ok ((cutting_iff_pieces htokens _).1 hcutting).symm

end Token

theorem Token.IsSingle.text_ne_empty {t : Token} (h : t.IsSingle) : t.text ≠ "" :=
  fun hempty => h.piece_nil.1.text_ne_nil (String.toList_eq_nil_iff.2 hempty)

/-! ## What may follow a piece -/

/-- What comes next lets a piece end here: it does not go on with its word and makes no longer piece
of a bracket or a slash. -/
structure LetsEnd (text rest : List Char) : Prop where
  word : TypeName.endsInWord text = true → EndsRun isWordChar rest
  openBracket : text = ['['] → rest.head? ≠ some '['
  closeBracket : text = [']'] → rest.head? ≠ some ']'
  slash : text = ['/'] → rest.head? ≠ some '/' ∧ rest.head? ≠ some '*'

/-- **A piece that is no trivia and no lone quote stays one**, whatever comes next that lets it end
there. -/
theorem Piece.followed {kind : TokenKind} {text rest : List Char} (h : Piece kind text [])
    (hkind : kind.isTrivia = false) (hquote : text ≠ ['\'']) (hrest : LetsEnd text rest) :
    Piece kind text rest := by
  cases h with
  | blank | lineEnd | lineComment | blockComment | openBlock => cases hkind
  | attributeOpen => exact .attributeOpen
  | attributeClose => exact .attributeClose
  | string h => exact .string h
  | character hline h => exact .character hline h
  | quote => exact absurd rfl hquote
  | @number c run _ hdigits _ =>
    have hend : TypeName.endsInWord (c :: run) = true :=
      TypeName.endsInWord_of_forall (List.cons_ne_nil c run) fun d hd =>
        isWordChar_of_isDigit (hdigits d hd)
    refine .number hdigits fun d hd => ?_
    rw [← Bool.not_eq_true]
    intro hdigit
    exact Bool.eq_false_iff.1 (hrest.word hend d hd) (isWordChar_of_isDigit hdigit)
  | @word _ c run _ hstart hrun _ hclass =>
    have hend : TypeName.endsInWord (c :: run) = true :=
      TypeName.endsInWord_of_forall (List.cons_ne_nil c run)
        (List.forall_mem_cons.2 ⟨isWordChar_of_isWordStart hstart, hrun⟩)
    exact .word hstart hrun (hrest.word hend) hclass
  | @sign _ c _ h hclass =>
    refine .sign ⟨h.plain, h.notDigit, h.notWord, ?_, ?_, ?_⟩ hclass
    · rintro rfl
      exact hrest.openBracket rfl
    · rintro rfl
      exact hrest.closeBracket rfl
    · rintro rfl
      exact hrest.slash rfl

/-- A piece that is no trivia and starts with a bracket, a slash or a star is that sign, or the
bracket twice. -/
theorem Piece.eq_of_head {kind : TokenKind} {c : Char} {text rest : List Char}
    (h : Piece kind text rest) (hkind : kind.isTrivia = false) (hhead : text.head? = some c)
    (hc : c ∈ ['[', ']', '/', '*']) :
    text = [c] ∨ (c = '[' ∨ c = ']') ∧ text = [c, c] := by
  have hplain : c.isDigit = false ∧ isWordStart c = false ∧ c ≠ '"' ∧ c ≠ '\'' := by
    simp only [List.mem_cons, List.not_mem_nil, or_false] at hc
    rcases hc with rfl | rfl | rfl | rfl <;> decide
  obtain ⟨hdigit, hword, hstring, hcharacter⟩ := hplain
  cases h with
  | blank | lineEnd | lineComment | blockComment | openBlock => cases hkind
  | attributeOpen =>
    cases hhead
    exact .inr ⟨.inl rfl, rfl⟩
  | attributeClose =>
    cases hhead
    exact .inr ⟨.inr rfl, rfl⟩
  | string h =>
    cases hhead
    exact absurd rfl hstring
  | character hline h =>
    cases hhead
    exact absurd rfl hcharacter
  | quote =>
    cases hhead
    exact absurd rfl hcharacter
  | number hdigits _ =>
    cases hhead
    rw [hdigits c List.mem_cons_self] at hdigit
    cases hdigit
  | word hstart _ _ _ =>
    cases hhead
    rw [hstart] at hword
    cases hword
  | sign h _ =>
    cases hhead
    exact .inl rfl

/-! ## Tokens in a row -/

namespace Token

/-- The first character of the text of several tokens is that of the first of them. -/
theorem head?_spaced {t : Token} (h : t.text ≠ "") (ts : List Token) :
    (spaced (t :: ts)).head? = t.text.toList.head? := by
  rw [spaced, List.head?_append_of_ne_nil _ (toList_text_ne_nil h)]

theorem text_eq_ofList {t : Token} {cs : List Char} (h : t.text.toList = cs) :
    t.text = String.ofList cs := by
  rw [← h, String.ofList_toList]

/-- A token of its own that is not a certain bracket, slash or star, nor the bracket twice, does not
start with it. -/
theorem IsSingle.head?_ne {t : Token} (h : t.IsSingle) {c : Char} (hc : c ∈ ['[', ']', '/', '*'])
    (hone : t.text ≠ String.ofList [c])
    (htwo : c = '[' ∨ c = ']' → t.text ≠ String.ofList [c, c]) : t.text.toList.head? ≠ some c := by
  intro hhead
  rcases h.piece_nil.1.eq_of_head h.significant hhead hc with htext | ⟨hbracket, htext⟩
  · exact hone (text_eq_ofList htext)
  · exact htwo hbracket (text_eq_ofList htext)

/-- A token lets the one before it end if they can stand side by side and are not both words. -/
theorem letsEnd_of_separable {t u : Token} {rest : List Char} (hu : u.IsSingle)
    (hjoint : t.Separable u) (hword : TypeName.endsInWord t.text.toList = true → u.isWord = false)
    (hrest : rest.head? = u.text.toList.head?) : LetsEnd t.text.toList rest := by
  refine ⟨fun hend c hc => ?_, fun hopen => ?_, fun hclose => ?_, fun hslash => ?_⟩
  · have hnext := hword hend
    rw [isWord, ← hrest, Option.mem_def.1 hc] at hnext
    exact hnext
  · obtain ⟨hone, htwo⟩ := hjoint.openBracket (text_eq_ofList hopen)
    rw [hrest]
    exact hu.head?_ne (by decide) hone fun _ => htwo
  · obtain ⟨hone, htwo⟩ := hjoint.closeBracket (text_eq_ofList hclose)
    rw [hrest]
    exact hu.head?_ne (by decide) hone fun _ => htwo
  · obtain ⟨hline, hblock⟩ := hjoint.slash (text_eq_ofList hslash)
    rw [hrest]
    refine ⟨hu.head?_ne (by decide) hline ?_, hu.head?_ne (by decide) hblock ?_⟩
    · exact fun hbracket => absurd hbracket (by decide)
    · exact fun hbracket => absurd hbracket (by decide)

theorem letsEnd_blank (text rest : List Char) : LetsEnd text (' ' :: rest) := by
  refine ⟨fun _ c hc => ?_, ?_, ?_, ?_⟩
  · cases hc
    decide
  all_goals simp

theorem letsEnd_nil (text : List Char) : LetsEnd text [] := by
  refine ⟨fun _ c hc => ?_, ?_, ?_, ?_⟩
  · cases hc
  all_goals simp

/-- What follows a token in the text of a type lets it end. -/
theorem letsEnd_spaced {t : Token} {ts : List Token} (hts : ∀ u ∈ ts, u.IsSingle)
    (hjoint : ∀ u ∈ ts.head?, t.Separable u) :
    LetsEnd t.text.toList ((if t.blankBefore ts then [' '] else []) ++ spaced ts) := by
  by_cases hblank : t.blankBefore ts = true
  · rw [if_pos hblank]
    exact letsEnd_blank _ _
  · rw [if_neg hblank, List.nil_append]
    cases ts with
    | nil => exact letsEnd_nil _
    | cons u ts =>
      have hu := hts u List.mem_cons_self
      refine letsEnd_of_separable hu (hjoint u rfl) (fun hend => ?_)
        (head?_spaced hu.text_ne_empty ts)
      rw [← Bool.not_eq_true]
      intro hword
      refine hblank ?_
      simp [blankBefore, hend, hword]

/-- **Tokens in a row are cut off again**, with trivia between them for the blanks. -/
theorem cutting_spaced {ts : List Token} (hts : ∀ t ∈ ts, t.IsSingle)
    (hquote : ∀ t ∈ ts, t.text ≠ "'") (hjoints : ts.IsChain Separable) :
    ∃ pieces, Cutting (spaced ts) pieces ∧
      pieces.filter (fun p => !p.1.isTrivia) = ts.map piece := by
  induction ts with
  | nil => exact ⟨[], .done, rfl⟩
  | cons t ts ih =>
    obtain ⟨ht, hmore⟩ := List.forall_mem_cons.1 hts
    obtain ⟨hlone, hquotes⟩ := List.forall_mem_cons.1 hquote
    obtain ⟨hjoint, hjoints⟩ := List.isChain_cons.1 hjoints
    obtain ⟨pieces, hcutting, hpieces⟩ := ih hmore hquotes hjoints
    have hpiece := ht.piece_nil.1.followed ht.significant (fun h => hlone (String.toList_inj.1 h))
      (letsEnd_spaced hmore hjoint)
    have hrest : ∃ rest,
        Cutting ((if t.blankBefore ts then [' '] else []) ++ spaced ts) rest ∧
          rest.filter (fun p => !p.1.isTrivia) = ts.map piece := by
      by_cases hblank : t.blankBefore ts = true
      · rw [if_pos hblank]
        exact ⟨_, .piece (.blank (.inl rfl)) hcutting, hpieces⟩
      · rw [if_neg hblank]
        exact ⟨pieces, hcutting, hpieces⟩
    obtain ⟨rest, hrest, hsignificant⟩ := hrest
    refine ⟨t.piece :: rest, ?_, ?_⟩
    · have hwhole := Cutting.piece hpiece hrest
      rw [String.ofList_toList] at hwhole
      exact hwhole
    · have hkeep : t.piece.1.isTrivia = false := ht.significant
      rw [List.filter_cons, hkeep, hsignificant]
      rfl

/-- The text of tokens of their own has no carriage returns. -/
theorem withoutReturns_spaced {ts : List Token} (hts : ∀ t ∈ ts, t.IsSingle) :
    Lexer.withoutReturns (spaced ts) = spaced ts := by
  induction ts with
  | nil => rfl
  | cons t ts ih =>
    obtain ⟨ht, hmore⟩ := List.forall_mem_cons.1 hts
    have htext : t.text.toList.filter (· ≠ '\r') = t.text.toList := ht.piece_nil.2
    have htail : (spaced ts).filter (· ≠ '\r') = spaced ts := ih hmore
    rw [spaced, Lexer.withoutReturns, List.filter_append, List.filter_append, htext, htail]
    split <;> rfl

end Token

/-! ## Types -/

/-- A name as tokens, with two colons between each two parts. -/
def QualifiedName.written (name : QualifiedName) : List Token :=
  [⟨.colon, ":", {}⟩, ⟨.colon, ":", {}⟩].intercalate (name.parts.map fun l => [l.token])

/-- A type as tokens. -/
def TypeName.written (type : TypeName) : List Token := type.head.written ++ type.suffix

namespace QualifiedName

theorem written_cons (l : Literal) (ls : List Literal) :
    written ⟨l :: ls⟩ =
      l.token :: ls.flatMap fun l => [⟨.colon, ":", {}⟩, ⟨.colon, ":", {}⟩, l.token] := by
  induction ls generalizing l with
  | nil => rfl
  | cons next ls ih =>
    rw [List.flatMap_cons, written, List.map_cons, List.map_cons, List.intercalate_cons_cons]
    have hmore := ih next
    rw [written, List.map_cons] at hmore
    rw [hmore]
    rfl

theorem spelledParts_written (ls : List Literal) :
    SpelledParts ls (ls.flatMap fun l => [⟨.colon, ":", {}⟩, ⟨.colon, ":", {}⟩, l.token]) := by
  induction ls with
  | nil => exact .nil
  | cons l ls ih => exact .cons ⟨rfl, rfl⟩ ⟨rfl, rfl⟩ ih

/-- A name with parts is spelled as it is written. -/
theorem spelled_written {name : QualifiedName} (h : name.parts ≠ []) :
    name.Spelled name.written := by
  obtain ⟨parts⟩ := name
  cases parts with
  | nil => exact absurd rfl h
  | cons l ls =>
    rw [written_cons]
    exact .mk (spelledParts_written ls)

/-- A name is written with its parts and with colons. -/
theorem mem_written {name : QualifiedName} {t : Token} (h : t ∈ name.written) :
    t = ⟨.colon, ":", {}⟩ ∨ ∃ l ∈ name.parts, l.token = t := by
  obtain ⟨parts⟩ := name
  cases parts with
  | nil => cases h
  | cons l ls =>
    rw [written_cons] at h
    rcases List.mem_cons.1 h with rfl | h
    · exact .inr ⟨l, List.mem_cons_self, rfl⟩
    · obtain ⟨next, hnext, h⟩ := List.mem_flatMap.1 h
      simp only [List.mem_cons, List.not_mem_nil, or_false] at h
      rcases h with rfl | rfl | rfl
      · exact .inl rfl
      · exact .inl rfl
      · exact .inr ⟨next, List.mem_cons_of_mem l hnext, rfl⟩

end QualifiedName

/-- The text of a type is what is written, with the blanks between the tokens. -/
theorem TypeName.text_eq_spaced {type : TypeName}
    (hhead : ∀ l ∈ type.head.parts, l.token.IsNamePart) (h : ∀ t ∈ type.written, t.text ≠ "") :
    type.text = String.ofList (Token.spaced type.written) := by
  by_cases hparts : type.head.parts = []
  · obtain ⟨⟨parts⟩, suffix⟩ := type
    obtain rfl : parts = [] := hparts
    have hsuffix := foldl_addToken h []
    rw [text]
    exact congrArg String.ofList hsuffix
  · exact text_of_holds ⟨_, QualifiedName.spelled_written hparts, rfl⟩ hhead h

theorem Token.isSingle_colon : IsSingle ⟨.colon, ":", {}⟩ := by
  refine isSingle_of_piece rfl rfl
    (.sign ⟨by decide, rfl, by decide, ?_, ?_, ?_⟩ (.inl (by decide)))
  all_goals exact fun hc => absurd hc (by decide)

/-- **Lexing the text of a type gives the tokens of the type back.** -/
theorem TypeName.text_relexes {type : TypeName}
    (hhead : ∀ l ∈ type.head.parts, l.token.kind = .identifier ∧ l.token.IsSingle)
    (hsuffix : ∀ t ∈ type.suffix, t.IsSingle) (hjoints : type.written.IsChain Token.Separable)
    (hquote : ∀ t ∈ type.written, t.text ≠ "'") :
    ∃ ts, tokenize type.text = .ok ts ∧
      (Token.significant ts).map Token.piece = type.written.map Token.piece := by
  have hsingle : ∀ t ∈ type.written, t.IsSingle := by
    intro t ht
    rcases List.mem_append.1 ht with hname | hmore
    · rcases QualifiedName.mem_written hname with rfl | ⟨l, hl, rfl⟩
      · exact Token.isSingle_colon
      · exact (hhead l hl).2
    · exact hsuffix t hmore
  have htext := text_eq_spaced (fun l hl => .inl (hhead l hl).1) fun t ht =>
    (hsingle t ht).text_ne_empty
  obtain ⟨pieces, hcutting, hpieces⟩ := Token.cutting_spaced hsingle hquote hjoints
  have hreturns : Lexer.withoutReturns type.text.toList = Token.spaced type.written := by
    rw [htext, String.toList_ofList, Token.withoutReturns_spaced hsingle]
  rw [← hreturns] at hcutting
  obtain ⟨ts, htokens⟩ := (exists_cutting_iff type.text).1 ⟨pieces, hcutting⟩
  refine ⟨ts, htokens, ?_⟩
  rw [← hpieces, (cutting_iff_pieces htokens pieces).1 hcutting, List.filter_map]
  rfl

/-- A number before a word, a numeral that is no digit, and brackets that stand close together. -/
theorem TypeName.text_relexes_glued :
    let word (text : String) : Token := ⟨.identifier, text, {}⟩
    let type : TypeName :=
      { head := ⟨[⟨word "Map", .identifier⟩, ⟨word "Of", .identifier⟩]⟩
        suffix := [word "<", ⟨.numberLiteral, "16", {}⟩, word "u", ⟨.comma, ",", {}⟩, word "\u00b3",
          word "\u00e9", ⟨.charLiteral, "'\\''", {}⟩, ⟨.attributeOpen, "[[", {}⟩,
          ⟨.openBracket, "[", {}⟩, word "/", word ">"] }
    type.text = "Map::Of<16 u, \u00b3 \u00e9'\\''[[[/>" ∧
      ∃ ts, tokenize type.text = .ok ts ∧
        (Token.significant ts).map Token.piece = type.written.map Token.piece := by
  intro word type
  have hhead : ∀ l ∈ type.head.parts, l.token.kind = .identifier ∧ l.token.IsSingle := by
    decide +kernel
  have hsuffix : ∀ t ∈ type.suffix, t.IsSingle := by decide +kernel
  have hjoints : type.written.IsChain Token.Separable := by decide +kernel
  have hquote : ∀ t ∈ type.written, t.text ≠ "'" := by decide +kernel
  exact ⟨by decide +kernel, text_relexes hhead hsuffix hjoints hquote⟩

end HeaderReflection
