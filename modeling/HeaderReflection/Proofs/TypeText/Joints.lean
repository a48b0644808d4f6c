import HeaderReflection.Proofs.Grammar.ReadMembers
import HeaderReflection.Proofs.Tokens.Places
import HeaderReflection.Proofs.TypeText.Spacing

/-!
# The blanks in the text of a type and those in its source

The text of a type has a blank where two words would touch. In the source such words stand apart,
for words that touch would be one word, with one exception: a number ends where its digits end, so
a word may follow directly, as in `16u` or `0x10`, and so it is with numerals that are no digits.
There the text of the type pulls apart what is one literal in the source, and nowhere else
(`CompilationUnit.type_joints`).
-/

namespace HeaderReflection

/-! ## Neighbours in the source -/

namespace Token

variable {all : List Token} {a b : Token}

/-- Nothing stands between the two tokens. -/
def Touching (all : List Token) (a b : Token) : Prop :=
  ∃ before after, all = before ++ a :: b :: after

/-- Trivia stands between the two tokens, and nothing else. -/
def Apart (all : List Token) (a b : Token) : Prop :=
  ∃ before gap after, all = before ++ a :: (gap ++ b :: after) ∧ gap ≠ [] ∧
    ∀ t ∈ gap, t.kind.isTrivia = true

/-- Significant tokens in a row touch or are apart. -/
theorem touching_or_apart {before after : List Token}
    (h : significant all = before ++ a :: b :: after) : Touching all a b ∨ Apart all a b := by
  obtain ⟨front, back, rfl, -, hback⟩ := List.filter_eq_append_iff.1 h
  obtain ⟨skipped, rest, rfl, -, -, hrest⟩ := List.filter_eq_cons_iff.1 hback
  obtain ⟨gap, last, rfl, hgap, -, -⟩ := List.filter_eq_cons_iff.1 hrest
  cases gap with
  | nil => exact .inl ⟨front ++ skipped, last, by rw [List.append_assoc]; rfl⟩
  | cons t gap =>
    have hall : front ++ (skipped ++ a :: (t :: gap ++ b :: last)) =
        (front ++ skipped) ++ a :: (t :: gap ++ b :: last) := (List.append_assoc _ _ _).symm
    refine .inr ⟨front ++ skipped, t :: gap, last, hall, List.cons_ne_nil _ _, ?_⟩
    intro u hu
    have hnot := hgap u hu
    rwa [Bool.not_eq_true, Bool.not_eq_false'] at hnot

/-- No token stands between two that touch. -/
theorem Touching.not_apart (h : Touching all a b)
    (hall : all.Pairwise fun t u => t.position.offset < u.position.offset) : ¬Apart all a b := by
  rintro ⟨front, gap, back, hapart, hgap, -⟩
  obtain ⟨before, after, htouching⟩ := h
  obtain ⟨t, gap, rfl⟩ := List.exists_cons_of_ne_nil hgap
  have hbetween : a.position.offset < t.position.offset ∧
      t.position.offset < b.position.offset := by
    rw [hapart, List.pairwise_append, List.pairwise_cons, List.cons_append,
      List.pairwise_cons] at hall
    obtain ⟨-, ⟨ha, ht, -⟩, -⟩ := hall
    exact ⟨ha t List.mem_cons_self, ht b (List.mem_append_right gap List.mem_cons_self)⟩
  have hmem : t ∈ all := by
    rw [hapart]
    simp
  rw [htouching] at hmem hall
  rw [List.pairwise_append, List.pairwise_cons, List.pairwise_cons] at hall
  obtain ⟨-, ⟨-, hafter, -⟩, hbefore⟩ := hall
  rcases List.mem_append.1 hmem with hfront | hmem
  · have hlt := hbefore t hfront a List.mem_cons_self
    omega
  rcases List.mem_cons.1 hmem with rfl | hmem
  · omega
  rcases List.mem_cons.1 hmem with rfl | hback
  · omega
  · have hlt := hafter t hback
    omega

end Token

/-! ## Numerals -/

/-- The text starts with a digit or another numeral that starts no word. -/
def StartsNumeral (text : List Char) : Prop :=
  ∃ c ∈ text.head?, isWordChar c = true ∧ isWordStart c = false

/-- Where a word touches what goes on with it, the word starts with a numeral. -/
theorem Piece.startsNumeral_of_next {kind : TokenKind} {text rest : List Char}
    (h : Piece kind text rest) (hkind : kind.isTrivia = false)
    (hend : TypeName.endsInWord text = true) (hnext : ∃ c ∈ rest.head?, isWordChar c = true) :
    StartsNumeral text := by
  cases h with
  | blank | lineEnd | lineComment | blockComment | openBlock => cases hkind
  | attributeOpen => exact absurd hend (by decide)
  | attributeClose => exact absurd hend (by decide)
  | quote => exact absurd hend (by decide)
  | @string body rest h =>
    rw [← List.cons_append, TypeName.endsInWord_append (List.cons_ne_nil _ _)] at hend
    exact absurd hend (by decide)
  | @character body rest hline h =>
    rw [← List.cons_append, TypeName.endsInWord_append (List.cons_ne_nil _ _)] at hend
    exact absurd hend (by decide)
  | @number c run rest hdigits hrest =>
    have hdigit := hdigits c List.mem_cons_self
    refine ⟨c, rfl, isWordChar_of_isDigit hdigit, ?_⟩
    rw [← Bool.not_eq_true]
    intro hstart
    rw [isDigit_eq_false_of_isWordStart hstart] at hdigit
    cases hdigit
  | word hstart hrun hrest hclass =>
    obtain ⟨c, hc, hword⟩ := hnext
    rw [hrest c hc] at hword
    cases hword
  | @sign _ c rest h hclass => exact ⟨c, rfl, hend, h.notWord⟩

/-- A piece that starts with a numeral ends in one. -/
theorem Piece.endsInWord_of_startsNumeral {kind : TokenKind} {text rest : List Char}
    (h : Piece kind text rest) (hnumeral : StartsNumeral text) :
    TypeName.endsInWord text = true := by
  obtain ⟨c, hc, hword, hstart⟩ := hnumeral
  cases h with
  | blank h =>
    cases hc
    rcases h with rfl | rfl <;> exact absurd hword (by decide)
  | lineEnd | attributeOpen | attributeClose | lineComment | blockComment | openBlock | string
  | character | quote =>
    cases hc
    exact absurd hword (by decide)
  | @number d run rest hdigits hrest =>
    exact TypeName.endsInWord_of_forall (List.cons_ne_nil d run) fun e he =>
      isWordChar_of_isDigit (hdigits e he)
  | word hfirst hrun hrest hclass =>
    cases hc
    rw [hfirst] at hstart
    cases hstart
  | sign h hclass =>
    cases hc
    exact hword

/-- Of a category that a sign has, there is no other piece. -/
theorem Piece.text_of_sign {kind : TokenKind} {c : Char} {text rest : List Char}
    (h : Piece kind text rest) (hkind : (c, kind) ∈ TokenKind.signs) : text = [c] := by
  have hkeyword : ∀ p ∈ TokenKind.signs, p.2 ∉ TokenKind.keywords.map Prod.snd := by decide
  have hidentifier : ∀ p ∈ TokenKind.signs, p.2 ≠ .identifier := by decide
  have hsame : ∀ p ∈ TokenKind.signs, ∀ q ∈ TokenKind.signs, p.2 = q.2 → p.1 = q.1 := by decide
  cases h with
  | word hstart hrun hrest hclass =>
    rcases hclass with hmem | ⟨rfl, -⟩
    · exact absurd (List.mem_map_of_mem hmem) (hkeyword _ hkind)
    · exact absurd rfl (hidentifier _ hkind)
  | sign h hclass =>
    rcases hclass with hmem | ⟨rfl, -⟩
    · exact congrArg (fun d => [d]) (hsame _ hmem _ hkind rfl)
    · exact absurd rfl (hidentifier _ hkind)
  | blank | lineEnd | attributeOpen | attributeClose | lineComment | blockComment | openBlock
  | string | character | quote | number => simp [TokenKind.signs] at hkind

/-! ## Neighbours in a cutting -/

/-- A piece of a cutting goes before the rest of the cutting. -/
theorem Cutting.piece_append {cs : List Char} {front back : List (TokenKind × String)}
    {p : TokenKind × String} (h : Cutting cs (front ++ p :: back)) :
    ∃ rest, Piece p.1 p.2.toList rest ∧ Cutting rest back := by
  induction front generalizing cs with
  | nil =>
    cases h with
    | @piece kind text rest _ h hrest =>
      refine ⟨rest, ?_, hrest⟩
      rw [String.toList_ofList]
      exact h
  | cons q front ih =>
    cases h with
    | piece _ hrest => exact ih hrest

/-- The next character after a piece is the first one of the next piece. -/
theorem Cutting.head?_eq {rest : List Char} {q : TokenKind × String}
    {back : List (TokenKind × String)} (h : Cutting rest (q :: back)) :
    rest.head? = q.2.toList.head? := by
  cases h with
  | piece h _ => rw [String.toList_ofList, List.head?_append_of_ne_nil _ h.text_ne_nil]

namespace Token

variable {text : String} {all : List Token} {a b : Token}

/-- Every token of a text is a piece of it. -/
theorem exists_piece (htokens : tokenize text = .ok all) (ha : a ∈ all) :
    ∃ rest, Piece a.kind a.text.toList rest :=
  ((cutting_iff_pieces htokens _).2 rfl).piece_of_mem (List.mem_map_of_mem ha)

/-- **A word touches what goes on with it only if it starts with a numeral.** -/
theorem Touching.startsNumeral (h : Touching all a b) (htokens : tokenize text = .ok all)
    (hkind : a.kind.isTrivia = false) (hend : TypeName.endsInWord a.text.toList = true)
    (hb : b.isWord = true) : StartsNumeral a.text.toList := by
  obtain ⟨before, after, rfl⟩ := h
  have hcutting := (cutting_iff_pieces htokens _).2 rfl
  rw [List.map_append, List.map_cons, List.map_cons] at hcutting
  obtain ⟨rest, hpiece, hrest⟩ := hcutting.piece_append
  have hhead : rest.head? = b.text.toList.head? := hrest.head?_eq
  refine hpiece.startsNumeral_of_next hkind hend ?_
  obtain ⟨c, hc, hword⟩ := (Option.any_eq_true _ _).1 hb
  exact ⟨c, hhead.trans hc, hword⟩

/-- If a type has a blank between the two tokens, it follows a comma or stands for trivia. -/
def BlankFromSource (all : List Token) (a b : Token) (following : List Token) : Prop :=
  a.blankBefore (b :: following) = true → a.kind = .comma ∨ Apart all a b

/-- The second token goes on with a literal whose digits are the first one. -/
structure OneLiteral (all : List Token) (a b : Token) : Prop where
  touching : Touching all a b
  numeral : StartsNumeral a.text.toList
  word : b.isWord = true

/-- **A blank between two tokens of a type stands where trivia or a comma does,** unless the two are
one literal in the source. -/
theorem blankFromSource_iff (htokens : tokenize text = .ok all)
    {before after following : List Token} (h : significant all = before ++ a :: b :: after) :
    BlankFromSource all a b following ↔ ¬OneLiteral all a b := by
  have ha : a ∈ significant all := by
    rw [h]
    simp
  obtain ⟨hmem, hkind⟩ := mem_significant.1 ha
  obtain ⟨rest, hpiece⟩ := exists_piece htokens hmem
  constructor
  · rintro hblank ⟨htouching, hnumeral, hword⟩
    have hend := hpiece.endsInWord_of_startsNumeral hnumeral
    have hspace : a.blankBefore (b :: following) = true := by
      simp [blankBefore, hend, hword]
    rcases hblank hspace with hcomma | hapart
    · have htext := hpiece.text_of_sign (c := ',') (by rw [hcomma]; decide)
      rw [htext] at hend
      exact absurd hend (by decide)
    · exact htouching.not_apart (offsets_increase htokens) hapart
  · intro hnot hblank
    rcases Bool.or_eq_true_iff.1 hblank with hcomma | hwords
    · exact .inl (of_decide_eq_true hcomma)
    · obtain ⟨hend, hword⟩ := Bool.and_eq_true_iff.1 hwords
      refine .inr ((touching_or_apart h).resolve_left fun htouching => ?_)
      exact hnot ⟨htouching, htouching.startsNumeral htokens hkind hend hword, hword⟩

end Token

/-! ## Fields -/

/-- The tokens of the type of a member where they stand in the source: in a row, before its name. -/
structure Member.TypeStands (m : Member) (all ts : List Token) : Prop where
  holds : m.type.Holds ts
  row : ∃ before after, Token.significant all = before ++ (ts ++ m.name.token :: after)

/-- A member that was read from a text has the type that stands before its name there. -/
theorem Member.ReadIn.exists_typeStands {m : Member} {text : String} {all : List Token}
    (h : m.ReadIn (Token.significant all)) (htokens : tokenize text = .ok all) :
    ∃ ts, m.TypeStands all ts ∧ m.type.text = String.ofList (Token.spaced ts) := by
  have hcolon : ∀ t ∈ Token.significant all, t.kind = .colon → t.text = ":" := by
    intro t ht hkind
    obtain ⟨_, hpiece⟩ := Token.exists_piece htokens (Token.mem_significant.1 ht).1
    have htext := hpiece.text_of_sign (c := ':') (by rw [hkind]; decide)
    exact String.toList_inj.1 htext
  obtain ⟨before, ts, after, hholds, hrow⟩ := h.exists_type hcolon
  have hhead : ∀ l ∈ m.type.head.parts, l.token.IsNamePart := by
    rcases h.head_spec with ⟨t, ht, hauto⟩ | hname
    · rw [hauto]
      exact List.forall_mem_singleton.2 (.inr ht)
    · exact fun l hl => .inl (hname.parts l hl).token
  have htexts : ∀ t ∈ ts, t.text ≠ "" := by
    intro t ht hempty
    have hmem : t ∈ Token.significant all := by
      rw [hrow]
      exact List.mem_append_right _ (List.mem_append_left _ ht)
    obtain ⟨_, hpiece⟩ := Token.exists_piece htokens (Token.mem_significant.1 hmem).1
    exact hpiece.text_ne_nil (String.toList_eq_nil_iff.2 hempty)
  exact ⟨ts, ⟨hholds, before, after, hrow⟩, TypeName.text_of_holds hholds hhead htexts⟩

/-- **The blanks in the type of a field.** Every field of a class is a member of that class in the
tree and has the type that stands before its name in the source. In its text there is a blank
between two tokens only where trivia stands between them or after a comma, but for literals such as
`16u`: just these are pulled apart. -/
theorem CompilationUnit.type_joints {text file : String} {all : List Token}
    {unit : CompilationUnit} (htokens : tokenize text = .ok all)
    (hunit : CompilationUnit.ofTokens all = .ok unit) {c : Model.Class} (hc : c ∈ unit.classes file)
    {f : Model.Field} (hf : f ∈ c.fields) :
    ∃ place ∈ unit.records, Model.Class.ofRecord file place = c ∧
      ∃ m ∈ place.2.members, m.toField = f ∧ ∃ ts, m.TypeStands all ts ∧
        f.type = String.ofList (Token.spaced ts) ∧
        ∀ front a b back, ts = front ++ a :: b :: back →
          (Token.BlankFromSource all a b back ↔ ¬Token.OneLiteral all a b) := by
  obtain ⟨place, hplace, rfl⟩ := exists_record_of_mem_classes hc
  obtain ⟨m, hm, -, rfl⟩ := ClassDeclaration.exists_member_of_field hf
  have hread := readIn_of_ofTokens hunit m (members_subset_of_mem_records hplace hm)
  obtain ⟨ts, hstands, htext⟩ := hread.exists_typeStands htokens
  refine ⟨place, hplace, rfl, m, hm, rfl, ts, hstands, htext, ?_⟩
  rintro front a b back rfl
  obtain ⟨before, after, hrow⟩ := hstands.row
  have hneighbours : Token.significant all =
      (before ++ front) ++ a :: b :: (back ++ m.name.token :: after) := by
    rw [hrow]
    simp
  exact Token.blankFromSource_iff htokens hneighbours

/-- A comma without a blank, a hexadecimal number and a comment before a star. -/
theorem CompilationUnit.type_joints_hexadecimal :
    let field : Model.Field := ⟨"b", "m::Map<K, 0 x10>*", [⟨"", "R", []⟩]⟩
    ∃ all unit, tokenize "class A \x7b [[R]] m::Map<K,0x10>/**/* b; \x7d;" = .ok all ∧
      ofTokens all = .ok unit ∧ unit.classes "a.h" = [⟨"A", "a.h", [field], []⟩] ∧
      ∃ place ∈ unit.records, Model.Class.ofRecord "a.h" place = ⟨"A", "a.h", [field], []⟩ ∧
        ∃ m ∈ place.2.members, m.toField = field ∧ ∃ ts, m.TypeStands all ts ∧
          field.type = String.ofList (Token.spaced ts) ∧
          ∀ front a b back, ts = front ++ a :: b :: back →
            (Token.BlankFromSource all a b back ↔ ¬Token.OneLiteral all a b) := by
  intro field
  have hshown : (ofString "class A \x7b [[R]] m::Map<K,0x10>/**/* b; \x7d;").toOption.map
      (classes "a.h") = some [⟨"A", "a.h", [field], []⟩] := by decide +kernel
  rw [ofString] at hshown
  cases htokens : tokenize "class A \x7b [[R]] m::Map<K,0x10>/**/* b; \x7d;" with
  | error e =>
    rw [htokens] at hshown
    cases hshown
  | ok all =>
    rw [htokens] at hshown
    dsimp only at hshown
    cases hunit : ofTokens all with
    | error e =>
      rw [hunit] at hshown
      cases hshown
    | ok unit =>
      rw [hunit] at hshown
      have hclasses : unit.classes "a.h" = [⟨"A", "a.h", [field], []⟩] := Option.some.inj hshown
      have hc : ⟨"A", "a.h", [field], []⟩ ∈ unit.classes "a.h" := by
        rw [hclasses]
        exact List.mem_singleton_self _
      have hf : field ∈ (Model.Class.mk "A" "a.h" [field] []).fields := List.mem_singleton_self _
      exact ⟨all, unit, rfl, hunit, hclasses, type_joints htokens hunit hc hf⟩

/-- In a class with `[[R]] Array<16u> items;` the template argument is pulled apart. -/
theorem CompilationUnit.not_forall_blank_from_source :
    ¬∀ (text file : String) (all : List Token) (unit : CompilationUnit),
      tokenize text = .ok all → ofTokens all = .ok unit →
        ∀ c ∈ unit.classes file, ∀ f ∈ c.fields,
          ∃ m ∈ unit.members, m.toField = f ∧ ∃ ts, m.TypeStands all ts ∧
            f.type = String.ofList (Token.spaced ts) ∧
            ∀ front a b back, ts = front ++ a :: b :: back →
              Token.BlankFromSource all a b back := by
  intro h
  let first : Token := ⟨.identifier, "Array", ⟨16, 1, 17⟩⟩
  let opening : Token := ⟨.identifier, "<", ⟨21, 1, 22⟩⟩
  let number : Token := ⟨.numberLiteral, "16", ⟨22, 1, 23⟩⟩
  let word : Token := ⟨.identifier, "u", ⟨24, 1, 25⟩⟩
  let closing : Token := ⟨.identifier, ">", ⟨25, 1, 26⟩⟩
  let before : List Token := [⟨.classKeyword, "class", ⟨0, 1, 1⟩⟩, ⟨.space, " ", ⟨5, 1, 6⟩⟩,
    ⟨.identifier, "A", ⟨6, 1, 7⟩⟩, ⟨.space, " ", ⟨7, 1, 8⟩⟩, ⟨.openBrace, "\x7b", ⟨8, 1, 9⟩⟩,
    ⟨.space, " ", ⟨9, 1, 10⟩⟩, ⟨.attributeOpen, "[[", ⟨10, 1, 11⟩⟩,
    ⟨.identifier, "R", ⟨12, 1, 13⟩⟩, ⟨.attributeClose, "]]", ⟨13, 1, 14⟩⟩,
    ⟨.space, " ", ⟨15, 1, 16⟩⟩, first, opening]
  let after : List Token := [closing, ⟨.space, " ", ⟨26, 1, 27⟩⟩,
    ⟨.identifier, "items", ⟨27, 1, 28⟩⟩, ⟨.semicolon, ";", ⟨32, 1, 33⟩⟩, ⟨.space, " ", ⟨33, 1, 34⟩⟩,
    ⟨.closeBrace, "\x7d", ⟨34, 1, 35⟩⟩, ⟨.semicolon, ";", ⟨35, 1, 36⟩⟩]
  let all := before ++ number :: word :: after
  let type : TypeName := ⟨⟨[⟨first, .identifier⟩]⟩, [opening, number, word, closing]⟩
  have htokens : tokenize "class A \x7b [[R]] Array<16u> items; \x7d;" = .ok all := by
    rw [tokenize_eq_ok]
    decide +kernel
  have hshown : (ofTokens all).toOption.map
      (fun unit => (unit.members.map Member.type, unit.classes "a.h")) =
        some ([type], [⟨"A", "a.h", [⟨"items", "Array<16 u>", [⟨"", "R", []⟩]⟩], []⟩]) := by
    decide +kernel
  cases hunit : ofTokens all with
  | error e =>
    rw [hunit] at hshown
    cases hshown
  | ok unit =>
    rw [hunit] at hshown
    obtain ⟨htypes, hclasses⟩ := Prod.mk.inj (Option.some.inj hshown)
    obtain ⟨m, hm, -, ts, hstands, -, hjoints⟩ := h _ "a.h" all unit htokens hunit _
      (hclasses ▸ List.mem_singleton_self _) _ (List.mem_singleton_self _)
    have htype : m.type = type := List.mem_singleton.1 (htypes ▸ List.mem_map_of_mem hm)
    obtain ⟨front, hfront, rfl⟩ := hstands.holds
    rw [htype] at hfront hjoints
    obtain ⟨⟨⟩⟩ := hfront
    -- the number and the word after it touch, so no trivia stands for the blank
    have htouching : Token.Touching all number word := ⟨before, after, rfl⟩
    rcases hjoints [first, opening] number word [closing] rfl (by decide) with hcomma | hapart
    · cases hcomma
    · exact htouching.not_apart (Token.offsets_increase htokens) hapart

end HeaderReflection
