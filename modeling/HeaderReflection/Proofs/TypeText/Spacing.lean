import HeaderReflection.Proofs.Grammar.Declarators
import HeaderReflection.Proofs.Tokens.Grammar
import Mathlib.Data.List.Basic

/-!
# The blanks in the text of a type

The text of a type is the texts of its tokens, put together from the left. Where a blank stands
follows from the two tokens around it alone: after a comma there always is one, and else there is
one where two words would touch (`TypeName.text_of_holds`).
-/

namespace HeaderReflection

namespace Token

/-- Whether the text of a type has a blank between a token and those that follow. -/
def blankBefore (t : Token) (following : List Token) : Bool :=
  t.kind = .comma || TypeName.endsInWord t.text.toList && following.head?.any isWord

/-- The texts of several tokens, with the blanks between them. -/
def spaced : List Token → List Char
  | [] => []
  | t :: ts => t.text.toList ++ ((if t.blankBefore ts then [' '] else []) ++ spaced ts)

theorem toList_text_ne_nil {t : Token} (h : t.text ≠ "") : t.text.toList ≠ [] :=
  fun hnil => h (String.toList_eq_nil_iff.1 hnil)

end Token

namespace TypeName

theorem endsInWord_append {front back : List Char} (h : back ≠ []) :
    endsInWord (front ++ back) = endsInWord back := by
  rw [endsInWord, endsInWord, List.getLast?_append_of_ne_nil _ h]

theorem endsInWord_blank (text : List Char) : endsInWord (text ++ [' ']) = false := by
  rw [endsInWord_append (List.cons_ne_nil _ _)]
  decide

/-- Tokens are added to a text with a blank before the first one if two words would touch there. -/
theorem foldl_addToken {ts : List Token} (h : ∀ t ∈ ts, t.text ≠ "") (text : List Char) :
    ts.foldl addToken text =
      text ++ ((if endsInWord text && ts.head?.any Token.isWord then [' '] else []) ++
        Token.spaced ts) := by
  induction ts generalizing text with
  | nil => simp [Token.spaced]
  | cons t ts ih =>
    obtain ⟨ht, hts⟩ := List.forall_mem_cons.1 h
    have hjoint : (t.isWord && endsInWord text) =
        (endsInWord text && (t :: ts).head?.any Token.isWord) := Bool.and_comm _ _
    rw [List.foldl_cons, ih hts, Token.spaced, addToken, hjoint, Token.blankBefore]
    by_cases hcomma : t.kind = .comma
    · rw [if_pos hcomma, endsInWord_blank]
      simp [hcomma]
    · rw [if_neg hcomma, List.append_nil, endsInWord_append (Token.toList_text_ne_nil ht)]
      simp [hcomma]

end TypeName

/-! ## Words and numbers -/

theorem isWordChar_of_isDigit {c : Char} (h : c.isDigit = true) : isWordChar c = true := by
  have hnine : c.val ≤ '9'.val := of_decide_eq_true (Bool.and_eq_true_iff.1 h).2
  have hascii : Unicode.isAscii c = true :=
    decide_eq_true (UInt32.lt_of_le_of_lt hnine (by decide))
  rw [isWordChar, Unicode.isAlphanumeric, Unicode.isNumeric_of_isAscii hascii, h]
  simp

theorem isWordChar_of_isWordStart {c : Char} (h : isWordStart c = true) : isWordChar c = true := by
  rw [isWordStart, Bool.or_eq_true] at h
  rw [isWordChar, Bool.or_eq_true]
  exact h.imp_left Unicode.isAlphanumeric_of_isAlphabetic

/-- A run of characters that words are made of ends in one. -/
theorem TypeName.endsInWord_of_forall {text : List Char} (hne : text ≠ [])
    (h : ∀ c ∈ text, isWordChar c = true) : endsInWord text = true := by
  rw [endsInWord, List.getLast?_eq_some_getLast hne]
  exact h _ (List.getLast_mem hne)

theorem Piece.text_ne_nil {kind : TokenKind} {text rest : List Char} (h : Piece kind text rest) :
    text ≠ [] := by
  cases h <;> exact List.cons_ne_nil _ _

/-! ## Names -/

/-- The token is one that the names in types are made of: an identifier or `auto`. -/
def Token.IsNamePart (t : Token) : Prop := t.kind = .identifier ∨ t.kind = .autoKeyword

theorem Token.IsNamePart.kind_ne {t : Token} (h : t.IsNamePart) :
    t.kind ≠ .comma ∧ t.kind ≠ .stringLiteral := by
  rcases h with h | h <;> simp [h]

namespace TypeName

/-- Nothing stands around a colon. -/
theorem addToken_colon {t : Token} (h : t.IsSign ':') (text : List Char) :
    addToken text t = text ++ [':'] := by
  have hkind : t.kind ≠ .comma := by
    rw [h.kind]
    decide
  have hword : t.isWord = false := by
    rw [Token.isWord, h.text]
    decide
  rw [addToken, hword, if_neg hkind, h.text]
  simp

/-- A part of a name is added as it is where no word ends. -/
theorem addToken_part {l : Literal} (hl : l.token.IsNamePart) {text : List Char}
    (h : endsInWord text = false) : addToken text l.token = text ++ l.value.toList := by
  obtain ⟨hcomma, hstring⟩ := hl.kind_ne
  rw [addToken, h, if_neg hcomma, Literal.value, Token.value_of_kind_ne hstring]
  simp

theorem foldl_addToken_parts {ls : List Literal} {ts : List Token}
    (h : QualifiedName.SpelledParts ls ts) (hls : ∀ l ∈ ls, l.token.IsNamePart) (text : List Char) :
    ts.foldl addToken text = text ++ ls.flatMap fun l => ':' :: ':' :: l.value.toList := by
  induction h generalizing text with
  | nil => simp
  | @cons c d l ls ts hc hd h ih =>
    obtain ⟨hl, hmore⟩ := List.forall_mem_cons.1 hls
    have hcolon : endsInWord (text ++ [':'] ++ [':']) = false := by
      rw [endsInWord_append (List.cons_ne_nil _ _)]
      decide
    rw [List.foldl_cons, List.foldl_cons, List.foldl_cons, addToken_colon hc, addToken_colon hd,
      addToken_part hl hcolon, ih hmore]
    simp

end TypeName

/-- A name is its first part and the others, each behind its colons. -/
theorem QualifiedName.toList_text (l : Literal) (ls : List Literal) :
    (QualifiedName.mk (l :: ls)).text.toList =
      l.value.toList ++ ls.flatMap fun l => ':' :: ':' :: l.value.toList := by
  induction ls generalizing l with
  | nil =>
    rw [text, List.map_singleton, String.intercalate_singleton]
    simp
  | cons next ls ih =>
    have hnext : (QualifiedName.mk (l :: next :: ls)).text =
        l.value ++ "::" ++ (QualifiedName.mk (next :: ls)).text := String.intercalate_cons_cons
    rw [hnext, String.toList_append, String.toList_append, ih, List.flatMap_cons, List.append_assoc]
    rfl

/-- A name is its tokens, added one after the other. -/
theorem QualifiedName.foldl_addToken {name : QualifiedName} {ts : List Token} (h : name.Spelled ts)
    (hname : ∀ l ∈ name.parts, l.token.IsNamePart) :
    ts.foldl TypeName.addToken [] = name.text.toList := by
  obtain ⟨hparts⟩ := h
  next l ls ts =>
    obtain ⟨hl, hls⟩ := List.forall_mem_cons.1 hname
    rw [List.foldl_cons, TypeName.addToken_part hl rfl, TypeName.foldl_addToken_parts hparts hls,
      toList_text]
    rfl

/-- **The text of a type is its tokens with the blanks between them.** -/
theorem TypeName.text_of_holds {type : TypeName} {ts : List Token} (h : type.Holds ts)
    (hhead : ∀ l ∈ type.head.parts, l.token.IsNamePart) (hts : ∀ t ∈ ts, t.text ≠ "") :
    type.text = String.ofList (Token.spaced ts) := by
  obtain ⟨front, hfront, rfl⟩ := h
  have hwhole := TypeName.foldl_addToken hts []
  rw [List.foldl_append, QualifiedName.foldl_addToken hfront hhead] at hwhole
  rw [text, hwhole]
  rfl

end HeaderReflection
