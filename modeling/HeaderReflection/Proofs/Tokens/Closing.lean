import HeaderReflection.Token.Lexeme

/-!
# Where literals and comments are closed

A quote closes a literal if it is not escaped, and it is escaped if an odd number of escape signs
stands directly before it. A block comment is closed by the first `*` and `/` after its opening.
Both are said here by the places of the signs alone, and the splittings of a text are shown to find
them (`Lexeme.splitString_eq_some_iff`, `Lexeme.splitCharacter_eq_some_iff`,
`Lexeme.splitBlock_first`).
-/

namespace HeaderReflection

/-! ## Escaped signs -/

/-- The number of escape signs at the end of a text. -/
def escapesAtEnd (text : List Char) : Nat := (text.reverse.takeWhile (· = '\\')).length

/-- Whether a sign that comes after this text is escaped. -/
def IsEscapedAfter (text : List Char) : Prop := escapesAtEnd text % 2 = 1

theorem not_isEscapedAfter_nil : ¬IsEscapedAfter [] := by
  show ¬escapesAtEnd [] % 2 = 1
  decide

/-- The escape signs at the end are the whole text if the text has no other signs. -/
theorem escapesAtEnd_eq_length_iff {text : List Char} :
    escapesAtEnd text = text.length ↔ ∀ c ∈ text, c = '\\' := by
  unfold escapesAtEnd
  rw [show text.length = text.reverse.length from List.length_reverse.symm]
  constructor
  · intro hlength c hc
    have hwhole := (List.takeWhile_prefix (· = '\\')).eq_of_length hlength
    have hmem : c ∈ text.reverse.takeWhile (· = '\\') := by
      rw [hwhole]
      exact List.mem_reverse.2 hc
    simpa using List.all_eq_true.1 List.all_takeWhile c hmem
  · intro hall
    have hwhole : (text.reverse ++ []).takeWhile (· = '\\') = text.reverse ++ [] :=
      List.takeWhile_append_of_pos fun c hc => by simpa using hall c (List.mem_reverse.1 hc)
    rw [List.append_nil] at hwhole
    rw [hwhole]

/-- A sign before a text of escape signs counts if it is one, too. -/
theorem escapesAtEnd_cons_of_forall (c : Char) {text : List Char} (h : ∀ d ∈ text, d = '\\') :
    escapesAtEnd (c :: text) = escapesAtEnd text + if c = '\\' then 1 else 0 := by
  have hlength := escapesAtEnd_eq_length_iff.2 h
  unfold escapesAtEnd at hlength ⊢
  rw [List.reverse_cons, List.takeWhile_append, List.length_reverse, if_pos hlength,
    List.length_append, hlength, List.length_reverse]
  by_cases hc : c = '\\'
  · simp [hc]
  · simp [hc]

/-- A sign before any other text makes no difference to the escape signs at its end. -/
theorem escapesAtEnd_cons_of_not_forall (c : Char) {text : List Char}
    (h : ¬∀ d ∈ text, d = '\\') : escapesAtEnd (c :: text) = escapesAtEnd text := by
  have hlength := mt escapesAtEnd_eq_length_iff.1 h
  unfold escapesAtEnd at hlength ⊢
  rw [List.reverse_cons, List.takeWhile_append, List.length_reverse, if_neg hlength]

/-- A sign that escapes nothing makes no difference to what comes later. -/
theorem isEscapedAfter_cons {c : Char} (hc : c ≠ '\\') (text : List Char) :
    IsEscapedAfter (c :: text) ↔ IsEscapedAfter text := by
  unfold IsEscapedAfter
  by_cases h : ∀ d ∈ text, d = '\\'
  · rw [escapesAtEnd_cons_of_forall c h, if_neg hc, Nat.add_zero]
  · rw [escapesAtEnd_cons_of_not_forall c h]

/-- Nor does an escape sign together with the sign after it. -/
theorem isEscapedAfter_escape (c : Char) (text : List Char) :
    IsEscapedAfter ('\\' :: c :: text) ↔ IsEscapedAfter text := by
  by_cases hall : ∀ d ∈ c :: text, d = '\\'
  · obtain ⟨hc, h⟩ := List.forall_mem_cons.1 hall
    unfold IsEscapedAfter
    rw [escapesAtEnd_cons_of_forall _ hall, escapesAtEnd_cons_of_forall _ h, if_pos rfl,
      if_pos hc]
    omega
  · have hfirst : IsEscapedAfter ('\\' :: c :: text) ↔ IsEscapedAfter (c :: text) := by
      unfold IsEscapedAfter
      rw [escapesAtEnd_cons_of_not_forall _ hall]
    rw [hfirst]
    by_cases hc : c = '\\'
    · have h : ¬∀ d ∈ text, d = '\\' := fun h => hall (List.forall_mem_cons.2 ⟨hc, h⟩)
      unfold IsEscapedAfter
      rw [escapesAtEnd_cons_of_not_forall _ h]
    · exact isEscapedAfter_cons hc text

/-! ## The first quote that is not escaped -/

/-- A quote that comes after this body is the first one that is not escaped. -/
structure IsFirstQuote (quote : Char) (body : List Char) : Prop where
  unescaped : ¬IsEscapedAfter body
  first : ∀ front back, body = front ++ quote :: back → IsEscapedAfter front

/-- The body of a literal read from the left: an escape sign stands together with the sign after it,
and every other sign is no quote. -/
inductive QuoteBody (quote : Char) : List Char → Prop
  | nil : QuoteBody quote []
  | sign {c : Char} {cs : List Char} (hquote : c ≠ quote) (hescape : c ≠ '\\')
      (h : QuoteBody quote cs) : QuoteBody quote (c :: cs)
  | escape (c : Char) {cs : List Char} (h : QuoteBody quote cs) : QuoteBody quote ('\\' :: c :: cs)

theorem isFirstQuote_nil (quote : Char) : IsFirstQuote quote [] := by
  refine ⟨not_isEscapedAfter_nil, fun front back h => ?_⟩
  have hlength := congrArg List.length h
  simp at hlength

theorem isFirstQuote_sign {quote c : Char} {cs : List Char} (hquote : c ≠ quote)
    (hescape : c ≠ '\\') : IsFirstQuote quote (c :: cs) ↔ IsFirstQuote quote cs := by
  constructor
  · intro h
    refine ⟨fun hcs => h.unescaped ((isEscapedAfter_cons hescape cs).2 hcs), ?_⟩
    intro front back hsplit
    have hfront := h.first (c :: front) back (by rw [hsplit]; rfl)
    exact (isEscapedAfter_cons hescape front).1 hfront
  · intro h
    refine ⟨fun hcs => h.unescaped ((isEscapedAfter_cons hescape cs).1 hcs), ?_⟩
    intro front back hsplit
    cases front with
    | nil => exact absurd (List.cons.inj hsplit).1 hquote
    | cons d front =>
      obtain ⟨rfl, hcs⟩ := List.cons.inj hsplit
      exact (isEscapedAfter_cons hescape front).2 (h.first front back hcs)

theorem isFirstQuote_escape {quote : Char} (hquote : quote ≠ '\\') (c : Char) {cs : List Char} :
    IsFirstQuote quote ('\\' :: c :: cs) ↔ IsFirstQuote quote cs := by
  constructor
  · intro h
    refine ⟨fun hcs => h.unescaped ((isEscapedAfter_escape c cs).2 hcs), ?_⟩
    intro front back hsplit
    have hfront := h.first ('\\' :: c :: front) back (by rw [hsplit]; rfl)
    exact (isEscapedAfter_escape c front).1 hfront
  · intro h
    refine ⟨fun hcs => h.unescaped ((isEscapedAfter_escape c cs).1 hcs), ?_⟩
    intro front back hsplit
    -- the quote cannot be the escape sign; it may be the sign that is escaped
    match front with
    | [] => exact absurd (List.cons.inj hsplit).1.symm hquote
    | [d] =>
      obtain ⟨rfl, -⟩ := List.cons.inj hsplit
      show escapesAtEnd ['\\'] % 2 = 1
      decide
    | d :: e :: front =>
      obtain ⟨rfl, htail⟩ := List.cons.inj hsplit
      obtain ⟨rfl, hcs⟩ := List.cons.inj htail
      exact (isEscapedAfter_escape c front).2 (h.first front back hcs)

/-- Read from the left, a body reaches its first unescaped quote at its end. -/
theorem isFirstQuote_iff_quoteBody {quote : Char} (hquote : quote ≠ '\\') :
    ∀ {body : List Char}, IsFirstQuote quote body ↔ QuoteBody quote body
  | [] => ⟨fun _ => .nil, fun _ => isFirstQuote_nil quote⟩
  | [c] => by
    by_cases hescape : c = '\\'
    · subst hescape
      refine ⟨fun h => absurd ?_ h.unescaped, fun h => ?_⟩
      · show escapesAtEnd ['\\'] % 2 = 1
        decide
      · cases h with
        | sign _ hescape _ => exact absurd rfl hescape
    · by_cases hc : c = quote
      · subst hc
        refine ⟨fun h => absurd (h.first [] [] rfl) not_isEscapedAfter_nil, fun h => ?_⟩
        cases h with
        | sign hquote _ _ => exact absurd rfl hquote
      · exact ⟨fun _ => .sign hc hescape .nil,
          fun _ => (isFirstQuote_sign hc hescape).2 (isFirstQuote_nil quote)⟩
  | c :: d :: body => by
    by_cases hescape : c = '\\'
    · subst hescape
      rw [isFirstQuote_escape hquote, isFirstQuote_iff_quoteBody hquote]
      refine ⟨fun h => .escape d h, fun h => ?_⟩
      cases h with
      | sign _ hescape _ => exact absurd rfl hescape
      | escape _ h => exact h
    · by_cases hc : c = quote
      · subst hc
        refine ⟨fun h => absurd (h.first [] _ rfl) not_isEscapedAfter_nil, fun h => ?_⟩
        cases h with
        | sign hquote _ _ => exact absurd rfl hquote
        | escape _ _ => exact absurd rfl hescape
      · rw [isFirstQuote_sign hc hescape, isFirstQuote_iff_quoteBody hquote]
        refine ⟨fun h => .sign hc hescape h, fun h => ?_⟩
        cases h with
        | sign _ _ h => exact h
        | escape _ _ => exact absurd rfl hescape

/-! ## The end of a block comment -/

/-- The end of a block comment stands somewhere in a text. -/
def HasBlockEnd (text : List Char) : Prop := ['*', '/'] <:+: text

theorem hasBlockEnd_cons {c : Char} {text : List Char} :
    HasBlockEnd (c :: text) ↔ (c = '*' ∧ text.head? = some '/') ∨ HasBlockEnd text := by
  unfold HasBlockEnd
  rw [List.infix_cons_iff]
  refine or_congr_left ?_
  cases text with
  | nil => simp
  | cons d text => simp [eq_comm]

namespace Lexeme

/-! ## Strings and character literals -/

theorem splitString_of_quoteBody {body : List Char} (h : QuoteBody '"' body) (rest : List Char) :
    splitString (body ++ '"' :: rest) = some (body ++ ['"'], rest) := by
  induction h with
  | nil => rfl
  | @sign c cs hquote hescape h ih =>
    rw [List.cons_append, splitString, ih]
    · rfl
    · exact hquote
    · exact fun _ _ hc _ => hescape hc
  | @escape c cs h ih =>
    show splitString ('\\' :: c :: (cs ++ '"' :: rest)) = _
    rw [splitString, ih]
    rfl

theorem quoteBody_of_splitString {cs : List Char} {p : List Char × List Char}
    (h : splitString cs = some p) :
    ∃ body, p.1 = body ++ ['"'] ∧ QuoteBody '"' body ∧ cs = body ++ '"' :: p.2 := by
  fun_induction splitString cs generalizing p with
  | case1 => cases h
  | case2 cs =>
    cases h
    exact ⟨[], rfl, .nil, rfl⟩
  | case3 c cs ih =>
    obtain ⟨q, hq, rfl⟩ := Option.map_eq_some_iff.1 h
    obtain ⟨body, htext, hbody, hcs⟩ := ih hq
    exact ⟨'\\' :: c :: body, by rw [htext]; rfl, .escape c hbody, by rw [hcs]; rfl⟩
  | case4 c cs hquote hescape ih =>
    obtain ⟨q, hq, rfl⟩ := Option.map_eq_some_iff.1 h
    obtain ⟨body, htext, hbody, hcs⟩ := ih hq
    have hsign : c ≠ '\\' := by
      intro hc
      cases cs with
      | nil => cases hq
      | cons d ds => exact hescape d ds hc rfl
    exact ⟨c :: body, by rw [htext]; rfl, .sign hquote hsign hbody, by rw [hcs]; rfl⟩

/-- **A string is closed by its first quote that is not escaped.** -/
theorem splitString_eq_some_iff {cs text rest : List Char} :
    splitString cs = some (text, rest) ↔
      ∃ body, text = body ++ ['"'] ∧ IsFirstQuote '"' body ∧ cs = body ++ '"' :: rest := by
  have hquote : '"' ≠ '\\' := by decide
  constructor
  · intro h
    obtain ⟨body, htext, hbody, hcs⟩ := quoteBody_of_splitString h
    exact ⟨body, htext, (isFirstQuote_iff_quoteBody hquote).2 hbody, hcs⟩
  · rintro ⟨body, rfl, hbody, rfl⟩
    exact splitString_of_quoteBody ((isFirstQuote_iff_quoteBody hquote).1 hbody) rest

theorem splitCharacter_of_quoteBody {body : List Char} (h : QuoteBody '\'' body)
    (hline : '\n' ∉ body) (rest : List Char) :
    splitCharacter (body ++ '\'' :: rest) = some (body ++ ['\''], rest) := by
  induction h with
  | nil => rfl
  | @sign c cs hquote hescape h ih =>
    rw [List.mem_cons, not_or] at hline
    rw [List.cons_append, splitCharacter, ih hline.2]
    · rfl
    · exact Ne.symm hline.1
    · exact hquote
    · exact fun _ _ hc _ => hescape hc
  | @escape c cs h ih =>
    simp only [List.mem_cons, not_or] at hline
    obtain ⟨-, hc, hcs⟩ := hline
    show splitCharacter ('\\' :: c :: (cs ++ '\'' :: rest)) = _
    rw [splitCharacter, if_neg (Ne.symm hc), ih hcs]
    rfl

theorem quoteBody_of_splitCharacter {cs : List Char} {p : List Char × List Char}
    (h : splitCharacter cs = some p) :
    ∃ body, p.1 = body ++ ['\''] ∧ '\n' ∉ body ∧ QuoteBody '\'' body ∧
      cs = body ++ '\'' :: p.2 := by
  fun_induction splitCharacter cs generalizing p with
  | case1 => cases h
  | case2 => cases h
  | case3 cs =>
    cases h
    exact ⟨[], rfl, List.not_mem_nil, .nil, rfl⟩
  | case4 => cases h
  | case5 c cs hc ih =>
    obtain ⟨q, hq, rfl⟩ := Option.map_eq_some_iff.1 h
    obtain ⟨body, htext, hline, hbody, hcs⟩ := ih hq
    have hmore : '\n' ∉ '\\' :: c :: body := by
      simp only [List.mem_cons, not_or]
      exact ⟨by decide, Ne.symm hc, hline⟩
    exact ⟨'\\' :: c :: body, by rw [htext]; rfl, hmore, .escape c hbody, by rw [hcs]; rfl⟩
  | case6 c cs hc hquote hescape ih =>
    obtain ⟨q, hq, rfl⟩ := Option.map_eq_some_iff.1 h
    obtain ⟨body, htext, hline, hbody, hcs⟩ := ih hq
    have hsign : c ≠ '\\' := by
      intro hc
      cases cs with
      | nil => cases hq
      | cons d ds => exact hescape d ds hc rfl
    have hmore : '\n' ∉ c :: body := by
      rw [List.mem_cons, not_or]
      exact ⟨Ne.symm hc, hline⟩
    exact ⟨c :: body, by rw [htext]; rfl, hmore, .sign hquote hsign hbody, by rw [hcs]; rfl⟩

/-- **A character literal is closed by its first quote that is not escaped,** if that quote comes
before the end of the line. -/
theorem splitCharacter_eq_some_iff {cs text rest : List Char} :
    splitCharacter cs = some (text, rest) ↔
      ∃ body, text = body ++ ['\''] ∧ '\n' ∉ body ∧ IsFirstQuote '\'' body ∧
        cs = body ++ '\'' :: rest := by
  have hquote : '\'' ≠ '\\' := by decide
  constructor
  · intro h
    obtain ⟨body, htext, hline, hbody, hcs⟩ := quoteBody_of_splitCharacter h
    exact ⟨body, htext, hline, (isFirstQuote_iff_quoteBody hquote).2 hbody, hcs⟩
  · rintro ⟨body, rfl, hline, hbody, rfl⟩
    exact splitCharacter_of_quoteBody ((isFirstQuote_iff_quoteBody hquote).1 hbody) hline rest

/-! ## Block comments -/

/-- A comment is closed by the first end that comes after its opening. -/
theorem splitBlock_of_first {inside : List Char} (h : ¬HasBlockEnd (inside ++ ['*']))
    (rest : List Char) :
    splitBlock (inside ++ '*' :: '/' :: rest) = (inside ++ ['*', '/'], rest) := by
  induction inside with
  | nil => rfl
  | cons c inside ih =>
    rw [List.cons_append, hasBlockEnd_cons, not_or] at h
    obtain ⟨hfront, hinside⟩ := h
    rw [List.cons_append, splitBlock, ih hinside]
    · rfl
    · intro tail hc htail
      refine hfront ⟨hc, ?_⟩
      cases inside with
      | nil => cases htail
      | cons d inside =>
        obtain ⟨rfl, -⟩ := List.cons.inj htail
        rfl

/-- Without an end, the rest of the text is the comment. -/
theorem splitBlock_of_open {text : List Char} (h : ¬HasBlockEnd text) :
    splitBlock text = (text, []) := by
  induction text with
  | nil => rfl
  | cons c text ih =>
    rw [hasBlockEnd_cons, not_or] at h
    obtain ⟨hfront, htext⟩ := h
    rw [splitBlock, ih htext]
    intro tail hc htail
    exact hfront ⟨hc, by rw [htail]; rfl⟩

/-- **A block comment goes on to its first end, or to the end of the text if it has none.** -/
theorem splitBlock_first (cs : List Char) :
    (∃ inside rest, ¬HasBlockEnd (inside ++ ['*']) ∧ cs = inside ++ '*' :: '/' :: rest ∧
        splitBlock cs = (inside ++ ['*', '/'], rest)) ∨
      ¬HasBlockEnd cs ∧ splitBlock cs = (cs, []) := by
  by_cases h : HasBlockEnd cs
  · left
    have hfirst : ∃ inside rest, ¬HasBlockEnd (inside ++ ['*']) ∧
        cs = inside ++ '*' :: '/' :: rest := by
      induction cs with
      | nil => simp [HasBlockEnd] at h
      | cons c cs ih =>
        by_cases hfront : c = '*' ∧ cs.head? = some '/'
        · obtain ⟨rfl, hslash⟩ := hfront
          cases cs with
          | nil => cases hslash
          | cons d cs =>
            cases hslash
            refine ⟨[], cs, ?_, rfl⟩
            simp [HasBlockEnd, List.infix_cons_iff]
        · obtain ⟨inside, rest, hinside, rfl⟩ := ih ((hasBlockEnd_cons.1 h).resolve_left hfront)
          refine ⟨c :: inside, rest, ?_, rfl⟩
          rw [List.cons_append, hasBlockEnd_cons, not_or]
          refine ⟨?_, hinside⟩
          rintro ⟨hc, hslash⟩
          refine hfront ⟨hc, ?_⟩
          cases inside with
          | nil => cases hslash
          | cons d inside => exact hslash
    obtain ⟨inside, rest, hinside, rfl⟩ := hfirst
    exact ⟨inside, rest, hinside, rfl, splitBlock_of_first hinside rest⟩
  · exact .inr ⟨h, splitBlock_of_open h⟩

end Lexeme

end HeaderReflection
