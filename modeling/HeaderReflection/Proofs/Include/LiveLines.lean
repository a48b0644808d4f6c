import HeaderReflection.Include.Directive
import HeaderReflection.Proofs.Tokens.Grammar
import HeaderReflection.Proofs.Tokens.Places

/-!
# Includes that are live code

Includes are told line by line and tokens character by character. Before the `#` of an include its
line has nothing but blanks, so no token that starts on that line holds the `#` unless it starts
with it, and then it is the sign of a directive. Of the tokens that go over a line end only block
comments and strings can hold it (`Piece.over_lines`). So the `#` is a token exactly if no block
comment and no string from a line above goes on up to it (`Include.isLive_iff`), and one in such a
comment is taken for an include all the same (`Include.not_forall_isLive`).
-/

namespace HeaderReflection

/-! ## The token that holds a character -/

namespace Token

/-- The character at this offset is one of the token. -/
def Holds (t : Token) (offset : Nat) : Prop :=
  t.position.offset ≤ offset ∧ offset < t.position.offset + t.text.length

/-- The token starts before a place and goes on past it. -/
def ReachesOver (t : Token) (p : Position) : Prop :=
  t.position.offset < p.offset ∧ p.offset < t.position.offset + t.text.length

theorem ReachesOver.holds {t : Token} {p : Position} (h : t.ReachesOver p) : t.Holds p.offset :=
  ⟨Nat.le_of_lt h.1, h.2⟩

theorem ReachesOver.position_ne {t : Token} {p : Position} (h : t.ReachesOver p) :
    t.position ≠ p := by
  rintro rfl
  exact absurd h.1 (Nat.lt_irrefl _)

/-- A character of the text of several tokens stands in one of them. -/
theorem exists_of_characters_eq {ts : List Token} {front back : List Char} {c : Char}
    (h : characters ts = front ++ c :: back) :
    ∃ before t after u v, ts = before ++ t :: after ∧ t.text.toList = u ++ c :: v ∧
      front = characters before ++ u := by
  induction ts generalizing front with
  | nil => simp [characters] at h
  | cons t ts ih =>
    have hsplit : t.text.toList ++ characters ts = front ++ c :: back := h
    have hlater : ∀ u, front = t.text.toList ++ u → characters ts = u ++ c :: back →
        ∃ before s after u v, t :: ts = before ++ s :: after ∧ s.text.toList = u ++ c :: v ∧
          front = characters before ++ u := by
      intro u hfront hmore
      obtain ⟨before, s, after, u, v, rfl, hs, rfl⟩ := ih hmore
      refine ⟨t :: before, s, after, u, v, rfl, hs, ?_⟩
      rw [hfront, ← List.append_assoc]
      rfl
    rcases List.append_eq_append_iff.1 hsplit with ⟨u, hfront, hmore⟩ | ⟨u, ht, hmore⟩
    · exact hlater u hfront hmore
    · cases u with
      | nil => exact hlater [] (by rw [ht, List.append_nil, List.append_nil]) hmore.symm
      | cons d v =>
        cases hmore
        exact ⟨[], t, ts, front, v, rfl, ht, rfl⟩

/-- A token ends where the next one starts or before. -/
theorem ends_increase {text : String} {ts : List Token} (h : tokenize text = .ok ts) :
    ts.Pairwise fun a b => a.position.offset + a.text.length ≤ b.position.offset := by
  obtain ⟨-, rfl⟩ := tokenize_eq_ok.1 h
  generalize Lexer.withoutReturns text.toList = cs, ({} : Position) = position
  fun_induction Lexer.cuts position cs with
  | case1 position => exact .nil
  | case2 position c cs hcut => exact .nil
  | case3 position c cs lexeme hcut more ih =>
    refine List.pairwise_cons.2 ⟨fun t ht => ?_, ih⟩
    have hstart := (Lexer.offsets_increase_cuts (position.advance lexeme.text) lexeme.rest).1 t ht
    rwa [Position.offset_advance, ← String.length_ofList] at hstart

/-- **No two tokens hold one character.** -/
theorem eq_of_holds {text : String} {ts : List Token} (h : tokenize text = .ok ts) {s t : Token}
    (hs : s ∈ ts) (ht : t ∈ ts) {offset : Nat} (hholds : s.Holds offset) (hholdt : t.Holds offset) :
    s = t := by
  obtain ⟨before, after, rfl⟩ := List.append_of_mem ht
  obtain ⟨-, hafter, hbefore⟩ := List.pairwise_append.1 (ends_increase h)
  rcases List.mem_append.1 hs with hs | hs
  · have hends := hbefore s hs t List.mem_cons_self
    exact absurd hholds.2 (Nat.not_lt.2 (Nat.le_trans hends hholdt.1))
  · rcases List.mem_cons.1 hs with rfl | hs
    · rfl
    · have hends := (List.pairwise_cons.1 hafter).1 s hs
      exact absurd hholdt.2 (Nat.not_lt.2 (Nat.le_trans hends hholds.1))

end Token

/-! ## Pieces that hold the sign of a directive -/

/-- The token is a comment that may go over several lines. -/
def Token.IsBlockComment (t : Token) : Prop := t.kind = .comment ∧ ['/', '*'] <+: t.text.toList

/-- A piece that starts with `#` is the sign of a directive. -/
theorem Piece.eq_hash {kind : TokenKind} {v rest : List Char} (h : Piece kind ('#' :: v) rest) :
    kind = .hash := by
  have hsign : Piece .hash ['#'] (v ++ rest) :=
    .sign ⟨by decide, rfl, by decide, nofun, nofun, nofun⟩ (TokenKind.classified_sign_iff.2 rfl)
  exact (h.unique hsign rfl).1

/-- **A piece with blanks alone between its last line end and a `#` in it** is a block comment or a
string, and it has a line end before the `#`. -/
theorem Piece.over_lines {kind : TokenKind} {u v rest : List Char}
    (h : Piece kind (u ++ '#' :: v) rest) (hu : u ≠ [])
    (hgap : '\n' ∉ u → ∀ c ∈ u, Include.isGap c = true) :
    '\n' ∈ u ∧ (kind = .comment ∧ ['/', '*'] <+: u ++ '#' :: v ∨ kind = .stringLiteral) := by
  obtain ⟨d, u, rfl⟩ := List.exists_cons_of_ne_nil hu
  -- A piece that starts with no blank has left the line that it starts on before it comes to
  -- the `#`.
  have hline : Include.isGap d = false → '\n' ∈ d :: u := by
    intro hd
    refine Classical.byContradiction fun hnone => ?_
    have hblank := hgap hnone d List.mem_cons_self
    rw [hd] at hblank
    cases hblank
  have hhash : '#' ∈ u ++ '#' :: v := List.mem_append_right _ List.mem_cons_self
  have hmem : '\n' ∈ d :: u → d ≠ '\n' → '\n' ∈ u ++ '#' :: v := fun hline hd =>
    List.mem_append_left _ ((List.mem_cons.1 hline).resolve_left (Ne.symm hd))
  rw [List.cons_append] at h ⊢
  generalize htext : d :: (u ++ '#' :: v) = text at h ⊢
  cases h with
  | blank | lineEnd | quote | sign =>
    obtain ⟨-, hnil⟩ := List.cons.inj htext
    simp at hnil
  | attributeOpen | attributeClose =>
    obtain ⟨-, hsecond⟩ := List.cons.inj htext
    rw [hsecond] at hhash
    exact absurd hhash (by decide)
  | @lineComment body rest hbody =>
    obtain ⟨rfl, hmore⟩ := List.cons.inj htext
    have hnone := hmem (hline rfl) (by decide)
    rw [hmore] at hnone
    exact absurd ((List.mem_cons.1 hnone).resolve_left (by decide)) hbody
  | @character body rest hbody h =>
    obtain ⟨rfl, hmore⟩ := List.cons.inj htext
    have hnone := hmem (hline rfl) (by decide)
    rw [hmore] at hnone
    exact absurd ((List.mem_append.1 hnone).resolve_right (by decide)) hbody
  | blockComment h | openBlock h =>
    obtain ⟨rfl, -⟩ := List.cons.inj htext
    exact ⟨hline rfl, .inl ⟨rfl, _, rfl⟩⟩
  | string h =>
    obtain ⟨rfl, -⟩ := List.cons.inj htext
    exact ⟨hline rfl, .inr rfl⟩
  | number hdigits =>
    obtain ⟨rfl, hmore⟩ := List.cons.inj htext
    rw [hmore] at hhash
    exact absurd (hdigits '#' (List.mem_cons_of_mem _ hhash)) (by decide)
  | word hstart hrun =>
    obtain ⟨rfl, hmore⟩ := List.cons.inj htext
    rw [hmore] at hhash
    exact absurd (hrun '#' hhash) (by decide)

/-! ## Lines with includes -/

namespace Text

/-- Pieces with the separator between them: those before one have it after them, and those after it
have it before them. -/
theorem intercalate_append_cons (separator : Char) (before : List (List Char)) (piece : List Char)
    (after : List (List Char)) :
    [separator].intercalate (before ++ piece :: after) =
      before.flatMap (· ++ [separator]) ++ (piece ++ after.flatMap (separator :: ·)) := by
  induction before with
  | nil =>
    rw [List.nil_append, List.flatMap_nil, List.nil_append]
    induction after generalizing piece with
    | nil => rw [List.intercalate_singleton, List.flatMap_nil, List.append_nil]
    | cons next after ih =>
      rw [List.intercalate_cons_cons, ih, List.flatMap_cons, List.append_assoc]
      rfl
  | cons first before ih =>
    have hne : before ++ piece :: after ≠ [] :=
      List.append_ne_nil_of_right_ne_nil _ (List.cons_ne_nil _ _)
    rw [List.cons_append, List.intercalate_cons_of_ne_nil hne, ih, List.flatMap_cons,
      List.append_assoc (first ++ [separator])]

end Text

namespace Include

/-- A line of a text that includes something. -/
structure Site (text : List Char) where
  /-- The lines above it. -/
  above : List (List Char)
  /-- The line itself. -/
  line : List Char
  /-- The lines below it. -/
  below : List (List Char)
  /-- What it includes, with the blanks around it. -/
  target : List Char
  split_eq : text.splitOn '\n' = above ++ line :: below
  ofLine?_eq : ofLine? line = some target

namespace Site

variable {text : List Char} (site : Site text)

/-- What the line includes. -/
def included : String := .ofList (Unicode.trim site.target)

/-- The text before the `#` of the line. -/
def front : List Char := site.above.flatMap (· ++ ['\n']) ++ site.line.takeWhile isGap

/-- The place of the `#`. Carriage returns do not count. -/
def hash : Position := .past (Lexer.withoutReturns site.front)

/-- The `#` is a token that starts a directive. -/
def IsLive (ts : List Token) : Prop := ∃ t ∈ ts, t.kind = .hash ∧ t.position = site.hash

/-- After the blanks of the line comes the `#`. -/
theorem text_eq : ∃ back, text = site.front ++ '#' :: back := by
  have hlines : text = site.above.flatMap (· ++ ['\n']) ++
      (site.line ++ site.below.flatMap ('\n' :: ·)) := by
    rw [← Text.intercalate_append_cons, ← site.split_eq, List.intercalate_splitOn]
  have hhash : ∃ back, site.line.dropWhile isGap = '#' :: back := by
    have hline := site.ofLine?_eq
    unfold ofLine? at hline
    split at hline
    next back hdrop => exact ⟨back, hdrop⟩
    · cases hline
  obtain ⟨back, hback⟩ := hhash
  have hwhole : site.line.takeWhile isGap ++ '#' :: back = site.line := by
    rw [← hback, List.takeWhile_append_dropWhile]
  refine ⟨back ++ site.below.flatMap ('\n' :: ·), hlines.trans ?_⟩
  rw [front, List.append_assoc, ← List.cons_append,
    ← List.append_assoc (site.line.takeWhile isGap), hwhole]

/-- The lines above end with a line end, if there are any. -/
theorem above_ends : Lexer.withoutReturns (site.above.flatMap (· ++ ['\n'])) = [] ∨
    ∃ lines, Lexer.withoutReturns (site.above.flatMap (· ++ ['\n'])) = lines ++ ['\n'] := by
  rcases List.eq_nil_or_concat site.above with hnil | ⟨lines, last, habove⟩
  · rw [hnil]
    exact .inl rfl
  · refine .inr ⟨Lexer.withoutReturns (lines.flatMap (· ++ ['\n']) ++ last), ?_⟩
    rw [habove, List.concat_eq_append, List.flatMap_append, List.flatMap_singleton,
      ← List.append_assoc, Lexer.withoutReturns, List.filter_append]
    rfl

/-- What ends the text before the `#`, without a line end in it, is made of blanks. -/
theorem isGap_of_suffix {u : List Char} (hu : u <:+ Lexer.withoutReturns site.front)
    (hline : '\n' ∉ u) : ∀ c ∈ u, isGap c = true := by
  rw [front, Lexer.withoutReturns, List.filter_append] at hu
  have hblank : ∀ c ∈ (site.line.takeWhile isGap).filter (· ≠ '\r'), isGap c = true :=
    fun c hc => List.all_eq_true.1 List.all_takeWhile c (List.mem_filter.1 hc).1
  rcases List.suffix_or_suffix_of_suffix hu (List.suffix_append _ _) with hwithin | ⟨v, rfl⟩
  · exact fun c hc => hblank c (hwithin.mem hc)
  · have hv := List.suffix_append_self_iff.1 hu
    have hnil : v = [] := by
      rcases site.above_ends with habove | ⟨lines, habove⟩
      · rw [Lexer.withoutReturns] at habove
        rw [habove] at hv
        exact List.suffix_nil.1 hv
      · rw [Lexer.withoutReturns] at habove
        rw [habove] at hv
        refine (List.suffix_concat_iff.1 hv).resolve_right ?_
        rintro ⟨w, rfl, -⟩
        exact hline (by simp)
    rw [hnil]
    exact hblank

end Site

theorem mem_allOfString_iff {text : String} {included : String} :
    included ∈ allOfString text ↔ ∃ site : Site text.toList, site.included = included := by
  constructor
  · intro h
    obtain ⟨trimmed, htrimmed, rfl⟩ := List.mem_map.1 h
    obtain ⟨target, htarget, rfl⟩ := List.mem_map.1 htrimmed
    obtain ⟨line, hline, hincludes⟩ := List.mem_filterMap.1 htarget
    obtain ⟨above, below, hsplit⟩ := List.append_of_mem hline
    exact ⟨⟨above, line, below, target, hsplit, hincludes⟩, rfl⟩
  · rintro ⟨site, rfl⟩
    have hline : site.line ∈ text.toList.splitOn '\n' := by
      rw [site.split_eq]
      exact List.mem_append_right _ List.mem_cons_self
    exact List.mem_map_of_mem (List.mem_map_of_mem
      (List.mem_filterMap.2 ⟨site.line, hline, site.ofLine?_eq⟩))

/-! ## Where the sign of a directive stands -/

namespace Site

variable {text : String} {ts : List Token}

/-- The token that holds the `#` starts with it, or is a block comment or a string from a line
above. -/
theorem exists_holder (h : tokenize text = .ok ts) (site : Site text.toList) :
    ∃ t ∈ ts, t.Holds site.hash.offset ∧
      (t.kind = .hash ∧ t.position = site.hash ∨ t.ReachesOver site.hash ∧
        t.position.line < site.hash.line ∧ (t.IsBlockComment ∨ t.kind = .stringLiteral)) := by
  obtain ⟨-, hcharacters, hplace⟩ := tokenize_lossless h
  obtain ⟨back, hback⟩ := site.text_eq
  have hsplit : Token.characters ts =
      Lexer.withoutReturns site.front ++ '#' :: Lexer.withoutReturns back := by
    rw [hcharacters]
    conv => lhs; rw [hback, Lexer.withoutReturns, List.filter_append]
    rfl
  obtain ⟨before, t, after, u, v, hts, htext, hfront⟩ := Token.exists_of_characters_eq hsplit
  have ht : t ∈ ts := hts ▸ List.mem_append_right _ List.mem_cons_self
  have hposition := hplace before t after hts
  have hhash : site.hash = t.position.advance u := by
    rw [hash, hfront, hposition, Position.advance_past]
  have hlength : t.text.length = u.length + (v.length + 1) := by
    rw [← String.length_toList, htext, List.length_append, List.length_cons]
  have hoffset : site.hash.offset = t.position.offset + u.length := by
    rw [hhash, Position.offset_advance]
  obtain ⟨rest, hpiece⟩ :=
    ((cutting_iff_pieces h _).2 rfl).piece_of_mem (List.mem_map_of_mem ht)
  have hpiece : Piece t.kind (u ++ '#' :: v) rest := htext ▸ hpiece
  refine ⟨t, ht, ⟨by omega, by omega⟩, ?_⟩
  -- `u` is what the token has before the `#`.
  by_cases hu : u = []
  · subst hu
    exact .inl ⟨hpiece.eq_hash, hhash.symm⟩
  · have hsuffix : u <:+ Lexer.withoutReturns site.front := hfront ▸ List.suffix_append _ _
    obtain ⟨hline, hkind⟩ := hpiece.over_lines hu (site.isGap_of_suffix hsuffix)
    have hfirst := List.length_pos_iff.2 hu
    refine .inr ⟨⟨by omega, by omega⟩, ?_, ?_⟩
    · have hcount := List.count_pos_iff.2 hline
      rw [hash, hfront, hposition]
      simp only [Position.past, List.count_append]
      omega
    · rw [Token.IsBlockComment, htext]
      exact hkind

end Site

/-- **When the `#` of an include is a token.** The includes of a text with tokens are those of its
sites. The `#` of a site is the sign of a directive exactly if no token from before goes on over it,
and a token that does is a block comment or a string that starts on a line above: never a comment
that ends with its line, and never anything that starts on the line of the `#`. -/
theorem isLive_iff {text : String} {ts : List Token} (h : tokenize text = .ok ts) :
    (∀ included, included ∈ allOfString text ↔
      ∃ site : Site text.toList, site.included = included) ∧
    ∀ site : Site text.toList,
      (site.IsLive ts ↔ ∀ t ∈ ts, ¬t.ReachesOver site.hash) ∧
      ∀ t ∈ ts, t.ReachesOver site.hash →
        t.position.line < site.hash.line ∧ (t.IsBlockComment ∨ t.kind = .stringLiteral) := by
  refine ⟨fun _ => mem_allOfString_iff, fun site => ?_⟩
  obtain ⟨holder, hholder, hholds, hcases⟩ := site.exists_holder h
  have hover : ∀ t ∈ ts, t.ReachesOver site.hash → t = holder := fun t ht hreaches =>
    Token.eq_of_holds h ht hholder hreaches.holds hholds
  have hstarts : ∀ t ∈ ts, t.position = site.hash → t = holder := by
    intro t ht hposition
    have hlength : 0 < t.text.length :=
      Nat.pos_of_ne_zero (mt String.length_eq_zero_iff.1 ((tokenize_lossless h).1 t ht))
    rw [← hposition] at hholds
    exact Token.eq_of_holds h ht hholder ⟨Nat.le_refl _, by omega⟩ hholds
  refine ⟨⟨?_, fun hnone => ?_⟩, fun t ht hreaches => ?_⟩
  · rintro ⟨t, ht, -, hposition⟩ s hs hreaches
    refine hreaches.position_ne ?_
    rw [hover s hs hreaches, ← hstarts t ht hposition, hposition]
  · obtain ⟨hkind, hposition⟩ := hcases.resolve_right fun hcase => hnone holder hholder hcase.1
    exact ⟨holder, hholder, hkind, hposition⟩
  · obtain rfl := hover t ht hreaches
    exact (hcases.resolve_left fun hcase => hreaches.position_ne hcase.2).2

/-- A header in a comment of one line, one that is live, and one in a comment over several lines. -/
theorem isLive_iff_commented :
    ∃ ts, tokenize "// #include <no.h>\n #include <a.h>\n/*\n#include <b.h>\n*/" = .ok ts ∧
      allOfString "// #include <no.h>\n #include <a.h>\n/*\n#include <b.h>\n*/" = ["a.h", "b.h"] ∧
      (∀ included,
        included ∈ allOfString "// #include <no.h>\n #include <a.h>\n/*\n#include <b.h>\n*/" ↔
          ∃ site : Site "// #include <no.h>\n #include <a.h>\n/*\n#include <b.h>\n*/".toList,
            site.included = included) ∧
      ∀ site : Site "// #include <no.h>\n #include <a.h>\n/*\n#include <b.h>\n*/".toList,
        (site.IsLive ts ↔ ∀ t ∈ ts, ¬t.ReachesOver site.hash) ∧
        ∀ t ∈ ts, t.ReachesOver site.hash →
          t.position.line < site.hash.line ∧ (t.IsBlockComment ∨ t.kind = .stringLiteral) := by
  have hend : (Lexer.cuts {} (Lexer.withoutReturns
      "// #include <no.h>\n #include <a.h>\n/*\n#include <b.h>\n*/".toList)).error = none := by
    decide +kernel
  have h := tokenize_eq_ok.2 ⟨hend, rfl⟩
  exact ⟨_, h, by decide +kernel, isLive_iff h⟩

/-- A header in a comment over several lines is included, though its `#` is no token. -/
theorem not_forall_isLive :
    ¬∀ (text : String) (ts : List Token), tokenize text = .ok ts →
      ∀ included ∈ allOfString text,
        ∃ site : Site text.toList, site.included = included ∧ site.IsLive ts := by
  intro hall
  have htokens : tokenize "/*\n#include <a.h>\n*/" =
      .ok [⟨.comment, "/*\n#include <a.h>\n*/", ⟨0, 1, 1⟩⟩] := by
    rw [tokenize_eq_ok]
    decide +kernel
  obtain ⟨site, -, t, ht, hkind, -⟩ := hall _ _ htokens "a.h" (by decide +kernel)
  rw [List.mem_singleton.1 ht] at hkind
  cases hkind

end Include

end HeaderReflection
