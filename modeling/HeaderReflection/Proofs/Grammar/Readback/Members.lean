import HeaderReflection.Grammar.Members
import HeaderReflection.Proofs.Grammar.Readback.Attributes

/-!
# Reading types, members and classes back

The end of a type is found by looking ahead: a word belongs to the type if something goes on after
it (`GoesOn`), so in a well-formed member everything up to the name is the type and the name is not.
-/

namespace HeaderReflection

theorem GoesOn.append {ts : List Token} (h : GoesOn ts) (rest : List Token) :
    GoesOn (ts ++ rest) := by
  cases ts with
  | nil => exact h.elim
  | cons t ts =>
    refine h.imp_right ?_
    rintro ⟨ht, u, hu, hcolon⟩
    cases ts with
    | nil => cases hu
    | cons v ts => exact ⟨ht, u, hu, hcolon⟩

theorem not_goesOn_cons {t : Token} (hidentifier : t.kind ≠ .identifier) (hcolon : t.kind ≠ .colon)
    (ts : List Token) : ¬GoesOn (t :: ts) := by
  rintro (⟨hkind, -⟩ | ⟨hkind, -⟩)
  · exact hidentifier hkind
  · exact hcolon hkind

theorem Token.ne_angle_of_isWord {t : Token} (h : t.isWord = true) :
    t.text ≠ "<" ∧ ¬t.IsPointerSign := by
  refine ⟨?_, ?_⟩
  · intro htext
    rw [isWord, htext] at h
    revert h
    decide
  · rintro (htext | htext)
    · rw [isWord, htext] at h
      revert h
      decide
    · rw [isWord, htext] at h
      revert h
      decide

theorem Token.IsSign.ne_angle {c : Char} {t : Token} (h : t.IsSign c) (hc : c ≠ '<') :
    t.text ≠ "<" := by
  rw [h.text]
  intro htext
  exact hc (String.singleton_inj.1 htext)

namespace Parser

/-! ## Types -/

theorem splitAngles_of_isGroup {g : List Token} (hg : IsGroup (·.text = "<") (·.text = ">") g)
    (rest : List Token) : splitAngles (g ++ rest) = (g, rest) := by
  have hstart : ∃ t ∈ (g ++ rest).head?, decide (t.text = "<") = true := by
    obtain ⟨t, ts, rfl, htext⟩ := hg.exists_cons
    exact ⟨t, rfl, htext⟩
  rw [splitAngles, (splitGroup_eq_some_iff angles_disjoint hstart).2 ⟨rfl, hg⟩]
  rfl

theorem typeSuffix_of_suffix {name : Token} {ts rest : List Token} (h : TypeName.Suffix name ts)
    (hname : name.kind = .identifier) (hrest : ¬GoesOn rest) :
    typeSuffix (ts ++ name :: rest) = (ts, name :: rest) := by
  -- Each way to go on is a branch of the reading; its side conditions exclude the branches before.
  induction h with
  | nil hangle hsign =>
    have hscope : startsScope (name :: rest) = false := startsScope_of_kind (by simp [hname]) rest
    have hends : continuesType (name :: rest) = false := by
      rw [Bool.eq_false_iff]
      intro hgo
      exact hrest (continuesType_cons.1 hgo).2.2
    unfold Token.IsPointerSign at hsign
    rw [List.nil_append, typeSuffix, if_neg hangle, if_neg hsign, if_neg (by simp [hscope]),
      if_neg (by simp [hends])]
  | @angles g ts hg h ih =>
    have hsplit := splitAngles_of_isGroup hg (ts ++ name :: rest)
    obtain ⟨t, g, rfl, htext⟩ := hg.exists_cons
    rw [List.append_assoc, List.cons_append, typeSuffix, if_pos (of_decide_eq_true htext)]
    rw [List.cons_append] at hsplit
    simp only [hsplit, ih]
  | @sign t ts ht h ih =>
    have hangle : t.text ≠ "<" := by
      rcases ht with ht | ht <;> (rw [ht]; decide)
    unfold Token.IsPointerSign at ht
    rw [List.cons_append, typeSuffix, if_neg hangle, if_pos ht]
    simp only [ih]
  | @part c d t ts hc hangle hsign hd ht h ih =>
    have hscope : (startsScope (c :: d :: t :: (ts ++ name :: rest)) &&
        nextIs .identifier ((d :: t :: (ts ++ name :: rest)).drop 1)) = true := by
      simp [startsScope, hc, hd, ht]
    unfold Token.IsPointerSign at hsign
    show typeSuffix (c :: d :: t :: (ts ++ name :: rest)) = _
    rw [typeSuffix, if_neg hangle, if_neg hsign, if_pos hscope]
    simp only [List.drop_succ_cons, List.drop_zero, ih]
    rfl
  | @word t ts hkind hword hnext h ih =>
    obtain ⟨hangle, hsign⟩ := Token.ne_angle_of_isWord hword
    have hscope : startsScope (t :: (ts ++ name :: rest)) = false :=
      startsScope_of_kind (by simp [hkind]) _
    have hgoes : continuesType (t :: (ts ++ name :: rest)) = true := by
      refine continuesType_cons.2 ⟨hkind, hword, ?_⟩
      have := hnext.append rest
      rwa [List.append_assoc] at this
    unfold Token.IsPointerSign at hsign
    rw [List.cons_append, typeSuffix, if_neg hangle, if_neg hsign, if_neg (by simp [hscope]),
      if_pos hgoes]
    simp only [ih]

theorem startsScope_append {ts : List Token} {t : Token} (hts : startsScope ts = false)
    (ht : t.kind ≠ .colon) (rest : List Token) : startsScope (ts ++ t :: rest) = false := by
  cases ts with
  | nil => exact startsScope_of_kind ht rest
  | cons u ts =>
    cases ts with
    | nil => simp [startsScope, ht]
    | cons v ts => exact hts

theorem typeHead_auto {t : Token} (ht : t.kind = .autoKeyword) (ts : List Token) :
    typeHead (t :: ts) = .ok ⟨[⟨t, .identifier⟩]⟩ ts := by
  rw [typeHead, if_pos (by simp [ht]), expect_cons ht, Reading.map_ok]

/-- A type starts with `auto` or with an identifier. -/
theorem head_type {type : TypeName} {name : Token} {head : List Token}
    (hspelled : type.head.Spelled head) (htype : type.WellFormed name) :
    ∃ t more, head = t :: more ∧ (t.kind = .autoKeyword ∨ t.kind = .identifier) := by
  rcases htype.head with ⟨t, ht, hauto⟩ | ⟨hwell, -⟩
  · rw [hauto] at hspelled
    obtain ⟨⟨⟩⟩ := hspelled
    exact ⟨t, [], rfl, .inl ht⟩
  · obtain ⟨t, more, hts, ht⟩ := head_of_spelled hspelled hwell
    exact ⟨t, more, hts, .inr ht⟩

theorem typeName_of_spelled {type : TypeName} {name : Token} {head rest : List Token}
    (hspelled : type.head.Spelled head) (htype : type.WellFormed name)
    (hname : name.kind = .identifier) (hrest : ¬GoesOn rest) :
    typeName (head ++ (type.suffix ++ name :: rest)) = .ok type (name :: rest) := by
  have hsuffix := typeSuffix_of_suffix htype.suffix hname hrest
  have hhead : typeHead (head ++ (type.suffix ++ name :: rest)) =
      .ok type.head (type.suffix ++ name :: rest) := by
    rcases htype.head with ⟨t, ht, hauto⟩ | ⟨hwell, hscope⟩
    · rw [hauto] at hspelled ⊢
      obtain ⟨⟨⟩⟩ := hspelled
      exact typeHead_auto ht _
    · obtain ⟨t, more, hts, ht⟩ := head_of_spelled hspelled hwell
      have hauto : nextIs .autoKeyword (head ++ (type.suffix ++ name :: rest)) = false := by
        rw [hts, List.cons_append, nextIs_cons, ht]
        decide
      rw [typeHead, if_neg (by simp [hauto])]
      exact qualifiedName_of_spelled hspelled hwell
        (startsScope_append hscope (by simp [hname]) rest)
  refine bind_eq_ok.2 ⟨type.head, _, hhead, ?_⟩
  show EStateM.Result.ok _ _ = _
  rw [hsuffix]

/-! ## Members -/

theorem signature_of_isGroup {ts : Option (List Token)} {rest : List Token}
    (hts : ∀ g ∈ ts, IsGroup (·.kind = .openParen) (·.kind = .closeParen) g)
    (hrest : nextIs .openParen rest = false) :
    signature (ts.getD [] ++ rest) = .ok ts rest := by
  cases ts with
  | none => exact if_neg (by simp [hrest])
  | some g =>
    have hg := hts g rfl
    obtain ⟨t, g, rfl, hkind⟩ := hg.exists_cons
    have hstart : ∃ u ∈ (t :: g ++ rest).head?, decide (u.kind = .openParen) = true :=
      ⟨t, rfl, hkind⟩
    rw [Option.getD_some, signature, if_pos (by simpa using hkind), group,
      (splitGroup_eq_some_iff parens_disjoint hstart).2 ⟨rfl, hg⟩]
    rfl

/-- Neither a parameter list nor a semicolon shows that the name before it goes on. -/
theorem not_goesOn_signature {ts : Option (List Token)} {semicolon : Token}
    (hts : ∀ g ∈ ts, IsGroup (·.kind = .openParen) (·.kind = .closeParen) g)
    (hsemicolon : semicolon.kind = .semicolon) (rest : List Token) :
    ¬GoesOn (ts.getD [] ++ semicolon :: rest) := by
  cases ts with
  | none => exact not_goesOn_cons (by simp [hsemicolon]) (by simp [hsemicolon]) rest
  | some g =>
    obtain ⟨t, g, rfl, hkind⟩ := (hts g rfl).exists_cons
    have hparen : t.kind = .openParen := of_decide_eq_true hkind
    exact not_goesOn_cons (by simp [hparen]) (by simp [hparen]) _

/-- A member starts with the brackets of its first attributes. -/
theorem head_member {m : Member} {ts : List Token} (hspelled : m.Spelled ts) (hm : m.WellFormed) :
    ∃ t more, ts = t :: more ∧ t.kind = .attributeOpen := by
  obtain ⟨hgroups, hhead⟩ := hspelled
  generalize hall : m.attributes = all at hgroups
  cases hgroups with
  | nil => exact absurd hall hm.annotated
  | @cons group groups ts rest h hrest =>
    obtain ⟨hdefault, hattributes⟩ := h
    refine ⟨group.opening, _, rfl, (hm.attributes group ?_).opening⟩
    rw [hall]
    exact List.mem_cons_self

theorem member_of_spelled {m : Member} {ts : List Token} {semicolon : Token}
    (hspelled : m.Spelled ts) (hm : m.WellFormed) (hsemicolon : semicolon.IsSign ';')
    (rest : List Token) : member (ts ++ semicolon :: rest) = .ok m (semicolon :: rest) := by
  have hkind : semicolon.kind = .semicolon := hsemicolon.kind
  obtain ⟨attributes, type, name, sig⟩ := m
  obtain ⟨hgroups, hhead⟩ := hspelled
  next groups head =>
    have hnameKind := hm.name.token
    have hafter := not_goesOn_signature hm.signature hkind rest
    have hnext : nextIs .attributeOpen
        (head ++ (type.suffix ++ name.token :: (sig.getD [] ++ semicolon :: rest))) = false := by
      obtain ⟨t, more, rfl, ht | ht⟩ := head_type hhead hm.type
      · simp [ht]
      · simp [ht]
    have happend : groups ++ (head ++ (type.suffix ++ name.token :: sig.getD [])) ++
        semicolon :: rest = groups ++ (head ++ (type.suffix ++ name.token ::
          (sig.getD [] ++ semicolon :: rest))) := by simp
    have hread₁ := attributeSequences_of_spelled hgroups hm.attributes hnext
    have hread₂ := typeName_of_spelled hhead hm.type hnameKind hafter
    have hread₃ := signature_of_isGroup hm.signature
      (show nextIs .openParen (semicolon :: rest) = false by simp [hkind])
    rw [happend]
    refine bind_eq_ok.2 ⟨attributes, _, hread₁, bind_eq_ok.2 ⟨type, _, hread₂, ?_⟩⟩
    refine bind_eq_ok.2 ⟨name, _, identifier_cons hm.name _, ?_⟩
    exact bind_eq_ok.2 ⟨sig, _, hread₃, rfl⟩

theorem members_closing {t : Token} (ht : t.kind = .closeBrace) (ts : List Token) :
    members 0 (t :: ts) = .ok [] ts := by
  rw [members, if_neg (by simp [ht]), if_pos ht]

/-- A token that is no brace is skipped, if it starts no member. -/
theorem members_skip {inner : Nat} {t : Token}
    (hbrace : t.kind ≠ .openBrace ∧ t.kind ≠ .closeBrace)
    (hmember : t.kind ≠ .attributeOpen ∨ inner ≠ 0) (ts : List Token) :
    members inner (t :: ts) = members inner ts := by
  have hnot : ¬(t.kind = .attributeOpen ∧ inner = 0) := fun h => hmember.elim (· h.1) (· h.2)
  -- a colon that is dropped after an access keyword would have been skipped anyway
  have hcolon : members inner (skipColon ts) = members inner ts := by
    cases ts with
    | nil => rfl
    | cons u ts =>
      by_cases hu : u.kind = .colon
      · rw [skipColon, if_pos (by simp [hu]), List.tail_cons, members_cons inner u ts]
        simp [hu, TokenKind.isAccess]
      · rw [skipColon, if_neg (by simp [hu])]
  rw [members_cons, if_neg hbrace.1, if_neg hbrace.2, hcolon, if_neg hnot]
  split <;> rfl

/-- At the brackets of attributes a member is read. -/
theorem members_member {t : Token} {ts rest : List Token} {m : Member}
    (ht : t.kind = .attributeOpen) (h : member (t :: ts) = .ok m rest) :
    members 0 (t :: ts) = Reading.map (m :: ·) (members 0 rest) := by
  rw [members_cons, if_neg (by simp [ht]), if_neg (by simp [ht]),
    if_neg (by simp [ht, TokenKind.isAccess]), if_pos ⟨ht, rfl⟩, h]

theorem members_of_spelled {ms : List Member} {ts : List Token} {closing : Token}
    (hspelled : Member.SpelledAll ms ts) (hms : ∀ m ∈ ms, m.WellFormed)
    (hclosing : closing.kind = .closeBrace) (rest : List Token) :
    members 0 (ts ++ closing :: rest) = .ok ms rest := by
  induction hspelled with
  | nil => exact members_closing hclosing rest
  | @cons m ms ts more semicolon h hsemicolon hmore ih =>
    have hm := hms m List.mem_cons_self
    obtain ⟨t, tail, hts, ht⟩ := head_member h hm
    have hread := member_of_spelled h hm hsemicolon (more ++ closing :: rest)
    rw [List.append_assoc, List.cons_append]
    rw [hts, List.cons_append] at hread ⊢
    have hkind : semicolon.kind = .semicolon := hsemicolon.kind
    rw [members_member ht hread, members_skip (by simp [hkind]) (.inl (by simp [hkind])),
      ih fun m' hm' => hms m' (List.mem_cons_of_mem _ hm'), Reading.map_ok]

/-! ## Classes -/

theorem skipAngles_of_text {t : Token} (h : t.text ≠ "<") (ts : List Token) :
    skipAngles (t :: ts) = t :: ts := by
  rw [skipAngles, if_neg (by simp [h])]

/-- Nothing is skipped before the name of a base. -/
theorem skipAccess_base {name : QualifiedName} {ts : List Token} (hspelled : name.Spelled ts)
    (hname : name.IsBase) (rest : List Token) : skipAccess (ts ++ rest) = ts ++ rest := by
  obtain ⟨h⟩ := hspelled
  next l ls ts =>
    have hkind := (hname.wellFormed.parts l List.mem_cons_self).token
    have htext := hname.notVirtual l rfl
    rw [skipAccess, List.cons_append, List.dropWhile_cons_of_neg]
    simp [hkind, htext, TokenKind.isAccess]

theorem bases_last {name : QualifiedName} {t : Token} {ts rest : List Token}
    (hread : qualifiedName (skipAccess ts) = .ok name (t :: rest)) (htext : t.text ≠ "<")
    (hkind : t.kind ≠ .comma) : bases ts = .ok [name] (t :: rest) := by
  rw [bases_eq, hread]
  dsimp only
  rw [skipAngles_of_text htext, if_neg (by simp [hkind])]

theorem bases_more {name : QualifiedName} {t : Token} {ts rest : List Token}
    (hread : qualifiedName (skipAccess ts) = .ok name (t :: rest)) (htext : t.text ≠ "<")
    (hkind : t.kind = .comma) : bases ts = Reading.map (name :: ·) (bases rest) := by
  rw [bases_eq, hread]
  dsimp only
  rw [skipAngles_of_text htext, if_pos (by simp [hkind]), List.tail_cons]

/-- A base that is followed by a sign that is no colon is read back. -/
theorem base_of_spelled {name : QualifiedName} {ts : List Token} {t : Token}
    (hspelled : name.Spelled ts) (hname : name.IsBase) (ht : t.kind ≠ .colon) (rest : List Token) :
    qualifiedName (skipAccess (ts ++ t :: rest)) = .ok name (t :: rest) := by
  rw [skipAccess_base hspelled hname]
  exact qualifiedName_of_spelled hspelled hname.wellFormed (startsScope_of_kind ht rest)

theorem bases_of_separated {names : List QualifiedName} {ts : List Token} {opening : Token}
    (hspelled : Separated QualifiedName.Spelled names ts) (hnames : ∀ name ∈ names, name.IsBase)
    (hopening : opening.IsSign '\x7b') (rest : List Token) :
    bases (ts ++ opening :: rest) = .ok names (opening :: rest) := by
  have hbrace : opening.kind = .openBrace := hopening.kind
  induction hspelled with
  | @last name ts h =>
    have hread := base_of_spelled h (hnames name List.mem_cons_self)
      (show opening.kind ≠ .colon by simp [hbrace]) rest
    exact bases_last hread (hopening.ne_angle (by decide)) (by simp [hbrace])
  | @more name names ts more comma h hcomma hmore ih =>
    have hkind : comma.kind = .comma := hcomma.kind
    have hread := base_of_spelled h (hnames name List.mem_cons_self)
      (show comma.kind ≠ .colon by simp [hkind]) (more ++ opening :: rest)
    rw [List.append_assoc, List.cons_append,
      bases_more hread (hcomma.ne_angle (by decide)) hkind,
      ih fun n hn => hnames n (List.mem_cons_of_mem _ hn), Reading.map_ok]

/-- A base clause starts with one colon, not with two. -/
theorem startsScope_bases {names : List QualifiedName} {ts : List Token} {opening : Token}
    (hspelled : ClassDeclaration.SpelledBases names ts) (hnames : ∀ name ∈ names, name.IsBase)
    (hopening : opening.kind = .openBrace) (rest : List Token) :
    startsScope (ts ++ opening :: rest) = false := by
  cases hspelled with
  | nil => exact startsScope_of_kind (by simp [hopening]) rest
  | @some colon names ts hcolon h =>
    have hhead : ∃ t more, ts = t :: more ∧ t.kind = .identifier := by
      cases h with
      | last h => exact head_of_spelled h (hnames _ List.mem_cons_self).wellFormed
      | more h _ _ =>
        obtain ⟨t, more, hts, ht⟩ := head_of_spelled h (hnames _ List.mem_cons_self).wellFormed
        exact ⟨t, _, by rw [hts]; rfl, ht⟩
    obtain ⟨t, more, hts, ht⟩ := hhead
    rw [hts]
    simp [startsScope, ht]

theorem baseClause_of_spelled {names : List QualifiedName} {ts : List Token} {opening : Token}
    (hspelled : ClassDeclaration.SpelledBases names ts) (hnames : ∀ name ∈ names, name.IsBase)
    (hopening : opening.IsSign '\x7b') (rest : List Token) :
    baseClause (ts ++ opening :: rest) = .ok names (opening :: rest) := by
  have hbrace : opening.kind = .openBrace := hopening.kind
  have hscope := startsScope_bases hspelled hnames hbrace rest
  cases hspelled with
  | nil => rw [List.nil_append, baseClause, if_neg (by simp [hbrace])]
  | @some colon names ts hcolon h =>
    have hkind : colon.kind = .colon := hcolon.kind
    have hnext : (nextIs .colon (colon :: (ts ++ opening :: rest)) &&
        !nextIs .colon (colon :: (ts ++ opening :: rest)).tail) = true := by
      rw [List.cons_append, startsScope, nextIs_cons] at hscope
      rw [nextIs_cons]
      simpa [hkind] using hscope
    rw [List.cons_append, baseClause, if_pos hnext]
    exact bases_of_separated h hnames hopening rest

theorem classDeclaration_of_spelled {c : ClassDeclaration} {ts : List Token}
    (hspelled : c.Spelled ts) (hc : c.WellFormed) :
    ∃ body, ts = c.keyword :: body ∧
      ∀ rest, classDeclaration c.keyword (body ++ rest) = .ok (some c) rest := by
  obtain ⟨keyword, name, attributes, names, ms⟩ := c
  obtain ⟨hgroups, hname, hbases, hopening, hmembers, hclosing⟩ := hspelled
  next groups nameTokens baseTokens memberTokens opening closing =>
    have hbrace : opening.kind = .openBrace := hopening.kind
    refine ⟨_, rfl, fun rest => ?_⟩
    have happend : groups ++ (nameTokens ++ (baseTokens ++ (opening ::
        (memberTokens ++ [closing])))) ++ rest = groups ++ (nameTokens ++ (baseTokens ++ (opening ::
          (memberTokens ++ closing :: rest)))) := by simp
    obtain ⟨t, more, hts, ht⟩ := head_of_spelled hname hc.name
    have hidentifier : nextIs .identifier (nameTokens ++ (baseTokens ++ (opening ::
        (memberTokens ++ closing :: rest)))) = true := by simp [hts, ht]
    have hattribute : nextIs .attributeOpen (nameTokens ++ (baseTokens ++ (opening ::
        (memberTokens ++ closing :: rest)))) = false := by simp [hts, ht]
    have hread₁ := attributeSequences_of_spelled hgroups hc.attributes hattribute
    have hread₂ := qualifiedName_of_spelled hname hc.name
      (startsScope_bases hbases hc.bases hbrace (memberTokens ++ closing :: rest))
    have hread₃ := baseClause_of_spelled hbases hc.bases hopening (memberTokens ++ closing :: rest)
    have hread₄ : classBody (opening :: (memberTokens ++ closing :: rest)) = .ok ms rest := by
      rw [classBody, if_pos hbrace]
      exact members_of_spelled hmembers hc.members hclosing.kind rest
    rw [happend]
    refine bind_eq_ok.2 ⟨attributes, _, hread₁, ?_⟩
    rw [classRest, if_pos hidentifier]
    refine bind_eq_ok.2 ⟨name, _, hread₂, bind_eq_ok.2 ⟨names, _, hread₃, ?_⟩⟩
    exact bind_eq_ok.2 ⟨ms, rest, hread₄, rfl⟩

end Parser

end HeaderReflection
