import HeaderReflection.Proofs.Grammar.Progress
import HeaderReflection.Proofs.Grammar.SourceOrder
import HeaderReflection.Proofs.Grammar.WellFormed
import HeaderReflection.Proofs.Grammar.Readback.Members

/-!
# Trees that are read are well-formed

Each reader gives a well-formed node, whatever tokens it is given and whatever it skips. For a whole
file this is an invariant of the steps of the reading: what was found in each open namespace and the
names of the namespaces themselves are well-formed (`Progress.WellFormed`).
-/

namespace HeaderReflection

namespace Parser

/-! ## Names -/

theorem isIdentifier_of_identifier {ts rest : List Token} {l : Literal}
    (h : identifier ts = .ok l rest) : l.IsIdentifier := by
  obtain ⟨t, ht, rfl⟩ := Reading.map_eq_ok.1 h
  exact ⟨(expect_eq_ok.1 ht).2, rfl⟩

theorem isIdentifier_of_nextPart {ts rest : List Token} {l : Literal}
    (h : nextPart ts = .ok (some l) rest) : l.IsIdentifier := by
  unfold nextPart at h
  split at h
  · obtain ⟨l', hl', hsome⟩ := Reading.map_eq_ok.1 h
    cases hsome
    exact isIdentifier_of_identifier hl'
  · cases h

/-- No `::` is left after a name. -/
theorem furtherParts_spec {ts rest : List Token} {ls : List Literal}
    (h : furtherParts ts = .ok ls rest) :
    (∀ l ∈ ls, l.IsIdentifier) ∧ startsScope rest = false := by
  fun_induction furtherParts ts generalizing ls rest with
  | case1 => cases h
  | case2 ts left hnone =>
    cases h
    refine ⟨fun l hl => (List.not_mem_nil hl).elim, ?_⟩
    unfold nextPart at hnone
    split at hnone
    · obtain ⟨l, -, hsome⟩ := Reading.map_eq_ok.1 hnone
      cases hsome
    next hscope =>
      cases hnone
      exact Bool.eq_false_iff.2 hscope
  | case3 ts part left hsome ih =>
    obtain ⟨more, hmore, rfl⟩ := Reading.map_eq_ok.1 h
    obtain ⟨hparts, hrest⟩ := ih hmore
    refine ⟨?_, hrest⟩
    intro l hl
    rcases List.mem_cons.1 hl with rfl | hl
    · exact isIdentifier_of_nextPart hsome
    · exact hparts l hl

theorem qualifiedName_spec {ts rest : List Token} {name : QualifiedName}
    (h : qualifiedName ts = .ok name rest) : name.WellFormed ∧ startsScope rest = false := by
  obtain ⟨first, _, hfirst, h⟩ := bind_eq_ok.1 h
  obtain ⟨more, _, hmore, h⟩ := bind_eq_ok.1 h
  obtain ⟨rfl, rfl⟩ := pure_eq_ok.1 h
  obtain ⟨hparts, hrest⟩ := furtherParts_spec hmore
  refine ⟨⟨List.cons_ne_nil _ _, ?_⟩, hrest⟩
  intro l hl
  rcases List.mem_cons.1 hl with rfl | hl
  · exact isIdentifier_of_identifier hfirst
  · exact hparts l hl

/-! ## Attributes -/

theorem wellFormed_of_furtherParams {ts rest : List Token} {ls : List Literal}
    (h : furtherParams ts = .ok ls rest) : ∀ l ∈ ls, l.WellFormed := by
  fun_induction furtherParams ts generalizing ls rest with
  | case1 => cases h
  | case2 => cases h; intro l hl; cases hl
  | case3 => cases h
  | case4 t ts hclosing kind hkind ih =>
    obtain ⟨more, hmore, rfl⟩ := Reading.map_eq_ok.1 h
    intro l hl
    rcases List.mem_cons.1 hl with rfl | hl
    · exact hkind
    · exact ih hmore l hl

theorem wellFormed_of_params {ts rest : List Token} {ls : Option (List Literal)}
    (h : params ts = .ok ls rest) : ∀ ls' ∈ ls, ∀ l ∈ ls', l.WellFormed := by
  unfold params at h
  split at h
  · obtain ⟨more, hmore, rfl⟩ := Reading.map_eq_ok.1 h
    intro ls' hls'
    cases hls'
    exact wellFormed_of_furtherParams hmore
  · cases h
    intro ls' hls'
    cases hls'

theorem wellFormed_of_oneAttribute {ts rest : List Token} {a : Attribute}
    (h : oneAttribute ts = .ok a rest) : a.WellFormed := by
  obtain ⟨first, _, hfirst, h⟩ := bind_eq_ok.1 h
  obtain ⟨second, _, hsecond, h⟩ := bind_eq_ok.1 h
  obtain ⟨ls, _, hparams, h⟩ := bind_eq_ok.1 h
  have hidentifier := isIdentifier_of_identifier hfirst
  have hls := wellFormed_of_params hparams
  cases second with
  | none =>
    obtain ⟨rfl, rfl⟩ := pure_eq_ok.1 h
    refine ⟨?_, hidentifier, hls⟩
    intro l hl
    cases hl
  | some name =>
    obtain ⟨rfl, rfl⟩ := pure_eq_ok.1 h
    refine ⟨?_, isIdentifier_of_nextPart hsecond, hls⟩
    intro l hl
    cases hl
    exact hidentifier

theorem wellFormed_of_attributes {ts rest : List Token} {as : List Attribute}
    (h : attributes ts = .ok as rest) : as ≠ [] ∧ ∀ a ∈ as, a.WellFormed := by
  fun_induction attributes ts generalizing as rest with
  | case1 => cases h
  | case2 ts a left ha hend =>
    cases h
    refine ⟨List.cons_ne_nil _ _, ?_⟩
    intro a' ha'
    rw [List.mem_singleton.1 ha']
    exact wellFormed_of_oneAttribute ha
  | case3 ts a left ha hend ih =>
    obtain ⟨more, hmore, rfl⟩ := Reading.map_eq_ok.1 h
    refine ⟨List.cons_ne_nil _ _, ?_⟩
    intro a' ha'
    rcases List.mem_cons.1 ha' with rfl | ha'
    · exact wellFormed_of_oneAttribute ha
    · exact (ih hmore).2 a' ha'

theorem isIdentifier_of_defaultScope {ts rest : List Token} {scope : Option Literal}
    (h : defaultScope ts = .ok scope rest) : ∀ l ∈ scope, l.IsIdentifier := by
  unfold defaultScope at h
  split at h
  · obtain ⟨l, _, hl, h⟩ := bind_eq_ok.1 h
    obtain ⟨_, _, _, h⟩ := bind_eq_ok.1 h
    obtain ⟨rfl, rfl⟩ := pure_eq_ok.1 h
    intro l' hl'
    cases hl'
    exact isIdentifier_of_identifier hl
  · cases h
    intro l hl
    cases hl

theorem wellFormed_of_attributeSequence {ts rest : List Token} {group : AttributeSequence}
    (h : attributeSequence ts = .ok group rest) : group.WellFormed := by
  obtain ⟨opening, _, hopening, h⟩ := bind_eq_ok.1 h
  obtain ⟨default, _, hdefault, h⟩ := bind_eq_ok.1 h
  obtain ⟨as, _, has, h⟩ := bind_eq_ok.1 h
  obtain ⟨closing, _, hclosing, h⟩ := bind_eq_ok.1 h
  obtain ⟨rfl, rfl⟩ := pure_eq_ok.1 h
  obtain ⟨hne, hattributes⟩ := wellFormed_of_attributes has
  exact ⟨(expect_eq_ok.1 hopening).2, isIdentifier_of_defaultScope hdefault, hne, hattributes,
    (expect_eq_ok.1 hclosing).2⟩

theorem wellFormed_of_attributeSequences {ts rest : List Token} {groups : List AttributeSequence}
    (h : attributeSequences ts = .ok groups rest) :
    (∀ group ∈ groups, group.WellFormed) ∧ (nextIs .attributeOpen ts = true → groups ≠ []) := by
  fun_induction attributeSequences ts generalizing groups rest with
  | case1 => cases h
  | case2 ts hnext group left hgroup ih =>
    obtain ⟨more, hmore, rfl⟩ := Reading.map_eq_ok.1 h
    refine ⟨?_, fun _ => List.cons_ne_nil _ _⟩
    intro group' hgroup'
    rcases List.mem_cons.1 hgroup' with rfl | hgroup'
    · exact wellFormed_of_attributeSequence hgroup
    · exact (ih hmore).1 group' hgroup'
  | case3 ts hnone =>
    cases h
    refine ⟨?_, fun hnext => absurd hnext hnone⟩
    intro group hgroup
    cases hgroup

/-! ## Types -/

/-- Whether a word goes on is known from the tokens up to the name of the member. -/
theorem goesOn_of_append {name : Token} {ts rest : List Token} (hname : name.kind = .identifier)
    (h : GoesOn (ts ++ name :: rest)) : GoesOn (ts ++ [name]) := by
  cases ts with
  | nil =>
    rcases h with h | ⟨hcolon, -⟩
    · exact .inl h
    · rw [hname] at hcolon
      cases hcolon
  | cons t ts =>
    refine h.imp_right ?_
    rintro ⟨ht, u, hu, hcolon⟩
    cases ts with
    | nil =>
      cases hu
      rw [hname] at hcolon
      cases hcolon
    | cons v ts => exact ⟨ht, u, hu, hcolon⟩

/-- What is read of a type before an identifier may stand before the name of a member. -/
theorem suffix_of_typeSuffix {name : Token} {ts rest : List Token} (hname : name.kind = .identifier)
    (h : (typeSuffix ts).2 = name :: rest) : TypeName.Suffix name (typeSuffix ts).1 := by
  fun_induction typeSuffix ts with
  | case1 => cases h
  | case2 t ts hangle split more ih =>
    have hstart : ∃ u ∈ (t :: ts).head?, decide (u.text = "<") = true :=
      ⟨t, rfl, decide_eq_true hangle⟩
    cases hs : splitGroup (·.text = "<") (·.text = ">") 0 (t :: ts) with
    | none =>
      have hrest : split.2 = [] := by simp [split, splitAngles, hs]
      simp [more, hrest, typeSuffix] at h
    | some p =>
      have hsplit : split = p := by simp [split, splitAngles, hs]
      have hgroup := ((splitGroup_eq_some_iff angles_disjoint hstart).1 hs).2
      rw [hsplit]
      exact .angles hgroup (ih h)
  | case3 t ts hangle hsign more ih => exact .sign hsign (ih h)
  | case4 t ts hangle hsign hscope more ih =>
    cases ts with
    | nil => simp [startsScope] at hscope
    | cons d ts =>
      cases ts with
      | nil => simp [startsScope] at hscope
      | cons u ts =>
        simp only [startsScope, nextIs_cons, List.tail_cons, List.drop_succ_cons, List.drop_zero,
          Bool.and_eq_true, decide_eq_true_eq] at hscope
        obtain ⟨⟨hc, hd⟩, hu⟩ := hscope
        exact .part hc hangle hsign hd hu (ih h)
  | case5 t ts hangle hsign hscope hgo more ih =>
    obtain ⟨hkind, hword, hnext⟩ := continuesType_cons.1 hgo
    refine .word hkind hword ?_ (ih h)
    rw [← typeSuffix_append ts, h] at hnext
    exact goesOn_of_append hname hnext
  | case6 t ts hangle hsign hscope hgo =>
    cases h
    exact .nil hangle hsign

theorem typeHead_spec {ts rest : List Token} {name : QualifiedName}
    (h : typeHead ts = .ok name rest) :
    (∃ t : Token, t.kind = .autoKeyword ∧ name = ⟨[⟨t, .identifier⟩]⟩) ∨
      name.WellFormed ∧ startsScope rest = false := by
  unfold typeHead at h
  split at h
  · obtain ⟨t, ht, rfl⟩ := Reading.map_eq_ok.1 h
    exact .inl ⟨t, (expect_eq_ok.1 ht).2, rfl⟩
  · exact .inr (qualifiedName_spec h)

theorem startsScope_of_append {ts : List Token} (rest : List Token)
    (h : startsScope (ts ++ rest) = false) : startsScope ts = false := by
  cases ts with
  | nil => rfl
  | cons t ts =>
    cases ts with
    | nil => simp [startsScope]
    | cons u ts => exact h

/-- A type that is read before an identifier is one of a member with that name. -/
theorem wellFormed_of_typeName {name : Token} {ts rest : List Token} {type : TypeName}
    (hname : name.kind = .identifier) (h : typeName ts = .ok type (name :: rest)) :
    type.WellFormed name := by
  obtain ⟨head, mid, hhead, h⟩ := bind_eq_ok.1 h
  have hsuffix := typeSuffix_append mid
  change EStateM.Result.ok _ _ = _ at h
  rw [EStateM.Result.ok.injEq] at h
  obtain ⟨rfl, hrest⟩ := h
  refine ⟨(typeHead_spec hhead).imp_right ?_, suffix_of_typeSuffix hname hrest⟩
  rintro ⟨hwell, hscope⟩
  refine ⟨hwell, startsScope_of_append (typeSuffix mid).2 ?_⟩
  rw [hsuffix]
  exact hscope

/-! ## Members -/

theorem isGroup_of_signature {ts rest : List Token} {sig : Option (List Token)}
    (h : signature ts = .ok sig rest) :
    ∀ g ∈ sig, IsGroup (·.kind = .openParen) (·.kind = .closeParen) g := by
  unfold signature at h
  split at h
  next hnext =>
    obtain ⟨g, hg, rfl⟩ := Reading.map_eq_ok.1 h
    intro g' hg'
    cases hg'
    unfold group at hg
    split at hg
    next taken left hsplit =>
      cases hg
      exact ((splitGroup_eq_some_iff parens_disjoint ((Option.any_eq_true _ _).1 hnext)).1 hsplit).2
    next => cases hg
  next =>
    cases h
    intro g hg
    cases hg

theorem wellFormed_of_member {ts rest : List Token} {m : Member}
    (hnext : nextIs .attributeOpen ts = true) (h : member ts = .ok m rest) : m.WellFormed := by
  obtain ⟨attributes, _, hattributes, h⟩ := bind_eq_ok.1 h
  obtain ⟨type, mid, htype, h⟩ := bind_eq_ok.1 h
  obtain ⟨name, _, hname, h⟩ := bind_eq_ok.1 h
  obtain ⟨sig, _, hsig, h⟩ := bind_eq_ok.1 h
  obtain ⟨rfl, rfl⟩ := pure_eq_ok.1 h
  obtain ⟨hgroups, hannotated⟩ := wellFormed_of_attributeSequences hattributes
  have hidentifier := isIdentifier_of_identifier hname
  obtain ⟨t, ht, rfl⟩ := Reading.map_eq_ok.1 hname
  rw [(expect_eq_ok.1 ht).1] at htype
  exact ⟨hannotated hnext, hgroups, wellFormed_of_typeName hidentifier.token htype, hidentifier,
    isGroup_of_signature hsig⟩

theorem wellFormed_of_members {inner : Nat} {ts rest : List Token} {ms : List Member}
    (h : members inner ts = .ok ms rest) : ∀ m ∈ ms, m.WellFormed := by
  fun_induction members inner ts generalizing ms rest with
  | case1 => cases h
  | case2 inner t ts _ ih => exact ih h
  | case3 t ts =>
    cases h
    intro m hm
    cases hm
  | case4 t ts _ _ inner ih => exact ih h
  | case5 inner t ts _ _ _ ih => exact ih h
  | case6 => cases h
  | case7 inner t ts _ _ _ hopen m left hm ih =>
    obtain ⟨more, hmore, rfl⟩ := Reading.map_eq_ok.1 h
    intro m' hm'
    rcases List.mem_cons.1 hm' with rfl | hm'
    · exact wellFormed_of_member (by simp [hopen]) hm
    · exact ih hmore m' hm'
  | case8 inner t ts _ _ _ _ ih => exact ih h

/-! ## Classes -/

theorem wellFormed_of_classBody {ts rest : List Token} {ms : List Member}
    (h : classBody ts = .ok ms rest) : ∀ m ∈ ms, m.WellFormed := by
  fun_induction classBody ts with
  | case1 => cases h
  | case2 t ts _ => exact wellFormed_of_members h
  | case3 t ts =>
    cases h
    intro m hm
    cases hm
  | case4 t ts _ _ ih => exact ih h

/-- The name that is read after the keywords before a base does not start with `virtual`. -/
theorem isBase_of_qualifiedName {ts rest : List Token} {name : QualifiedName}
    (h : qualifiedName (skipAccess ts) = .ok name rest) : name.IsBase := by
  refine ⟨(qualifiedName_spec h).1, ?_⟩
  intro l hl htext
  obtain ⟨first, mid, hfirst, h⟩ := bind_eq_ok.1 h
  obtain ⟨more, _, -, h⟩ := bind_eq_ok.1 h
  obtain ⟨rfl, rfl⟩ := pure_eq_ok.1 h
  cases hl
  obtain ⟨t, ht, rfl⟩ := Reading.map_eq_ok.1 hfirst
  have hhead : (skipAccess ts).head? = some t := by
    rw [(expect_eq_ok.1 ht).1]
    rfl
  have hstop := List.head?_dropWhile_not (fun t => t.kind.isAccess || t.text = "virtual") ts
  rw [← skipAccess, hhead] at hstop
  change t.text = "virtual" at htext
  simp [htext] at hstop

theorem isBase_of_bases {ts rest : List Token} {names : List QualifiedName}
    (h : bases ts = .ok names rest) : ∀ name ∈ names, name.IsBase := by
  fun_induction bases ts generalizing names rest with
  | case1 => cases h
  | case2 ts name left hname hcomma ih =>
    obtain ⟨more, hmore, rfl⟩ := Reading.map_eq_ok.1 h
    intro name' hname'
    rcases List.mem_cons.1 hname' with rfl | hname'
    · exact isBase_of_qualifiedName hname
    · exact ih hmore name' hname'
  | case3 ts name left hname hend =>
    cases h
    intro name' hname'
    rw [List.mem_singleton.1 hname']
    exact isBase_of_qualifiedName hname

theorem isBase_of_baseClause {ts rest : List Token} {names : List QualifiedName}
    (h : baseClause ts = .ok names rest) : ∀ name ∈ names, name.IsBase := by
  unfold baseClause at h
  split at h
  · exact isBase_of_bases h
  · cases h
    intro name hname
    cases hname

theorem wellFormed_of_classDeclaration {keyword : Token} {ts rest : List Token}
    {c : Option ClassDeclaration}
    (hkeyword : keyword.kind = .classKeyword ∨ keyword.kind = .structKeyword)
    (h : classDeclaration keyword ts = .ok c rest) : ∀ c' ∈ c, c'.WellFormed := by
  obtain ⟨attributes, _, hattributes, h⟩ := bind_eq_ok.1 h
  unfold classRest at h
  split at h
  · obtain ⟨name, _, hname, h⟩ := bind_eq_ok.1 h
    obtain ⟨names, _, hnames, h⟩ := bind_eq_ok.1 h
    obtain ⟨ms, _, hms, h⟩ := bind_eq_ok.1 h
    obtain ⟨rfl, rfl⟩ := pure_eq_ok.1 h
    intro c' hc'
    cases hc'
    exact ⟨hkeyword, (wellFormed_of_attributeSequences hattributes).1, (qualifiedName_spec hname).1,
      isBase_of_baseClause hnames, wellFormed_of_classBody hms⟩
  · obtain ⟨ms, -, rfl⟩ := Reading.map_eq_ok.1 h
    intro c' hc'
    cases hc'

/-! ## Files -/

theorem wellFormed_of_directiveRest (line : Nat) (ts : List Token) :
    ∀ l ∈ (directiveRest line ts).1,
      l.WellFormed ∧ l.kind ≠ .number ∧ l.token.position.line = line := by
  fun_induction directiveRest line ts with
  | case1 => intro l hl; cases hl
  | case2 t ts hline hkind ih =>
    intro l hl
    rcases List.mem_cons.1 hl with rfl | hl
    · exact ⟨hkind, by simp, hline⟩
    · exact ih l hl
  | case3 t ts hline hkind ih =>
    intro l hl
    rcases List.mem_cons.1 hl with rfl | hl
    · exact ⟨hkind, by simp, hline⟩
    · exact ih l hl
  | case4 => intro l hl; cases hl
  | case5 => intro l hl; cases hl

/-- The header of a namespace that is entered is the keyword with a name, if there is one. -/
theorem wellFormed_of_scopeHead {keyword : Token} {ts rest : List Token}
    {header : Option (Token × QualifiedName)}
    (h : scopeHead keyword ts = .ok (some header) rest) :
    ∀ named ∈ header, named.1 = keyword ∧ named.2.WellFormed := by
  unfold scopeHead at h
  split at h
  · cases h
    intro named hnamed
    cases hnamed
  · split at h
    · cases h
    next name left hname =>
      split at h
      · cases h
      · obtain ⟨_, -, hheader⟩ := Reading.map_eq_ok.1 h
        cases hheader
        intro named hnamed
        cases hnamed
        exact ⟨rfl, (qualifiedName_spec hname).1⟩

end Parser

/-- The name of an open namespace and what stands before it are well-formed. -/
structure OpenScope.WellFormed (scope : OpenScope) : Prop where
  header : ∀ named ∈ scope.header, named.1.kind = .namespaceKeyword ∧ named.2.WellFormed
  before : Declaration.AllWellFormed scope.before

theorem OpenScope.WellFormed.close {scope : OpenScope} (h : scope.WellFormed)
    {inside : List Declaration} (hinside : Declaration.AllWellFormed inside) :
    Declaration.AllWellFormed (scope.close inside) := by
  obtain ⟨header, before⟩ := scope
  cases header with
  | none => exact Declaration.allWellFormed_append.2 ⟨h.before, hinside⟩
  | some named =>
    obtain ⟨keyword, name⟩ := named
    obtain ⟨hkeyword, hname⟩ := h.header _ rfl
    exact Declaration.allWellFormed_append.2 ⟨h.before, ⟨hkeyword, hname, hinside⟩, trivial⟩

namespace Progress

/-- Everything that was found is well-formed. -/
structure WellFormed (p : Progress) : Prop where
  scopes : ∀ scope ∈ p.scopes, scope.WellFormed
  found : Declaration.AllWellFormed p.found

/-- **One step keeps the tree well-formed.** -/
theorem wellFormed_of_step {p q : Progress} (h : Step p q) (hp : p.WellFormed) : q.WellFormed := by
  cases h with
  | @record scopes found t ts rest c hkind hread =>
    refine ⟨hp.scopes, Declaration.allWellFormed_append.2 ⟨hp.found, ?_⟩⟩
    cases c with
    | none => trivial
    | some c => exact ⟨Parser.wellFormed_of_classDeclaration hkind hread c rfl, trivial⟩
  | skipAlias _ _ => exact ⟨hp.scopes, hp.found⟩
  | @enter scopes found t ts rest header hkind hread =>
    refine ⟨?_, trivial⟩
    intro scope hscope
    rcases List.mem_cons.1 hscope with rfl | hscope
    · refine ⟨?_, hp.found⟩
      intro named hnamed
      obtain ⟨hkeyword, hname⟩ := Parser.wellFormed_of_scopeHead hread named hnamed
      exact ⟨by rw [hkeyword, hkind], hname⟩
    · exact hp.scopes scope hscope
  | directive hkind =>
    refine ⟨hp.scopes, Declaration.allWellFormed_append.2 ⟨hp.found, ?_, trivial⟩⟩
    exact ⟨hkind, Parser.wellFormed_of_directiveRest _ _⟩
  | skipAttributes _ _ => exact ⟨hp.scopes, hp.found⟩
  | @leave scope scopes found t ts hkind =>
    refine ⟨fun s hs => hp.scopes s (List.mem_cons_of_mem _ hs), ?_⟩
    exact (hp.scopes scope List.mem_cons_self).close hp.found
  | skipBrace _ => exact ⟨hp.scopes, hp.found⟩
  | skipBlock _ _ => exact ⟨hp.scopes, hp.found⟩
  | skipTemplate _ => exact ⟨hp.scopes, hp.found⟩
  | skipUsing _ => exact ⟨hp.scopes, hp.found⟩
  | skipEnum _ _ => exact ⟨hp.scopes, hp.found⟩
  | skipIdle _ => exact ⟨hp.scopes, hp.found⟩

theorem wellFormed_of_steps {p q : Progress} (h : Steps p q) (hp : p.WellFormed) :
    q.WellFormed := by
  induction h with
  | refl => exact hp
  | tail _ hstep ih => exact wellFormed_of_step hstep ih

end Progress

theorem Parser.wellFormed_of_unit {ts rest : List Token} {unit : CompilationUnit}
    (h : Parser.unit ts = .ok unit rest) : unit.WellFormed := by
  obtain ⟨ds, hds, rfl⟩ := Reading.map_eq_ok.1 h
  have hsteps := (Progress.steps_of_declarations hds).1
  refine (Progress.wellFormed_of_steps hsteps ⟨?_, trivial⟩).found
  intro scope hscope
  cases hscope

end HeaderReflection
