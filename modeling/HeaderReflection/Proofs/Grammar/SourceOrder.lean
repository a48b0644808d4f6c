import HeaderReflection.Proofs.Grammar.Progress
import HeaderReflection.Proofs.Grammar.TreeTokens
import HeaderReflection.Proofs.Tokens.Places

/-!
# A tree keeps the order of its source

Reading never invents, repeats or moves a token. Each reader below takes what it reads and what it
leaves, in this order, from the tokens it was given: the two together are a sublist of them. What is
between is skipped.
-/

namespace HeaderReflection

namespace Parser

variable {ts mid rest : List Token}

theorem sublist_of_eq {us : List Token} (h : us = ts) : us.Sublist ts := by
  subst h
  exact List.Sublist.refl _

/-- Two readings in a row keep the order when each does. -/
theorem sublist_trans {first second : List Token} (h₁ : (first ++ mid).Sublist ts)
    (h₂ : (second ++ rest).Sublist mid) : ((first ++ second) ++ rest).Sublist ts := by
  rw [List.append_assoc]
  exact (h₂.append_left first).trans h₁

/-! ## Names -/

theorem sublist_expect {kind : TokenKind} {t : Token} (h : expect kind ts = .ok t rest) :
    ([t] ++ rest).Sublist ts := by
  rw [(expect_eq_ok.1 h).1]
  exact List.Sublist.refl _

theorem sublist_identifier {l : Literal} (h : identifier ts = .ok l rest) :
    ([l.token] ++ rest).Sublist ts := by
  obtain ⟨t, ht, rfl⟩ := Reading.map_eq_ok.1 h
  exact sublist_expect ht

theorem sublist_nextPart {l : Option Literal} (h : nextPart ts = .ok l rest) :
    (l.toList.map Literal.token ++ rest).Sublist ts := by
  unfold nextPart at h
  split at h
  · obtain ⟨l', hl, rfl⟩ := Reading.map_eq_ok.1 h
    exact (sublist_identifier hl).trans (List.drop_sublist 2 ts)
  · cases h
    exact List.Sublist.refl _

theorem sublist_furtherParts {ls : List Literal} (h : furtherParts ts = .ok ls rest) :
    (ls.map Literal.token ++ rest).Sublist ts := by
  fun_induction furtherParts ts generalizing ls rest with
  | case1 => cases h
  | case2 ts left hs =>
    cases h
    exact sublist_nextPart hs
  | case3 ts part left hs ih =>
    obtain ⟨more, hmore, rfl⟩ := Reading.map_eq_ok.1 h
    exact sublist_trans (sublist_nextPart hs) (ih hmore)

theorem sublist_qualifiedName {name : QualifiedName} (h : qualifiedName ts = .ok name rest) :
    (name.tokens ++ rest).Sublist ts := by
  obtain ⟨first, mid, hf, h⟩ := bind_eq_ok.1 h
  obtain ⟨more, left, hm, h⟩ := bind_eq_ok.1 h
  obtain ⟨rfl, rfl⟩ := pure_eq_ok.1 h
  exact sublist_trans (sublist_identifier hf) (sublist_furtherParts hm)

/-! ## Attributes -/

theorem sublist_skipComma (ts : List Token) : (skipComma ts).Sublist ts := by
  unfold skipComma
  split
  · exact List.tail_sublist ts
  · exact List.Sublist.refl _

theorem sublist_furtherParams {ls : List Literal} (h : furtherParams ts = .ok ls rest) :
    (ls.map Literal.token ++ rest).Sublist ts := by
  fun_induction furtherParams ts generalizing ls rest with
  | case1 => cases h
  | case2 t ts hclose =>
    cases h
    exact List.sublist_cons_self t ts
  | case3 => cases h
  | case4 t ts hclose kind hkind ih =>
    obtain ⟨more, hmore, rfl⟩ := Reading.map_eq_ok.1 h
    exact ((ih hmore).trans (sublist_skipComma ts)).cons_cons t

theorem sublist_params {ls : Option (List Literal)} (h : params ts = .ok ls rest) :
    ((ls.getD []).map Literal.token ++ rest).Sublist ts := by
  unfold params at h
  split at h
  · obtain ⟨more, hmore, rfl⟩ := Reading.map_eq_ok.1 h
    exact (sublist_furtherParams hmore).trans (List.tail_sublist ts)
  · cases h
    exact List.Sublist.refl _

theorem sublist_oneAttribute {a : Attribute} (h : oneAttribute ts = .ok a rest) :
    (a.tokens ++ rest).Sublist ts := by
  obtain ⟨first, afterFirst, h₁, h⟩ := bind_eq_ok.1 h
  obtain ⟨second, afterSecond, h₂, h⟩ := bind_eq_ok.1 h
  obtain ⟨params, afterParams, h₃, h⟩ := bind_eq_ok.1 h
  have hname := sublist_trans (sublist_identifier h₁) (sublist_nextPart h₂)
  have hall := sublist_trans hname (sublist_params h₃)
  cases second with
  | none =>
    obtain ⟨rfl, rfl⟩ := pure_eq_ok.1 h
    exact hall
  | some name =>
    obtain ⟨rfl, rfl⟩ := pure_eq_ok.1 h
    exact hall

theorem sublist_attributes {as : List Attribute} (h : attributes ts = .ok as rest) :
    (as.flatMap Attribute.tokens ++ rest).Sublist ts := by
  fun_induction attributes ts generalizing as rest with
  | case1 => cases h
  | case2 ts a left ha hend =>
    cases h
    have hskip := (sublist_skipComma left).append_left a.tokens
    rw [List.flatMap_singleton]
    exact hskip.trans (sublist_oneAttribute ha)
  | case3 ts a left ha hend ih =>
    obtain ⟨more, hmore, rfl⟩ := Reading.map_eq_ok.1 h
    exact sublist_trans (sublist_oneAttribute ha) ((ih hmore).trans (sublist_skipComma left))

theorem sublist_defaultScope {l : Option Literal} (h : defaultScope ts = .ok l rest) :
    (l.toList.map Literal.token ++ rest).Sublist ts := by
  unfold defaultScope at h
  split at h
  · obtain ⟨scope, afterScope, h₁, h⟩ := bind_eq_ok.1 h
    obtain ⟨colon, afterColon, h₂, h⟩ := bind_eq_ok.1 h
    obtain ⟨rfl, rfl⟩ := pure_eq_ok.1 h
    have hcolon : afterColon.Sublist afterScope :=
      (List.sublist_cons_self colon afterColon).trans (sublist_expect h₂)
    have hscope := (hcolon.append_left [scope.token]).trans (sublist_identifier h₁)
    exact hscope.trans (List.tail_sublist ts)
  · cases h
    exact List.Sublist.refl _

theorem sublist_attributeSequence {group : AttributeSequence}
    (h : attributeSequence ts = .ok group rest) : (group.tokens ++ rest).Sublist ts := by
  obtain ⟨opening, afterOpening, h₁, h⟩ := bind_eq_ok.1 h
  obtain ⟨default, afterDefault, h₂, h⟩ := bind_eq_ok.1 h
  obtain ⟨attributes, afterAttributes, h₃, h⟩ := bind_eq_ok.1 h
  obtain ⟨closing, afterClosing, h₄, h⟩ := bind_eq_ok.1 h
  obtain ⟨rfl, rfl⟩ := pure_eq_ok.1 h
  have hend := sublist_trans (sublist_attributes h₃) (sublist_expect h₄)
  have hbody := sublist_trans (sublist_defaultScope h₂) hend
  exact sublist_trans (sublist_expect h₁) hbody

theorem sublist_attributeSequences {groups : List AttributeSequence}
    (h : attributeSequences ts = .ok groups rest) :
    (AttributeSequence.tokensAll groups ++ rest).Sublist ts := by
  fun_induction attributeSequences ts generalizing groups rest with
  | case1 => cases h
  | case2 ts hnext group left hg ih =>
    obtain ⟨more, hmore, rfl⟩ := Reading.map_eq_ok.1 h
    exact sublist_trans (sublist_attributeSequence hg) (ih hmore)
  | case3 =>
    cases h
    exact List.Sublist.refl _

/-! ## Types -/

theorem group_append {opening closing : TokenKind} {taken : List Token}
    (h : group opening closing ts = .ok taken rest) : taken ++ rest = ts := by
  unfold group at h
  split at h
  next hs =>
    cases h
    exact splitGroup_append hs
  next => cases h

theorem splitAngles_append (ts : List Token) : (splitAngles ts).1 ++ (splitAngles ts).2 = ts := by
  unfold splitAngles
  cases hs : splitGroup (·.text = "<") (·.text = ">") 0 ts with
  | none => exact List.append_nil ts
  | some p => exact splitGroup_append hs

/-- Of a type nothing is skipped. -/
theorem typeSuffix_append (ts : List Token) : (typeSuffix ts).1 ++ (typeSuffix ts).2 = ts := by
  fun_induction typeSuffix ts with
  | case1 => rfl
  | case2 t ts _ split more ih =>
    have hsplit : split.1 ++ split.2 = t :: ts := splitAngles_append (t :: ts)
    rw [List.append_assoc, ih, hsplit]
  | case3 t ts _ _ more ih => rw [List.cons_append, ih]
  | case4 t ts _ _ _ more ih =>
    show t :: (ts.take 2 ++ more.1) ++ more.2 = t :: ts
    rw [List.cons_append, List.append_assoc, ih, List.take_append_drop]
  | case5 t ts _ _ _ _ more ih => rw [List.cons_append, ih]
  | case6 => rfl

theorem sublist_typeHead {name : QualifiedName} (h : typeHead ts = .ok name rest) :
    (name.tokens ++ rest).Sublist ts := by
  unfold typeHead at h
  split at h
  · obtain ⟨t, ht, rfl⟩ := Reading.map_eq_ok.1 h
    exact sublist_expect ht
  · exact sublist_qualifiedName h

theorem sublist_typeName {type : TypeName} (h : typeName ts = .ok type rest) :
    (type.tokens ++ rest).Sublist ts := by
  obtain ⟨head, mid, h₁, h⟩ := bind_eq_ok.1 h
  cases h
  have hsuffix : ((typeSuffix mid).1 ++ (typeSuffix mid).2).Sublist mid :=
    sublist_of_eq (typeSuffix_append mid)
  exact sublist_trans (sublist_typeHead h₁) hsuffix

/-! ## Members -/

theorem sublist_signature {s : Option (List Token)} (h : signature ts = .ok s rest) :
    (s.getD [] ++ rest).Sublist ts := by
  unfold signature at h
  split at h
  · obtain ⟨taken, htaken, rfl⟩ := Reading.map_eq_ok.1 h
    exact sublist_of_eq (group_append htaken)
  · cases h
    exact List.Sublist.refl _

theorem sublist_member {m : Member} (h : member ts = .ok m rest) :
    (m.tokens ++ rest).Sublist ts := by
  obtain ⟨attributes, afterAttributes, h₁, h⟩ := bind_eq_ok.1 h
  obtain ⟨type, afterType, h₂, h⟩ := bind_eq_ok.1 h
  obtain ⟨name, afterName, h₃, h⟩ := bind_eq_ok.1 h
  obtain ⟨signature, afterSignature, h₄, h⟩ := bind_eq_ok.1 h
  obtain ⟨rfl, rfl⟩ := pure_eq_ok.1 h
  have hdeclarator := sublist_trans (sublist_identifier h₃) (sublist_signature h₄)
  have htyped := sublist_trans (sublist_typeName h₂) hdeclarator
  exact sublist_trans (sublist_attributeSequences h₁) htyped

theorem sublist_skipColon (ts : List Token) : (skipColon ts).Sublist ts := by
  unfold skipColon
  split
  · exact List.tail_sublist ts
  · exact List.Sublist.refl _

theorem sublist_members {inner : Nat} {ms : List Member} (h : members inner ts = .ok ms rest) :
    (ms.flatMap Member.tokens ++ rest).Sublist ts := by
  fun_induction members inner ts generalizing ms rest with
  | case1 => cases h
  | case2 inner t ts _ ih => exact (ih h).cons t
  | case3 t ts =>
    cases h
    exact List.sublist_cons_self t ts
  | case4 t ts _ _ inner ih => exact (ih h).cons t
  | case5 inner t ts _ _ _ ih => exact ((ih h).trans (sublist_skipColon ts)).cons t
  | case6 => cases h
  | case7 inner t ts _ _ _ _ m left hm ih =>
    obtain ⟨more, hmore, rfl⟩ := Reading.map_eq_ok.1 h
    exact sublist_trans (sublist_member hm) (ih hmore)
  | case8 inner t ts _ _ _ _ ih => exact (ih h).cons t

/-! ## Classes -/

theorem sublist_classBody {ms : List Member} (h : classBody ts = .ok ms rest) :
    (ms.flatMap Member.tokens ++ rest).Sublist ts := by
  fun_induction classBody ts with
  | case1 => cases h
  | case2 t ts _ => exact (sublist_members h).cons t
  | case3 t =>
    cases h
    exact List.sublist_cons_self t rest
  | case4 t ts _ _ ih => exact (ih h).cons t

theorem sublist_skipAccess (ts : List Token) : (skipAccess ts).Sublist ts :=
  (List.dropWhile_suffix _).sublist

theorem sublist_skipAngles (ts : List Token) : (skipAngles ts).Sublist ts := by
  unfold skipAngles
  split
  · have h := List.sublist_append_right (splitAngles ts).1 (splitAngles ts).2
    rwa [splitAngles_append] at h
  · exact List.Sublist.refl _

theorem sublist_bases {names : List QualifiedName} (h : bases ts = .ok names rest) :
    (names.flatMap QualifiedName.tokens ++ rest).Sublist ts := by
  fun_induction bases ts generalizing names rest with
  | case1 => cases h
  | case2 ts name left hn _ ih =>
    obtain ⟨more, hmore, rfl⟩ := Reading.map_eq_ok.1 h
    have hleft := (List.tail_sublist (skipAngles left)).trans (sublist_skipAngles left)
    have hname := (sublist_qualifiedName hn).trans (sublist_skipAccess ts)
    exact sublist_trans hname ((ih hmore).trans hleft)
  | case3 ts name left hn _ =>
    cases h
    have hname := (sublist_qualifiedName hn).trans (sublist_skipAccess ts)
    rw [List.flatMap_singleton]
    exact ((sublist_skipAngles left).append_left name.tokens).trans hname

theorem sublist_baseClause {names : List QualifiedName} (h : baseClause ts = .ok names rest) :
    (names.flatMap QualifiedName.tokens ++ rest).Sublist ts := by
  unfold baseClause at h
  split at h
  · exact (sublist_bases h).trans (List.tail_sublist ts)
  · cases h
    exact List.Sublist.refl _

/-- A class without a name leaves nothing in the tree. -/
theorem sublist_classDeclaration {keyword : Token} {c : Option ClassDeclaration}
    (h : classDeclaration keyword ts = .ok c rest) :
    (c.toList.flatMap ClassDeclaration.tokens ++ rest).Sublist (keyword :: ts) := by
  obtain ⟨attributes, afterAttributes, h₁, h⟩ := bind_eq_ok.1 h
  have hattributes := sublist_attributeSequences h₁
  unfold classRest at h
  split at h
  · obtain ⟨name, afterName, h₂, h⟩ := bind_eq_ok.1 h
    obtain ⟨bases, afterBases, h₃, h⟩ := bind_eq_ok.1 h
    obtain ⟨members, afterMembers, h₄, h⟩ := bind_eq_ok.1 h
    obtain ⟨rfl, rfl⟩ := pure_eq_ok.1 h
    have hbody := sublist_trans (sublist_baseClause h₃) (sublist_classBody h₄)
    have hnamed := sublist_trans (sublist_qualifiedName h₂) hbody
    rw [Option.toList_some, List.flatMap_singleton]
    exact (sublist_trans hattributes hnamed).cons_cons keyword
  · obtain ⟨members, hmembers, rfl⟩ := Reading.map_eq_ok.1 h
    have hbody := (List.sublist_append_right _ rest).trans (sublist_classBody hmembers)
    have hrest := hbody.trans ((List.sublist_append_right _ afterAttributes).trans hattributes)
    exact hrest.cons keyword

/-! ## Files -/

theorem directiveRest_append (line : Nat) (ts : List Token) :
    (directiveRest line ts).1.map Literal.token ++ (directiveRest line ts).2 = ts := by
  fun_induction directiveRest line ts with
  | case1 => rfl
  | case2 t ts _ _ ih => exact congrArg (t :: ·) ih
  | case3 t ts _ _ ih => exact congrArg (t :: ·) ih
  | case4 => rfl
  | case5 => rfl

theorem sublist_skipStatement (ts : List Token) : (skipStatement ts).Sublist ts :=
  (List.tail_sublist _).trans (List.dropWhile_suffix _).sublist

theorem sublist_skipEnum (ts : List Token) : (skipEnum ts).Sublist ts := by
  unfold skipEnum
  split
  · exact List.tail_sublist ts
  · exact List.Sublist.refl _

/-- The keyword and the name of an open namespace, if it has a name. -/
def headerTokens : Option (Token × QualifiedName) → List Token
  | none => []
  | some (keyword, name) => keyword :: name.tokens

theorem sublist_scopeHead {keyword : Token} {head : Option (Option (Token × QualifiedName))}
    (h : scopeHead keyword ts = .ok head rest) :
    ((head.map headerTokens).getD [] ++ rest).Sublist (keyword :: ts) := by
  unfold scopeHead at h
  split at h
  · cases h
    exact (List.tail_sublist ts).cons keyword
  · split at h
    · cases h
    next name left hname =>
      have hnamed := sublist_qualifiedName hname
      split at h
      · cases h
        have hleft := (List.sublist_append_right name.tokens left).trans hnamed
        exact ((sublist_skipStatement left).trans hleft).cons keyword
      · obtain ⟨brace, hbrace, rfl⟩ := Reading.map_eq_ok.1 h
        have hrest : rest.Sublist left :=
          (List.sublist_cons_self brace rest).trans (sublist_expect hbrace)
        exact ((hrest.append_left name.tokens).trans hnamed).cons_cons keyword

/-- The tokens of everything that is read when the namespaces in `scopes` are open and `found` are
the declarations of the innermost scope so far. -/
def pendingTokens : List OpenScope → List Declaration → List Token
  | [], found => Declaration.tokensAll found
  | scope :: scopes, found =>
    pendingTokens scopes scope.before ++
      (headerTokens scope.header ++ Declaration.tokensAll found)

theorem pendingTokens_append (scopes : List OpenScope) (found more : List Declaration) :
    pendingTokens scopes (found ++ more) =
      pendingTokens scopes found ++ Declaration.tokensAll more := by
  cases scopes with
  | nil => exact Declaration.tokensAll_append found more
  | cons scope scopes =>
    rw [pendingTokens, pendingTokens, Declaration.tokensAll_append, List.append_assoc,
      List.append_assoc]

/-- Closing a namespace moves no token, with or without a name. -/
theorem pendingTokens_close (scope : OpenScope) (scopes : List OpenScope)
    (found : List Declaration) :
    pendingTokens scopes (scope.close found) = pendingTokens (scope :: scopes) found := by
  obtain ⟨header, before⟩ := scope
  cases header with
  | none =>
    rw [OpenScope.close, pendingTokens_append]
    rfl
  | some header =>
    obtain ⟨keyword, name⟩ := header
    rw [OpenScope.close, pendingTokens_append, Declaration.tokensAll_singleton]
    rfl

theorem tokensAll_records (c : Option ClassDeclaration) :
    Declaration.tokensAll (c.toList.map .record) = c.toList.flatMap ClassDeclaration.tokens := by
  cases c with
  | none => rfl
  | some c =>
    rw [Option.toList_some, List.map_singleton, List.flatMap_singleton,
      Declaration.tokensAll_singleton, Declaration.tokens]

end Parser

namespace Progress

/-- The tokens of everything read so far, and then those that are left. -/
def tokens (p : Progress) : List Token := Parser.pendingTokens p.scopes p.found ++ p.left

/-- A step that finds nothing keeps the order when it leaves a sublist of the tokens. -/
theorem sublist_tokens_of_left {scopes : List OpenScope} {found : List Declaration}
    {left ts : List Token} (h : left.Sublist ts) :
    (tokens ⟨scopes, found, left⟩).Sublist (tokens ⟨scopes, found, ts⟩) :=
  h.append_left _

/-- A step that finds declarations keeps the order when their tokens come from the front. -/
theorem sublist_tokens_of_found {scopes : List OpenScope} {found more : List Declaration}
    {left ts : List Token} (h : (Declaration.tokensAll more ++ left).Sublist ts) :
    (tokens ⟨scopes, found ++ more, left⟩).Sublist (tokens ⟨scopes, found, ts⟩) := by
  rw [tokens, tokens, Parser.pendingTokens_append, List.append_assoc]
  exact h.append_left _

/-- **One step keeps the order.** What was read before stays in front, and what the step reads comes
next. -/
theorem sublist_tokens_of_step {p q : Progress} (h : Step p q) : q.tokens.Sublist p.tokens := by
  cases h with
  | record hkind hread =>
    apply sublist_tokens_of_found
    rw [Parser.tokensAll_records]
    exact Parser.sublist_classDeclaration hread
  | skipAlias hkind hread => exact sublist_tokens_of_left (Parser.sublist_scopeHead hread)
  | @enter scopes found t ts rest header hkind hread =>
    have hhead : (Parser.headerTokens header ++ rest).Sublist (t :: ts) :=
      Parser.sublist_scopeHead hread
    rw [tokens, tokens, Parser.pendingTokens, Declaration.tokensAll_nil, List.append_nil,
      List.append_assoc]
    exact hhead.append_left _
  | @directive scopes found t ts hkind =>
    apply sublist_tokens_of_found
    refine Parser.sublist_of_eq ?_
    rw [Declaration.tokensAll_singleton, Declaration.tokens, Directive.tokens, List.cons_append,
      Parser.directiveRest_append]
  | skipAttributes hkind hread =>
    have hgroup := Parser.sublist_attributeSequence hread
    exact sublist_tokens_of_left ((List.sublist_append_right _ _).trans hgroup)
  | @leave scope scopes found t ts hkind =>
    rw [tokens, tokens, Parser.pendingTokens_close]
    exact (List.sublist_cons_self t ts).append_left _
  | skipBrace hkind => exact sublist_tokens_of_left (List.sublist_cons_self _ _)
  | @skipBlock scopes found t ts taken rest hkind hread =>
    apply sublist_tokens_of_left
    rw [← Parser.group_append hread]
    exact List.sublist_append_right taken rest
  | skipTemplate hkind => exact sublist_tokens_of_left ((Parser.sublist_skipAngles _).cons _)
  | skipUsing hkind => exact sublist_tokens_of_left ((Parser.sublist_skipStatement _).cons _)
  | skipEnum hkind htext => exact sublist_tokens_of_left ((Parser.sublist_skipEnum _).cons _)
  | skipIdle hidle => exact sublist_tokens_of_left (List.sublist_cons_self _ _)

/-- A whole run keeps the order. -/
theorem sublist_tokens_of_steps {p q : Progress} (h : Steps p q) : q.tokens.Sublist p.tokens := by
  induction h with
  | refl => exact List.Sublist.refl _
  | tail _ hstep ih => exact (sublist_tokens_of_step hstep).trans ih

end Progress

theorem Parser.sublist_unit {ts rest : List Token} {u : CompilationUnit}
    (h : unit ts = .ok u rest) : u.tokens.Sublist ts := by
  obtain ⟨ds, hread, rfl⟩ := Reading.map_eq_ok.1 h
  have hrun := Progress.sublist_tokens_of_steps (Progress.steps_of_declarations hread).1
  exact (List.sublist_append_left _ rest).trans hrun

/-- The tokens of a tree are a sublist of those that it was read from. -/
theorem CompilationUnit.tokens_sublist {ts : List Token} {unit : CompilationUnit}
    (h : ofTokens ts = .ok unit) : unit.tokens.Sublist (Token.significant ts) := by
  rw [ofTokens] at h
  cases hread : Parser.unit (Token.significant ts) with
  | error e rest => simp [hread, Reading.result] at h
  | ok u rest =>
    rw [hread] at h
    cases h
    exact Parser.sublist_unit hread

/-- **A tree keeps the order of its source.** The tokens of the tree stand in the source at places
that go up from one to the next, so none is invented, repeated or moved; in a text their offsets go
up too. -/
theorem CompilationUnit.tokens_in_source_order :
    (∀ (ts : List Token) (unit : CompilationUnit), ofTokens ts = .ok unit →
      ∃ places : List (Fin (Token.significant ts).length),
        places.Pairwise (· < ·) ∧
          unit.tokens = places.map fun place => (Token.significant ts)[place]) ∧
    (∀ (text : String) (unit : CompilationUnit), ofString text = .ok unit →
      unit.tokens.Pairwise fun a b => a.position.offset < b.position.offset) := by
  constructor
  · intro ts unit h
    obtain ⟨places, htokens, hup⟩ := List.sublist_eq_map_getElem (tokens_sublist h)
    exact ⟨places, hup, htokens⟩
  · intro text unit h
    rw [ofString] at h
    cases htokens : tokenize text with
    | error e => simp [htokens] at h
    | ok ts =>
      rw [htokens] at h
      have hsource := (tokens_sublist h).trans List.filter_sublist
      exact (Token.offsets_increase htokens).sublist hsource

/-- A class in a namespace without a name stands where it stood. -/
theorem CompilationUnit.tokens_in_source_order_anonymous :
    ∃ unit, ofString "#if a\nnamespace \x7b class [[A]] B \x7b\x7d; \x7d class C;" = .ok unit ∧
      unit.tokens.map Token.text = ["#", "if", "a", "class", "[[", "A", "]]", "B", "class", "C"] ∧
      unit.tokens.Pairwise fun a b => a.position.offset < b.position.offset := by
  have h : (ofString "#if a\nnamespace \x7b class [[A]] B \x7b\x7d; \x7d class C;").toOption.map
      (fun unit => unit.tokens.map Token.text) =
        some ["#", "if", "a", "class", "[[", "A", "]]", "B", "class", "C"] := by decide +kernel
  cases hread : ofString "#if a\nnamespace \x7b class [[A]] B \x7b\x7d; \x7d class C;" with
  | error e => simp [hread, Except.toOption] at h
  | ok unit =>
    rw [hread] at h
    exact ⟨unit, rfl, Option.some.inj h, tokens_in_source_order.2 _ unit hread⟩

end HeaderReflection
