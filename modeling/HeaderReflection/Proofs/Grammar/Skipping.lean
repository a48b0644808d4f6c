import HeaderReflection.Proofs.Grammar.Progress
import HeaderReflection.Proofs.Grammar.Readback.Members

/-!
# Skipped text leaves no trace

What a file holds beside classes, namespaces and directives is skipped, and so is what a class body
holds beside annotated members. Such filler may stand anywhere before any tokens: what is read of
them, the tokens that are left and the error, if there is one, are the same as without it.
-/

namespace HeaderReflection

theorem braces_disjoint (t : Token) (h : decide (t.kind = .openBrace) = true) :
    decide (t.kind = .closeBrace) = false :=
  kinds_disjoint (by decide) t h

/-- A block of tokens in braces. -/
abbrev IsBlock (g : List Token) : Prop := IsGroup (·.kind = .openBrace) (·.kind = .closeBrace) g

theorem IsBlock.splitGroup {g : List Token} (hg : IsBlock g) (rest : List Token) :
    splitGroup (·.kind = .openBrace) (·.kind = .closeBrace) 0 (g ++ rest) = some (g, rest) := by
  have hstart : ∃ t ∈ (g ++ rest).head?, decide (t.kind = .openBrace) = true := by
    obtain ⟨t, ts, rfl, ht⟩ := hg.exists_cons
    exact ⟨t, rfl, ht⟩
  exact (splitGroup_eq_some_iff braces_disjoint hstart).2 ⟨rfl, hg⟩

/-! ## Class bodies -/

/-- What may stand between the members of a class body: blocks, and tokens that start no member and
are no braces. -/
inductive Member.Filler : List Token → Prop
  | nil : Filler []
  | token {t : Token} {ts : List Token} (ht : t.kind ∉ [.openBrace, .closeBrace, .attributeOpen])
      (h : Filler ts) : Filler (t :: ts)
  | block {g ts : List Token} (hg : IsBlock g) (h : Filler ts) : Filler (g ++ ts)

namespace Parser

theorem members_openBrace {t : Token} (ht : t.kind = .openBrace) (inner : Nat) (ts : List Token) :
    members inner (t :: ts) = members (inner + 1) ts := by
  rw [members_cons, if_pos ht]

theorem members_closeBrace {t : Token} (ht : t.kind = .closeBrace) (inner : Nat)
    (ts : List Token) : members (inner + 1) (t :: ts) = members inner ts := by
  rw [members_cons, if_neg (by simp [ht]), if_pos ht]

/-- Inside a block nothing is read up to where it ends. -/
theorem members_of_splitGroup {depth : Nat} {ts : List Token} {p : List Token × List Token}
    (h : splitGroup (·.kind = .openBrace) (·.kind = .closeBrace) (depth + 1) ts = some p) :
    members (depth + 1) ts = members 0 p.2 := by
  induction ts generalizing depth p with
  | nil => cases h
  | cons t ts ih =>
    rw [splitGroup] at h
    by_cases hopen : t.kind = .openBrace
    · simp only [hopen, decide_true, if_true] at h
      obtain ⟨q, hq, rfl⟩ := Option.map_eq_some_iff.1 h
      have hmore := ih hq
      rw [members_openBrace hopen, hmore]
    · by_cases hclose : t.kind = .closeBrace
      · rw [members_closeBrace hclose]
        simp only [hclose, reduceCtorEq, decide_true, decide_false, if_true, Bool.false_eq_true,
          if_false, Nat.add_sub_cancel] at h
        cases depth with
        | zero => cases h; rfl
        | succ depth =>
          obtain ⟨q, hq, rfl⟩ := Option.map_eq_some_iff.1 h
          have hmore := ih hq
          rw [hmore]
      · rw [members_skip ⟨hopen, hclose⟩ (.inr (Nat.succ_ne_zero _))]
        simp only [hopen, hclose, decide_false, Bool.false_eq_true, if_false] at h
        obtain ⟨q, hq, rfl⟩ := Option.map_eq_some_iff.1 h
        have hmore := ih hq
        rw [hmore]

theorem members_block {g : List Token} (hg : IsBlock g) (rest : List Token) :
    members 0 (g ++ rest) = members 0 rest := by
  have hsplit := hg.splitGroup rest
  obtain ⟨t, ts, rfl, ht⟩ := hg.exists_cons
  have hopen := of_decide_eq_true ht
  rw [List.cons_append, splitGroup] at hsplit
  simp only [hopen, decide_true, if_true] at hsplit
  obtain ⟨q, hq, hp⟩ := Option.map_eq_some_iff.1 hsplit
  rw [List.cons_append, members_openBrace hopen, members_of_splitGroup hq]
  rw [(Prod.mk.inj hp).2]

/-- **Filler in a class body is skipped without trace.** -/
theorem members_filler {filler : List Token} (h : Member.Filler filler) (ts : List Token) :
    members 0 (filler ++ ts) = members 0 ts := by
  induction h with
  | nil => rfl
  | token ht _ ih =>
    simp only [List.mem_cons, List.not_mem_nil, or_false, not_or] at ht
    rw [List.cons_append, members_skip ⟨ht.1, ht.2.1⟩ (.inl ht.2.2), ih]
  | block hg _ ih => rw [List.append_assoc, members_block hg, ih]

end Parser

/-! ## Declarations -/

/-- What may stand between the declarations of a scope. -/
inductive Declaration.Filler : List Token → Prop
  | nil : Filler []
  | block {g ts : List Token} (hg : IsBlock g) (h : Filler ts) : Filler (g ++ ts)
  /-- A statement that starts with `using`, up to its semicolon. -/
  | usingStatement {keyword semicolon : Token} {body ts : List Token}
      (hkeyword : keyword.kind = .usingKeyword) (hbody : ∀ t ∈ body, t.kind ≠ .semicolon)
      (hsemicolon : semicolon.kind = .semicolon) (h : Filler ts) :
      Filler (keyword :: (body ++ semicolon :: ts))
  /-- The head of a template. -/
  | template {keyword : Token} {g ts : List Token} (hkeyword : keyword.kind = .templateKeyword)
      (hg : IsGroup (·.text = "<") (·.text = ">") g) (h : Filler ts) : Filler (keyword :: (g ++ ts))
  /-- The head of a scoped enumeration. -/
  | enumeration {t keyword : Token} {ts : List Token} (hkind : t.kind = .identifier)
      (htext : t.text = "enum")
      (hkeyword : keyword.kind = .classKeyword ∨ keyword.kind = .structKeyword) (h : Filler ts) :
      Filler (t :: keyword :: ts)
  /-- A namespace alias, up to its semicolon. -/
  | namespaceAlias {keyword equals semicolon : Token} {name : QualifiedName}
      {tokens body ts : List Token} (hkeyword : keyword.kind = .namespaceKeyword)
      (hname : name.Derives tokens) (hequals : equals.IsSign '=')
      (hbody : ∀ t ∈ body, t.kind ≠ .semicolon) (hsemicolon : semicolon.kind = .semicolon)
      (h : Filler ts) :
      Filler (keyword :: (tokens ++ equals :: (body ++ semicolon :: ts)))
  /-- Attributes of something that is no class. -/
  | attributes {group : AttributeSequence} {tokens ts : List Token} (hgroup : group.Derives tokens)
      (h : Filler ts) : Filler (tokens ++ ts)
  | idle {t : Token} {ts : List Token} (ht : Progress.IsIdle t) (h : Filler ts) : Filler (t :: ts)

/-- A statement is skipped up to its semicolon. -/
theorem skipStatement_append {body : List Token} {semicolon : Token}
    (hbody : ∀ t ∈ body, t.kind ≠ .semicolon) (hsemicolon : semicolon.kind = .semicolon)
    (ts : List Token) : skipStatement (body ++ semicolon :: ts) = ts := by
  rw [skipStatement, List.dropWhile_append_of_pos (by simpa using hbody),
    List.dropWhile_cons_of_neg (by simp [hsemicolon]), List.tail_cons]

theorem Parser.scopeHead_alias {equals semicolon : Token} {name : QualifiedName}
    {tokens body : List Token} (keyword : Token) (hname : name.Derives tokens)
    (hequals : equals.IsSign '=') (hbody : ∀ t ∈ body, t.kind ≠ .semicolon)
    (hsemicolon : semicolon.kind = .semicolon) (ts : List Token) :
    scopeHead keyword (tokens ++ equals :: (body ++ semicolon :: ts)) = .ok none ts := by
  have hkind : equals.kind = .identifier := hequals.kind
  have hread : qualifiedName (tokens ++ equals :: (body ++ semicolon :: ts)) =
      .ok name (equals :: (body ++ semicolon :: ts)) :=
    qualifiedName_of_derives hname (startsScope_of_kind (by simp [hkind]) _)
  have hskip : skipStatement (equals :: (body ++ semicolon :: ts)) = ts := by
    have hall : ∀ t ∈ equals :: body, t.kind ≠ .semicolon :=
      List.forall_mem_cons.2 ⟨by simp [hkind], hbody⟩
    exact skipStatement_append hall hsemicolon ts
  have hbrace : nextIs .openBrace (tokens ++ equals :: (body ++ semicolon :: ts)) = false := by
    obtain ⟨t, more, rfl, ht⟩ := head_of_derives hname
    simp [ht]
  have hequal : nextReads "=" (equals :: (body ++ semicolon :: ts)) = true := by
    rw [nextReads_cons, hequals.text]
    rfl
  rw [scopeHead, if_neg (by simp [hbrace]), hread]
  dsimp only
  rw [if_pos hequal, hskip]

namespace Progress

/-- Filler is passed by steps that neither find a declaration nor open or close a scope. -/
theorem steps_filler {filler : List Token} (h : Declaration.Filler filler)
    (scopes : List OpenScope) (found : List Declaration) (ts : List Token) :
    Steps ⟨scopes, found, filler ++ ts⟩ ⟨scopes, found, ts⟩ := by
  induction h with
  | nil => exact .refl
  | @block g more hg _ ih =>
    rw [List.append_assoc]
    have hread : Parser.group .openBrace .closeBrace (g ++ (more ++ ts)) = .ok g (more ++ ts) := by
      rw [Parser.group, hg.splitGroup]
    obtain ⟨t, tokens, rfl, ht⟩ := hg.exists_cons
    exact .head (.skipBlock (of_decide_eq_true ht) hread) ih
  | @usingStatement keyword semicolon body more hkeyword hbody hsemicolon _ ih =>
    have hstep : Step ⟨scopes, found, keyword :: (body ++ semicolon :: (more ++ ts))⟩ _ :=
      .skipUsing hkeyword
    rw [skipStatement_append hbody hsemicolon] at hstep
    simpa using Relation.ReflTransGen.head hstep ih
  | @template keyword g more hkeyword hg _ ih =>
    have hskip : Parser.skipTemplate (g ++ (more ++ ts)) = more ++ ts := by
      have hsplit := Parser.splitAngles_of_isGroup hg (more ++ ts)
      obtain ⟨t, tokens, rfl, ht⟩ := hg.exists_cons
      rw [Parser.skipTemplate, Parser.skipAngles, if_pos (by simpa using ht), hsplit]
    have hstep : Step ⟨scopes, found, keyword :: (g ++ (more ++ ts))⟩ _ := .skipTemplate hkeyword
    rw [hskip] at hstep
    simpa using Relation.ReflTransGen.head hstep ih
  | @enumeration t keyword more hkind htext hkeyword _ ih =>
    have hskip : Parser.skipEnum (keyword :: (more ++ ts)) = more ++ ts := by
      rw [Parser.skipEnum, if_pos (by simpa using hkeyword), List.tail_cons]
    have hstep : Step ⟨scopes, found, t :: keyword :: (more ++ ts)⟩ _ := .skipEnum hkind htext
    rw [hskip] at hstep
    exact .head hstep ih
  | @namespaceAlias keyword equals semicolon name tokens body more hkeyword hname hequals hbody
      hsemicolon _ ih =>
    have hread := Parser.scopeHead_alias keyword hname hequals hbody hsemicolon (more ++ ts)
    simpa using Relation.ReflTransGen.head (Step.skipAlias hkeyword hread) ih
  | @attributes group tokens more hgroup _ ih =>
    rw [List.append_assoc]
    have hread := Parser.attributeSequence_of_derives hgroup (more ++ ts)
    obtain ⟨hopening, -, -, -⟩ := hgroup
    exact .head (.skipAttributes hopening hread) ih
  | idle ht _ ih => exact .head (.skipIdle ht) ih

end Progress

/-- **What is skipped leaves no trace.** Filler before the rest of a class body, and filler before
the declarations that follow in any scope, changes neither what is read nor which tokens are left
nor the error. -/
theorem Parser.filler_without_trace :
    (∀ filler, Member.Filler filler → ∀ ts, members 0 (filler ++ ts) = members 0 ts) ∧
      ∀ filler, Declaration.Filler filler → ∀ scopes found ts,
        declarations scopes found (filler ++ ts) = declarations scopes found ts := by
  refine ⟨fun filler h ts => members_filler h ts, fun filler h scopes found ts => ?_⟩
  exact Progress.outcome_of_steps (Progress.steps_filler h scopes found ts)

/-- Filler that ends in an access keyword whose colon is not part of it; a statement and the head of
a template before a class. -/
theorem Parser.filler_without_trace_access :
    let body : List Token := [⟨.publicKeyword, "public", {}⟩, ⟨.openBrace, "\x7b", {}⟩,
      ⟨.attributeOpen, "[[", {}⟩, ⟨.closeBrace, "\x7d", {}⟩, ⟨.privateKeyword, "private", {}⟩]
    let rest : List Token := [⟨.colon, ":", {}⟩, ⟨.closeBrace, "\x7d", {}⟩]
    let before : List Token := [⟨.usingKeyword, "using", {}⟩, ⟨.classKeyword, "class", {}⟩,
      ⟨.semicolon, ";", {}⟩, ⟨.templateKeyword, "template", {}⟩, ⟨.identifier, "<", {}⟩,
      ⟨.classKeyword, "class", {}⟩, ⟨.identifier, ">", {}⟩]
    let after : List Token := [⟨.classKeyword, "class", {}⟩, ⟨.identifier, "A", {}⟩,
      ⟨.semicolon, ";", {}⟩]
    Member.Filler body ∧ Declaration.Filler before ∧
      members 0 (body ++ rest) = members 0 rest ∧
      declarations [] [] (before ++ after) = declarations [] [] after := by
  intro body rest before after
  let block : List Token := [⟨.openBrace, "\x7b", {}⟩, ⟨.attributeOpen, "[[", {}⟩,
    ⟨.closeBrace, "\x7d", {}⟩]
  let angles : List Token := [⟨.identifier, "<", {}⟩, ⟨.classKeyword, "class", {}⟩,
    ⟨.identifier, ">", {}⟩]
  have hblock : IsBlock block :=
    ((@splitGroup_eq_some_iff _ _ braces_disjoint block block [] ⟨_, rfl, rfl⟩).1 rfl).2
  have hangles : IsGroup (·.text = "<") (·.text = ">") angles :=
    ((@splitGroup_eq_some_iff _ _ angles_disjoint angles angles [] ⟨_, rfl, rfl⟩).1 rfl).2
  have hbody : Member.Filler body :=
    .token (by decide) (.block hblock (.token (by decide) .nil))
  have husing : ∀ t ∈ [(⟨.classKeyword, "class", {}⟩ : Token)], t.kind ≠ .semicolon := by decide
  have hbefore : Declaration.Filler before :=
    .usingStatement rfl husing rfl (.template rfl hangles .nil)
  exact ⟨hbody, hbefore, filler_without_trace.1 body hbody rest,
    filler_without_trace.2 before hbefore [] [] after⟩

end HeaderReflection
