import HeaderReflection.Proofs.Grammar.Failing
import HeaderReflection.Proofs.Grammar.ReadTrees
import HeaderReflection.Proofs.Grammar.Skipping

/-!
# Directives and the rest of their lines

A directive takes the words and strings that follow its sign on the line, and the first other token
ends it, even if the line goes on. What is left of the line is then read like anything that follows
a declaration. So a class or namespace may start there, and nothing that starts there stops at the
end of the line.

The nodes of a tree are those that the reading finds where it comes to stand between two
declarations (`Progress.mem_headsAll_iff`), which tells exactly when no keyword of a tree is on the
line of a directive (`CompilationUnit.offDirectiveLines_iff`).
-/

namespace HeaderReflection

/-- Whether the first token on the line of a token is the sign of a directive. -/
def Token.onDirectiveLine (source : List Token) (t : Token) : Bool :=
  (source.find? (·.position.line = t.position.line)).any (·.kind = .hash)

/-! ## The nodes of a tree -/

namespace Declaration

/-- What tells a node of the tree from the others. -/
inductive Head
  /-- The keyword of a class or namespace. -/
  | keyword (t : Token)
  /-- A directive. -/
  | directive (d : Directive)
  deriving DecidableEq, Repr

mutual

/-- The namespaces, classes and directives in a declaration, parents first. -/
def heads : Declaration → List Head
  | scope keyword _ inside => .keyword keyword :: headsAll inside
  | record c => [.keyword c.keyword]
  | directive d => [.directive d]
  | unit inside => headsAll inside
  | part _ => []

/-- The nodes of several declarations. -/
def headsAll : List Declaration → List Head
  | [] => []
  | d :: ds => d.heads ++ headsAll ds

end

@[simp] theorem headsAll_nil : headsAll [] = [] := rfl

@[simp] theorem headsAll_singleton (d : Declaration) : headsAll [d] = d.heads :=
  List.append_nil d.heads

@[simp] theorem headsAll_append (ds es : List Declaration) :
    headsAll (ds ++ es) = headsAll ds ++ headsAll es := by
  induction ds with
  | nil => rfl
  | cons d ds ih => rw [List.cons_append, headsAll, headsAll, ih, List.append_assoc]

mutual

theorem mem_tokens_of_keyword {k : Token} (d : Declaration) (h : .keyword k ∈ d.heads) :
    k ∈ d.tokens := by
  match d with
  | scope keyword name inside =>
    rcases List.mem_cons.1 h with hk | hinside
    · cases hk
      exact List.mem_cons_self
    · have htokens := mem_tokensAll_of_keyword inside hinside
      exact List.mem_cons_of_mem _ (List.mem_append_right _ htokens)
  | record c =>
    cases List.mem_singleton.1 h
    exact List.mem_cons_self
  | directive d => cases List.mem_singleton.1 h
  | unit inside => exact mem_tokensAll_of_keyword inside h
  | part p => cases h

theorem mem_tokensAll_of_keyword {k : Token} (ds : List Declaration)
    (h : .keyword k ∈ headsAll ds) : k ∈ tokensAll ds := by
  match ds with
  | [] => cases h
  | d :: ds =>
    rcases List.mem_append.1 h with hd | hds
    · exact List.mem_append_left _ (mem_tokens_of_keyword d hd)
    · exact List.mem_append_right _ (mem_tokensAll_of_keyword ds hds)

end

end Declaration

/-- The nodes of a file, parents first. -/
def CompilationUnit.heads (unit : CompilationUnit) : List Declaration.Head :=
  Declaration.headsAll unit.declarations

/-- No class or namespace of the file has its keyword on the line of a directive. -/
def CompilationUnit.OffDirectiveLines (source : List Token) (unit : CompilationUnit) : Prop :=
  ∀ k, .keyword k ∈ unit.heads → Token.onDirectiveLine source k = false

namespace Parser

/-! ## Where a node starts -/

/-- Whether a class or namespace with a name starts with this token before the others. -/
def startsNamed (t : Token) (rest : List Token) : Bool :=
  if t.kind = .classKeyword ∨ t.kind = .structKeyword then
    match attributeSequences rest with
    | .ok _ afterAttributes => nextIs .identifier afterAttributes
    | .error _ _ => false
  else if t.kind = .namespaceKeyword then
    match qualifiedName rest with
    | .ok _ afterName => !nextReads "=" afterName
    | .error _ _ => false
  else false

/-- The node that starts with this token before the others, if one does. -/
def headsAt (t : Token) (rest : List Token) : List Declaration.Head :=
  if t.kind = .hash then [.directive ⟨t, (directiveRest t.position.line rest).1⟩]
  else if startsNamed t rest then [.keyword t]
  else []

theorem startsNamed_eq_false {t : Token}
    (h : t.kind ∉ [.classKeyword, .structKeyword, .namespaceKeyword]) (rest : List Token) :
    startsNamed t rest = false := by
  simp only [List.mem_cons, List.not_mem_nil, or_false, not_or] at h
  simp [startsNamed, h]

/-- Only a keyword starts a class or namespace. -/
theorem kind_of_startsNamed {t : Token} {rest : List Token} (h : startsNamed t rest = true) :
    t.kind ∈ [.classKeyword, .structKeyword, .namespaceKeyword] := by
  refine Classical.byContradiction fun hkind => ?_
  rw [startsNamed_eq_false hkind] at h
  cases h

theorem headsAt_of_hash {t : Token} (h : t.kind = .hash) (rest : List Token) :
    headsAt t rest = [.directive ⟨t, (directiveRest t.position.line rest).1⟩] := if_pos h

theorem headsAt_of_ne_hash {t : Token} (h : t.kind ≠ .hash) (rest : List Token) :
    headsAt t rest = if startsNamed t rest then [.keyword t] else [] := if_neg h

theorem headsAt_eq_nil {t : Token}
    (h : t.kind ∉ [.hash, .classKeyword, .structKeyword, .namespaceKeyword]) (rest : List Token) :
    headsAt t rest = [] := by
  obtain ⟨hhash, hkind⟩ := not_or.1 (mt List.mem_cons.2 h)
  rw [headsAt_of_ne_hash hhash, startsNamed_eq_false hkind]
  rfl

theorem mem_headsAt_keyword {k t : Token} {rest : List Token} :
    .keyword k ∈ headsAt t rest ↔ t = k ∧ startsNamed k rest = true := by
  by_cases hhash : t.kind = .hash
  · rw [headsAt_of_hash hhash]
    constructor
    · intro h
      cases List.mem_singleton.1 h
    · rintro ⟨rfl, hnamed⟩
      have hkind := kind_of_startsNamed hnamed
      rw [hhash] at hkind
      exact absurd hkind (by decide)
  · rw [headsAt_of_ne_hash hhash]
    split
    next hnamed =>
      rw [List.mem_singleton]
      constructor
      · intro h
        cases h
        exact ⟨rfl, hnamed⟩
      · rintro ⟨rfl, -⟩
        rfl
    next hnamed =>
      constructor
      · intro h
        cases h
      · rintro ⟨rfl, h⟩
        exact absurd h hnamed

theorem mem_headsAt_directive {d : Directive} {t : Token} {rest : List Token}
    (h : .directive d ∈ headsAt t rest) :
    t.kind = .hash ∧ d = ⟨t, (directiveRest t.position.line rest).1⟩ := by
  by_cases hhash : t.kind = .hash
  · rw [headsAt_of_hash hhash] at h
    cases List.mem_singleton.1 h
    exact ⟨hhash, rfl⟩
  · rw [headsAt_of_ne_hash hhash] at h
    split at h
    · cases List.mem_singleton.1 h
    · cases h

/-- A class is kept when a name follows its attributes. -/
theorem headsAt_of_classDeclaration {t : Token} {ts rest : List Token}
    {c : Option ClassDeclaration} (hkind : t.kind = .classKeyword ∨ t.kind = .structKeyword)
    (h : classDeclaration t ts = .ok c rest) :
    headsAt t ts = Declaration.headsAll (c.toList.map .record) := by
  have hhash : t.kind ≠ .hash := by
    rcases hkind with hkind | hkind <;> simp [hkind]
  obtain ⟨groups, afterAttributes, hgroups, h⟩ := bind_eq_ok.1 h
  have hnamed : startsNamed t ts = nextIs .identifier afterAttributes := by
    rw [startsNamed, if_pos hkind, hgroups]
  rw [headsAt_of_ne_hash hhash, hnamed]
  unfold classRest at h
  split at h
  next hnext =>
    obtain ⟨name, _, -, h⟩ := bind_eq_ok.1 h
    obtain ⟨bases, _, -, h⟩ := bind_eq_ok.1 h
    obtain ⟨members, _, -, h⟩ := bind_eq_ok.1 h
    obtain ⟨rfl, -⟩ := pure_eq_ok.1 h
    rw [if_pos hnext]
    rfl
  next hnext =>
    obtain ⟨members, -, rfl⟩ := Reading.map_eq_ok.1 h
    rw [if_neg hnext]
    rfl

/-- The node of a namespace that has been entered, if it has a name. -/
def headerHeads : Option (Token × QualifiedName) → List Declaration.Head
  | none => []
  | some (keyword, _) => [.keyword keyword]

/-- No name starts with a brace. -/
theorem qualifiedName_openBrace {t : Token} (h : t.kind = .openBrace) (ts : List Token) :
    qualifiedName (t :: ts) = .error (.mismatch .identifier t) (t :: ts) := by
  change EStateM.bind identifier _ (t :: ts) = _
  simp [EStateM.bind, identifier, expect, h]

/-- A namespace is kept when a name follows that is no alias. -/
theorem headsAt_of_scopeHead {t : Token} {ts rest : List Token}
    {head : Option (Option (Token × QualifiedName))} (hkind : t.kind = .namespaceKeyword)
    (h : scopeHead t ts = .ok head rest) : headsAt t ts = headerHeads head.join := by
  have hnamed : startsNamed t ts =
      match qualifiedName ts with
      | .ok _ afterName => !nextReads "=" afterName
      | .error _ _ => false := by
    rw [startsNamed, if_neg (by simp [hkind]), if_pos hkind]
  rw [headsAt_of_ne_hash (by simp [hkind]), hnamed]
  unfold scopeHead at h
  split at h
  next hbrace =>
    cases h
    cases ts with
    | nil => cases hbrace
    | cons u us =>
      rw [qualifiedName_openBrace (of_decide_eq_true hbrace)]
      rfl
  next hbrace =>
    split at h
    next => cases h
    next name afterName hname =>
      rw [hname]
      split at h
      next halias =>
        cases h
        simp [halias, headerHeads]
      next halias =>
        obtain ⟨brace, -, rfl⟩ := Reading.map_eq_ok.1 h
        simp [halias, headerHeads]

/-! ## Nodes found so far -/

/-- The nodes of everything that is read when the namespaces in `scopes` are open and `found` are
the declarations of the innermost scope so far. -/
def pendingHeads : List OpenScope → List Declaration → List Declaration.Head
  | [], found => Declaration.headsAll found
  | scope :: scopes, found =>
    pendingHeads scopes scope.before ++ (headerHeads scope.header ++ Declaration.headsAll found)

theorem pendingHeads_append (scopes : List OpenScope) (found more : List Declaration) :
    pendingHeads scopes (found ++ more) =
      pendingHeads scopes found ++ Declaration.headsAll more := by
  cases scopes with
  | nil => exact Declaration.headsAll_append found more
  | cons scope scopes =>
    rw [pendingHeads, pendingHeads, Declaration.headsAll_append, List.append_assoc,
      List.append_assoc]

/-- Closing a namespace adds no node: its own was there when it was entered. -/
theorem pendingHeads_close (scope : OpenScope) (scopes : List OpenScope)
    (found : List Declaration) :
    pendingHeads scopes (scope.close found) = pendingHeads (scope :: scopes) found := by
  obtain ⟨header, before⟩ := scope
  cases header with
  | none =>
    rw [OpenScope.close, pendingHeads_append]
    rfl
  | some header =>
    obtain ⟨keyword, name⟩ := header
    rw [OpenScope.close, pendingHeads_append, Declaration.headsAll_singleton]
    rfl

/-- Between two declarations the reading of the tokens comes to stand before those in `left`. -/
def StandsBefore (source left : List Token) : Prop :=
  ∃ scopes found, Progress.Steps ⟨[], [], source⟩ ⟨scopes, found, left⟩

theorem StandsBefore.suffix {source left : List Token} (h : StandsBefore source left) :
    left <:+ source := by
  obtain ⟨scopes, found, hsteps⟩ := h
  exact Progress.left_suffix_of_steps hsteps

end Parser

namespace Progress

/-- The nodes found so far. -/
def heads (p : Progress) : List Declaration.Head := Parser.pendingHeads p.scopes p.found

/-- **One step finds the node that starts with the next token**, and none if none does. -/
theorem heads_of_step {p q : Progress} (h : Step p q) :
    ∃ t rest, p.left = t :: rest ∧ q.heads = p.heads ++ Parser.headsAt t rest := by
  -- all steps but four go over a token that starts no node, and find none
  have hskip : ∀ {t : Token} {rest : List Token},
      t.kind ∉ [.hash, .classKeyword, .structKeyword, .namespaceKeyword] →
      p.left = t :: rest → q.heads = p.heads →
      ∃ t rest, p.left = t :: rest ∧ q.heads = p.heads ++ Parser.headsAt t rest := by
    intro t rest hkind hleft hheads
    refine ⟨t, rest, hleft, ?_⟩
    rw [Parser.headsAt_eq_nil hkind, List.append_nil, hheads]
  cases h with
  | @record scopes found t ts rest c hkind hread =>
    refine ⟨t, ts, rfl, ?_⟩
    rw [Parser.headsAt_of_classDeclaration hkind hread]
    exact Parser.pendingHeads_append scopes found _
  | @skipAlias scopes found t ts rest hkind hread =>
    refine ⟨t, ts, rfl, ?_⟩
    rw [Parser.headsAt_of_scopeHead hkind hread]
    exact (List.append_nil _).symm
  | @enter scopes found t ts rest header hkind hread =>
    refine ⟨t, ts, rfl, ?_⟩
    rw [Parser.headsAt_of_scopeHead hkind hread, heads, heads, Parser.pendingHeads,
      Declaration.headsAll_nil, List.append_nil]
    rfl
  | @directive scopes found t ts hkind =>
    refine ⟨t, ts, rfl, ?_⟩
    rw [Parser.headsAt_of_hash hkind]
    exact Parser.pendingHeads_append scopes found _
  | skipAttributes hkind hread => exact hskip (by simp [hkind]) rfl rfl
  | leave hkind => exact hskip (by simp [hkind]) rfl (Parser.pendingHeads_close _ _ _)
  | skipBrace hkind => exact hskip (by simp [hkind]) rfl rfl
  | skipBlock hkind hread => exact hskip (by simp [hkind]) rfl rfl
  | skipTemplate hkind => exact hskip (by simp [hkind]) rfl rfl
  | skipUsing hkind => exact hskip (by simp [hkind]) rfl rfl
  | skipEnum hkind htext => exact hskip (by simp [hkind]) rfl rfl
  | skipIdle hidle =>
    refine hskip ?_ rfl rfl
    have hkind := hidle.1
    simp only [List.mem_cons, List.not_mem_nil, or_false, not_or] at hkind ⊢
    exact ⟨hkind.2.2.2.1, hkind.1, hkind.2.1, hkind.2.2.1⟩

/-- A run keeps the nodes it has found. -/
theorem mem_heads_of_steps {p q : Progress} (h : Steps p q) {head : Declaration.Head}
    (hhead : head ∈ p.heads) : head ∈ q.heads := by
  induction h with
  | refl => exact hhead
  | tail _ hstep ih =>
    obtain ⟨t, rest, -, hheads⟩ := heads_of_step hstep
    rw [hheads]
    exact List.mem_append_left _ ih

/-- A run finds a node nowhere but where it stands. -/
theorem standsBefore_of_mem_heads {source : List Token} {q : Progress}
    (h : Steps ⟨[], [], source⟩ q) {head : Declaration.Head} (hhead : head ∈ q.heads) :
    ∃ t rest, Parser.StandsBefore source (t :: rest) ∧ head ∈ Parser.headsAt t rest := by
  induction h with
  | refl => cases hhead
  | @tail p q hsteps hstep ih =>
    obtain ⟨t, rest, hleft, hheads⟩ := heads_of_step hstep
    rw [hheads] at hhead
    rcases List.mem_append.1 hhead with hold | hnew
    · exact ih hold
    · obtain ⟨scopes, found, left⟩ := p
      cases hleft
      exact ⟨t, rest, ⟨scopes, found, hsteps⟩, hnew⟩

/-- From everywhere that a successful reading comes to stand, it goes on to its end. -/
theorem steps_to_end {source : List Token} {ds : List Declaration} {p : Progress}
    (hread : Parser.declarations [] [] source = .ok ds []) (h : Steps ⟨[], [], source⟩ p) :
    Steps p ⟨[], ds, []⟩ := by
  have houtcome : p.outcome = .ok ds [] := (outcome_of_steps h).symm.trans hread
  exact (steps_of_declarations houtcome).1

/-- **The nodes of a tree are those that start where the reading comes to stand.** -/
theorem mem_headsAll_iff {source : List Token} {ds : List Declaration}
    (hread : Parser.declarations [] [] source = .ok ds []) {head : Declaration.Head} :
    head ∈ Declaration.headsAll ds ↔
      ∃ t rest, Parser.StandsBefore source (t :: rest) ∧ head ∈ Parser.headsAt t rest := by
  constructor
  · exact standsBefore_of_mem_heads (steps_of_declarations hread).1
  · rintro ⟨t, rest, ⟨scopes, found, hsteps⟩, hhead⟩
    have hend := steps_to_end hread hsteps
    rcases hend.cases_head with hstop | ⟨next, hstep, hrun⟩
    · cases hstop
    · obtain ⟨u, us, hleft, hheads⟩ := heads_of_step hstep
      cases hleft
      have hfound : head ∈ next.heads := by
        rw [hheads]
        exact List.mem_append_right _ hhead
      exact mem_heads_of_steps hrun hfound

end Progress

/-! ## Directives -/

/-- Tokens at different places are different. -/
theorem Token.nodup_significant {text : String} {ts : List Token} (h : tokenize text = .ok ts) :
    (significant ts).Nodup := by
  refine List.Pairwise.imp ?_ ((offsets_increase h).filter _)
  rintro a b hlt rfl
  exact Nat.lt_irrefl _ hlt

/-- What follows a token in a list without repetitions depends on the token alone. -/
theorem eq_of_suffix_cons {source rest rest' : List Token} {t : Token} (hnodup : source.Nodup)
    (h : t :: rest <:+ source) (h' : t :: rest' <:+ source) : rest = rest' := by
  have hshort : ∀ {us vs : List Token}, t :: vs <:+ source → t :: us <:+ t :: vs → us = vs := by
    intro us vs hvs hsuffix
    rcases List.suffix_cons_iff.1 hsuffix with heq | hinside
    · exact (List.cons.inj heq).2
    · have hmem : t ∈ vs := hinside.subset List.mem_cons_self
      exact absurd hmem (List.nodup_cons.1 (hnodup.sublist hvs.sublist)).1
  rcases List.suffix_or_suffix_of_suffix h h' with hsuffix | hsuffix
  · exact hshort h' hsuffix
  · exact (hshort h hsuffix).symm

/-- A directive is read as its sign and all words and strings that follow on the line of the sign,
up to the first other token or the end of the line. -/
structure Directive.ReadBetween (source before after : List Token) (d : Directive) : Prop where
  source : source = before ++ (d.tokens ++ after)
  wellFormed : d.WellFormed
  ends : ∀ t ∈ after.head?, t.position.line = d.hash.position.line →
    t.kind ≠ .identifier ∧ t.kind ≠ .stringLiteral

namespace Parser

/-- No word or string on the line is left over. -/
theorem head_directiveRest (line : Nat) (ts : List Token) :
    ∀ t ∈ (directiveRest line ts).2.head?, t.position.line = line →
      t.kind ≠ .identifier ∧ t.kind ≠ .stringLiteral := by
  fun_induction directiveRest line ts with
  | case1 => intro t ht; cases ht
  | case2 t ts _ _ ih => exact ih
  | case3 t ts _ _ ih => exact ih
  | case4 t ts _ hidentifier hstring =>
    intro u hu _
    cases hu
    exact ⟨mt LiteralKind.of?_eq_identifier.2 hidentifier, mt LiteralKind.of?_eq_string.2 hstring⟩
  | case5 t ts hline =>
    intro u hu huline
    cases hu
    exact absurd huline hline

variable {source : List Token} {ds : List Declaration}

theorem keyword_mem_iff (hread : declarations [] [] source = .ok ds []) {k : Token} :
    .keyword k ∈ Declaration.headsAll ds ↔
      ∃ rest, StandsBefore source (k :: rest) ∧ startsNamed k rest = true := by
  rw [Progress.mem_headsAll_iff hread]
  constructor
  · rintro ⟨t, rest, hstands, hhead⟩
    obtain ⟨rfl, hnamed⟩ := mem_headsAt_keyword.1 hhead
    exact ⟨rest, hstands, hnamed⟩
  · rintro ⟨rest, hstands, hnamed⟩
    exact ⟨k, rest, hstands, mem_headsAt_keyword.2 ⟨rfl, hnamed⟩⟩

/-- A directive of the tree was read off, and the reading then stands before what follows it. -/
theorem readBetween_of_mem (hread : declarations [] [] source = .ok ds []) {d : Directive}
    (hd : .directive d ∈ Declaration.headsAll ds) :
    ∃ before after, d.ReadBetween source before after ∧ StandsBefore source after := by
  obtain ⟨t, rest, ⟨scopes, found, hsteps⟩, hhead⟩ := (Progress.mem_headsAll_iff hread).1 hd
  obtain ⟨hhash, rfl⟩ := mem_headsAt_directive hhead
  obtain ⟨before, hsource⟩ := Progress.left_suffix_of_steps hsteps
  refine ⟨before, (directiveRest t.position.line rest).2, ⟨?_, ?_, ?_⟩, ?_⟩
  · rw [Directive.tokens, List.cons_append, directiveRest_append]
    exact hsource.symm
  · exact ⟨hhash, wellFormed_of_directiveRest _ _⟩
  · exact head_directiveRest _ _
  · exact ⟨scopes, _, hsteps.tail (.directive hhash)⟩

/-- Filler where the reading stands holds no keyword of the tree. -/
theorem not_mem_filler (hnodup : source.Nodup) (hread : declarations [] [] source = .ok ds [])
    {filler more : List Token} (hstands : StandsBefore source (filler ++ more))
    (hfiller : Declaration.Filler filler) {k : Token} (hk : .keyword k ∈ Declaration.headsAll ds) :
    k ∉ filler := by
  obtain ⟨scopes, found, hsteps⟩ := hstands
  -- what was read before the filler and what is read after it make up the tree
  have hbefore : (pendingTokens scopes found ++ (filler ++ more)).Sublist source :=
    Progress.sublist_tokens_of_steps hsteps
  have hend := Progress.steps_to_end hread
    (hsteps.trans (Progress.steps_filler hfiller scopes found more))
  have htree : (Declaration.tokensAll ds ++ []).Sublist (pendingTokens scopes found ++ more) :=
    Progress.sublist_tokens_of_steps hend
  have htoken : k ∈ pendingTokens scopes found ++ more :=
    htree.subset (List.mem_append_left _ (Declaration.mem_tokensAll_of_keyword ds hk))
  obtain ⟨-, hlater, hapart⟩ := List.nodup_append.1 (hnodup.sublist hbefore)
  intro hmem
  rcases List.mem_append.1 htoken with hold | hmore
  · exact hapart k hold k (List.mem_append_left more hmem) rfl
  · exact (List.nodup_append.1 hlater).2.2 k hmem k hmore rfl

end Parser

theorem Directive.not_mem_tokens {d : Directive} (hd : d.WellFormed) {k : Token}
    (hk : k.kind ∈ [.classKeyword, .structKeyword, .namespaceKeyword]) : k ∉ d.tokens := by
  intro hmem
  rcases List.mem_cons.1 hmem with rfl | hrest
  · rw [hd.hash] at hk
    exact absurd hk (by decide)
  · obtain ⟨l, hl, rfl⟩ := List.mem_map.1 hrest
    have hliteral : LiteralKind.of? l.token.kind = some l.kind := (hd.rest l hl).1
    simp only [List.mem_cons, List.not_mem_nil, or_false] at hk
    rcases hk with hk | hk | hk <;> (rw [hk] at hliteral; cases hliteral)

namespace CompilationUnit

/-- How the file goes on after a directive whose words filler follows. When nothing else stands on
the line of the directive, no class or namespace has its keyword there. What follows the filler is
the keyword of a class or namespace of the file whenever one with a name starts there, on whichever
line that is. -/
def GoesOnAfter (unit : CompilationUnit) (before after : List Token) (d : Directive) : Prop :=
  ∀ filler more, after = filler ++ more → Declaration.Filler filler →
    ((∀ t ∈ before ++ more, t.position.line ≠ d.hash.position.line) →
      ∀ k, .keyword k ∈ unit.heads → k.position.line ≠ d.hash.position.line) ∧
    ∀ k rest, more = k :: rest → (.keyword k ∈ unit.heads ↔ Parser.startsNamed k rest = true)

theorem declarations_of_ofTokens {ts : List Token} {unit : CompilationUnit}
    (h : ofTokens ts = .ok unit) :
    Parser.declarations [] [] (Token.significant ts) = .ok unit.declarations [] := by
  rw [ofTokens, Parser.unit] at h
  cases hread : Parser.declarations [] [] (Token.significant ts) with
  | error e rest =>
    rw [hread] at h
    cases h
  | ok ds rest =>
    rw [hread] at h
    cases h
    rw [(Progress.steps_of_declarations hread).2]

theorem goesOnAfter {source before after : List Token} {unit : CompilationUnit} {d : Directive}
    (hnodup : source.Nodup) (hread : Parser.declarations [] [] source = .ok unit.declarations [])
    (hbetween : d.ReadBetween source before after) (hstands : Parser.StandsBefore source after) :
    unit.GoesOnAfter before after d := by
  rintro filler more rfl hfiller
  constructor
  · intro hline k hk
    obtain ⟨rest, hat, hnamed⟩ := (Parser.keyword_mem_iff hread).1 hk
    have hsource : k ∈ before ++ (d.tokens ++ (filler ++ more)) := by
      rw [← hbetween.source]
      exact hat.suffix.subset List.mem_cons_self
    have hdirective :=
      Directive.not_mem_tokens hbetween.wellFormed (Parser.kind_of_startsNamed hnamed)
    have hfilled := Parser.not_mem_filler hnodup hread hstands hfiller hk
    refine hline k ?_
    simp only [List.mem_append, hdirective, hfilled, false_or] at hsource
    exact List.mem_append.2 hsource
  · rintro k rest rfl
    obtain ⟨scopes, found, hsteps⟩ := hstands
    have hthere : Parser.StandsBefore source (k :: rest) :=
      ⟨scopes, found, hsteps.trans (Progress.steps_filler hfiller scopes found _)⟩
    refine (Parser.keyword_mem_iff hread).trans ?_
    constructor
    · rintro ⟨rest', hat, hnamed⟩
      rwa [eq_of_suffix_cons hnodup hthere.suffix hat.suffix]
    · intro hnamed
      exact ⟨rest, hthere, hnamed⟩

/-- **When directives stay on their lines.** No keyword of a file's tree is on the line of a
directive exactly when the reading never stands before such a keyword on such a line. A directive
itself ends with the last of its words and strings, and the reading goes on from there: filler on
the line does no harm, but the first class or namespace after it is found even on the line of the
directive. -/
theorem offDirectiveLines_iff {text : String} {ts : List Token} {unit : CompilationUnit}
    (htokens : tokenize text = .ok ts) (hunit : ofTokens ts = .ok unit) :
    (unit.OffDirectiveLines (Token.significant ts) ↔
      ∀ k rest, Parser.StandsBefore (Token.significant ts) (k :: rest) →
        Parser.startsNamed k rest = true →
          Token.onDirectiveLine (Token.significant ts) k = false) ∧
    ∀ d, .directive d ∈ unit.heads →
      ∃ before after, d.ReadBetween (Token.significant ts) before after ∧
        unit.GoesOnAfter before after d := by
  have hread := declarations_of_ofTokens hunit
  constructor
  · constructor
    · intro hoff k rest hstands hnamed
      exact hoff k ((Parser.keyword_mem_iff hread).2 ⟨rest, hstands, hnamed⟩)
    · intro hoff k hk
      obtain ⟨rest, hstands, hnamed⟩ := (Parser.keyword_mem_iff hread).1 hk
      exact hoff k rest hstands hnamed
  · intro d hd
    obtain ⟨before, after, hbetween, hstands⟩ := Parser.readBetween_of_mem hread hd
    exact ⟨before, after, hbetween,
      goesOnAfter (Token.nodup_significant htokens) hread hbetween hstands⟩

/-- A macro with parameters and a block on its line, and a class on the next one. -/
theorem offDirectiveLines_iff_macro :
    ∃ ts unit, tokenize "#define M(x) \x7bx\x7d\nclass A;" = .ok ts ∧ ofTokens ts = .ok unit ∧
      unit.heads.length = 2 ∧
      (unit.OffDirectiveLines (Token.significant ts) ↔
        ∀ k rest, Parser.StandsBefore (Token.significant ts) (k :: rest) →
          Parser.startsNamed k rest = true →
            Token.onDirectiveLine (Token.significant ts) k = false) ∧
      ∀ d, .directive d ∈ unit.heads →
        ∃ before after, d.ReadBetween (Token.significant ts) before after ∧
          unit.GoesOnAfter before after d := by
  have hread : (ofString "#define M(x) \x7bx\x7d\nclass A;").toOption.map
      (fun unit => unit.heads.length) = some 2 := by decide +kernel
  rw [ofString] at hread
  cases htokens : tokenize "#define M(x) \x7bx\x7d\nclass A;" with
  | error e =>
    rw [htokens] at hread
    cases hread
  | ok ts =>
    rw [htokens] at hread
    dsimp only at hread
    cases hunit : ofTokens ts with
    | error e =>
      rw [hunit] at hread
      cases hread
    | ok unit =>
      rw [hunit] at hread
      exact ⟨ts, unit, rfl, hunit, Option.some.inj hread, offDirectiveLines_iff htokens hunit⟩

/-- The class `x` on the line of the `#define` takes the head of `A` with it. -/
theorem not_forall_offDirectiveLines :
    ¬∀ (text : String) (ts : List Token) (unit : CompilationUnit),
      tokenize text = .ok ts → ofTokens ts = .ok unit →
        unit.OffDirectiveLines (Token.significant ts) := by
  intro h
  let hash : Token := ⟨.hash, "#", ⟨0, 1, 1⟩⟩
  let define : Token := ⟨.identifier, "define", ⟨1, 1, 2⟩⟩
  let macroName : Token := ⟨.identifier, "FWD", ⟨8, 1, 9⟩⟩
  let keyword : Token := ⟨.classKeyword, "class", ⟨15, 1, 16⟩⟩
  let ts : List Token := [hash, define, ⟨.space, " ", ⟨7, 1, 8⟩⟩, macroName,
    ⟨.openParen, "(", ⟨11, 1, 12⟩⟩, ⟨.identifier, "x", ⟨12, 1, 13⟩⟩,
    ⟨.closeParen, ")", ⟨13, 1, 14⟩⟩, ⟨.space, " ", ⟨14, 1, 15⟩⟩, keyword,
    ⟨.space, " ", ⟨20, 1, 21⟩⟩, ⟨.identifier, "x", ⟨21, 1, 22⟩⟩, ⟨.lineEnd, "\n", ⟨22, 1, 23⟩⟩,
    ⟨.classKeyword, "class", ⟨23, 2, 1⟩⟩, ⟨.space, " ", ⟨28, 2, 6⟩⟩, ⟨.identifier, "A", ⟨29, 2, 7⟩⟩,
    ⟨.space, " ", ⟨30, 2, 8⟩⟩, ⟨.openBrace, "\x7b", ⟨31, 2, 9⟩⟩,
    ⟨.closeBrace, "\x7d", ⟨32, 2, 10⟩⟩, ⟨.semicolon, ";", ⟨33, 2, 11⟩⟩]
  let directive : Directive := ⟨hash, [⟨define, .identifier⟩, ⟨macroName, .identifier⟩]⟩
  have htokens : tokenize "#define FWD(x) class x\nclass A \x7b\x7d;" = .ok ts := by
    rw [tokenize_eq_ok]
    decide +kernel
  -- the keyword on the second line is in no node
  have hheads : (ofTokens ts).toOption.map heads =
      some [.directive directive, .keyword keyword] := by decide +kernel
  cases hunit : ofTokens ts with
  | error e =>
    rw [hunit] at hheads
    cases hheads
  | ok unit =>
    rw [hunit] at hheads
    have hfound : .keyword keyword ∈ unit.heads := by
      rw [Option.some.inj hheads]
      exact List.mem_cons_of_mem _ (List.mem_singleton_self _)
    have hoff := h _ ts unit htokens hunit keyword hfound
    have hline : Token.onDirectiveLine (Token.significant ts) keyword = true := by decide +kernel
    rw [hline] at hoff
    cases hoff

end CompilationUnit

end HeaderReflection
