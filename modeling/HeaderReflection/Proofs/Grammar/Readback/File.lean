import HeaderReflection.Proofs.Grammar.Progress
import HeaderReflection.Proofs.Grammar.Readback.Members

/-!
# Reading a file back

A written tree is read by as many steps as it has declarations, braces and semicolons, and each
declaration is found where it stands (`Progress.steps_of_spelled`). Only a directive could take too
much, and no declaration starts with a word or a string.
-/

namespace HeaderReflection

/-- What follows does not go on with a directive. -/
def EndsDirective (ts : List Token) : Prop :=
  ∀ t ∈ ts.head?, t.kind ≠ .identifier ∧ t.kind ≠ .stringLiteral

theorem endsDirective_nil : EndsDirective [] := by
  intro t ht
  cases ht

theorem endsDirective_cons {t : Token} (hidentifier : t.kind ≠ .identifier)
    (hstring : t.kind ≠ .stringLiteral) (ts : List Token) : EndsDirective (t :: ts) := by
  intro u hu
  cases hu
  exact ⟨hidentifier, hstring⟩

/-- No declaration starts with a word or a string. -/
theorem endsDirective_of_spelledAll {ds : List Declaration} {ts rest : List Token}
    (hspelled : Declaration.SpelledAll ds ts) (hds : Declaration.AllWellFormed ds)
    (hrest : EndsDirective rest) : EndsDirective (ts ++ rest) := by
  cases hspelled with
  | nil => exact hrest
  | cons h hmore =>
    obtain ⟨hd, -⟩ := hds
    cases h with
    | scope _ _ _ _ =>
      obtain ⟨hkeyword, -⟩ := hd
      exact endsDirective_cons (by simp [hkeyword]) (by simp [hkeyword]) _
    | record h _ =>
      obtain ⟨_, _, _, _, _, _⟩ := h
      rcases hd.keyword with hkeyword | hkeyword
      · exact endsDirective_cons (by simp [hkeyword]) (by simp [hkeyword]) _
      · exact endsDirective_cons (by simp [hkeyword]) (by simp [hkeyword]) _
    | directive d =>
      exact endsDirective_cons (by simp [hd.hash]) (by simp [hd.hash]) _

namespace Parser

theorem directiveRest_of_literals {line : Nat} {ls : List Literal} {rest : List Token}
    (hls : ∀ l ∈ ls, l.WellFormed ∧ l.kind ≠ .number ∧ l.token.position.line = line)
    (hrest : EndsDirective rest) :
    directiveRest line (ls.map Literal.token ++ rest) = (ls, rest) := by
  induction ls with
  | nil =>
    cases rest with
    | nil => rfl
    | cons t rest =>
      obtain ⟨hidentifier, hstring⟩ := hrest t rfl
      rw [List.map_nil, List.nil_append, directiveRest]
      split
      · split
        next hkind => exact absurd (LiteralKind.of?_eq_identifier.1 hkind) hidentifier
        next hkind => exact absurd (LiteralKind.of?_eq_string.1 hkind) hstring
        next => rfl
      · rfl
  | cons l ls ih =>
    obtain ⟨hwell, hnumber, hline⟩ := hls l List.mem_cons_self
    have hmore := ih fun l' hl' => hls l' (List.mem_cons_of_mem _ hl')
    obtain ⟨t, kind⟩ := l
    rw [List.map_cons, List.cons_append, directiveRest, if_pos hline]
    rw [Literal.WellFormed] at hwell
    cases kind with
    | identifier => simp only [hwell, hmore]
    | string => simp only [hwell, hmore]
    | number => exact absurd rfl hnumber

theorem scopeHead_of_spelled (keyword : Token) {opening : Token} {name : QualifiedName}
    {ts : List Token} (hspelled : name.Spelled ts) (hname : name.WellFormed)
    (hopening : opening.IsSign '\x7b') (rest : List Token) :
    scopeHead keyword (ts ++ opening :: rest) = .ok (some (some (keyword, name))) rest := by
  have hbrace : opening.kind = .openBrace := hopening.kind
  obtain ⟨t, more, hts, ht⟩ := head_of_spelled hspelled hname
  have hnamed : nextIs .openBrace (ts ++ opening :: rest) = false := by simp [hts, ht]
  have hread := qualifiedName_of_spelled hspelled hname
    (startsScope_of_kind (show opening.kind ≠ .colon by simp [hbrace]) rest)
  have halias : nextReads "=" (opening :: rest) = false := by
    rw [nextReads_cons, hopening.text]
    decide
  rw [scopeHead, if_neg (by simp [hnamed]), hread]
  show (if nextReads "=" (opening :: rest) = true then _ else _) = _
  rw [if_neg (by simp [halias]), expect_cons hbrace, Reading.map_ok]

end Parser

namespace Progress

mutual

/-- **A declaration that is written is found.** The reading goes from the first of its tokens to
what follows them, and adds the declaration to those found before. -/
theorem steps_of_spelled {d : Declaration} {ts : List Token} (hspelled : d.Spelled ts)
    (hd : d.WellFormed) (scopes : List OpenScope) (found : List Declaration) {rest : List Token}
    (hrest : EndsDirective rest) :
    Steps ⟨scopes, found, ts ++ rest⟩ ⟨scopes, found ++ [d], rest⟩ := by
  cases hspelled with
  | @scope keyword opening closing name inside ts more hname hopening hinside hclosing =>
    obtain ⟨hkeyword, hwell, hall⟩ := hd
    have hbrace : closing.kind = .closeBrace := hclosing.kind
    have hhead := Parser.scopeHead_of_spelled keyword hname hwell hopening
      (more ++ closing :: rest)
    have hends : EndsDirective (closing :: rest) :=
      endsDirective_cons (by simp [hbrace]) (by simp [hbrace]) rest
    have hrun := steps_of_spelledAll hinside hall (⟨some (keyword, name), found⟩ :: scopes) [] hends
    -- The namespace is entered, read as the innermost scope, and left at its own brace.
    have happend : keyword :: (ts ++ opening :: (more ++ [closing])) ++ rest =
        keyword :: (ts ++ opening :: (more ++ closing :: rest)) := by simp
    rw [happend]
    exact (Relation.ReflTransGen.head (.enter hkeyword hhead) hrun).tail (.leave hbrace)
  | @record c ts semicolon h hsemicolon =>
    have hkind : semicolon.kind = .semicolon := hsemicolon.kind
    obtain ⟨body, rfl, hread⟩ := Parser.classDeclaration_of_spelled h hd
    have hidle : IsIdle semicolon := by simp [IsIdle, hkind]
    rw [List.append_assoc, List.cons_append, List.singleton_append]
    exact (Relation.ReflTransGen.single (.record hd.keyword (hread (semicolon :: rest)))).tail
      (.skipIdle hidle)
  | directive d =>
    have hstep : Step ⟨scopes, found, d.hash :: (d.rest.map Literal.token ++ rest)⟩ _ :=
      .directive hd.hash
    rw [Parser.directiveRest_of_literals hd.rest hrest] at hstep
    exact .single hstep

theorem steps_of_spelledAll {ds : List Declaration} {ts : List Token}
    (hspelled : Declaration.SpelledAll ds ts) (hds : Declaration.AllWellFormed ds)
    (scopes : List OpenScope) (found : List Declaration) {rest : List Token}
    (hrest : EndsDirective rest) :
    Steps ⟨scopes, found, ts ++ rest⟩ ⟨scopes, found ++ ds, rest⟩ := by
  cases hspelled with
  | nil =>
    rw [List.append_nil]
    exact .refl
  | @cons d ds ts more h hmore =>
    obtain ⟨hd, hall⟩ := hds
    have hfirst := steps_of_spelled h hd scopes found (endsDirective_of_spelledAll hmore hall hrest)
    have hothers := steps_of_spelledAll hmore hall scopes (found ++ [d]) hrest
    rw [List.append_assoc] at hothers ⊢
    exact hfirst.trans hothers

end

end Progress

end HeaderReflection
