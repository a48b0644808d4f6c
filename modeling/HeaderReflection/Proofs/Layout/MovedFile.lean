import HeaderReflection.Proofs.Layout.MovedReading

/-!
# Reading a moved file

The steps of reading a file are the same when its tokens are moved, if no token after a `#` comes to
its line or leaves it (`Progress.step_moved`). So a whole file is read as the moved tree, or fails
with the moved error (`Parser.unit_moved`).

Tokens that a reading is not given can be moved at will, so its error speaks of none of them
(`Parser.found_mem`).
-/

namespace HeaderReflection

/-- The tokens after a `#` are on its line when they were before. -/
def KeepsLines (m : Moving) (ts : List Token) : Prop :=
  ts.Pairwise fun t u => t.kind = .hash →
    ((m u).line = (m t).line ↔ u.position.line = t.position.line)

/-- The open namespace with its tokens moved. -/
def OpenScope.moved (m : Moving) (scope : OpenScope) : OpenScope where
  header := scope.header.map (Prod.map (Token.moved m) (QualifiedName.moved m))
  before := scope.before.map (Declaration.moved m)

/-- A state of the reading with all tokens moved. -/
def Progress.moved (m : Moving) (p : Progress) : Progress where
  scopes := p.scopes.map (OpenScope.moved m)
  found := p.found.map (Declaration.moved m)
  left := p.left.map (Token.moved m)

variable {m : Moving}

theorem OpenScope.close_moved (scope : OpenScope) (inside : List Declaration) :
    (scope.moved m).close (inside.map (Declaration.moved m)) =
      (scope.close inside).map (Declaration.moved m) := by
  obtain ⟨header, before⟩ := scope
  cases header with
  | none => simp [moved, close]
  | some header => simp [moved, close, Declaration.moved, Declaration.movedAll_eq_map]

namespace Parser

/-! ## Directives and namespaces -/

theorem directiveRest_moved {line line' : Nat} {ts : List Token}
    (h : ∀ t ∈ ts, ((m t).line = line' ↔ t.position.line = line)) :
    directiveRest line' (ts.map (Token.moved m)) =
      ((directiveRest line ts).1.map (Literal.moved m),
        (directiveRest line ts).2.map (Token.moved m)) := by
  fun_induction directiveRest line ts with
  | case1 => rfl
  | case2 t ts hline hkind ih =>
    have hmore := ih fun u hu => h u (List.mem_cons_of_mem t hu)
    rw [List.map_cons, directiveRest, Token.position_moved,
      if_pos ((h t List.mem_cons_self).2 hline),
      Token.kind_moved, hkind, hmore]
    rfl
  | case3 t ts hline hkind ih =>
    have hmore := ih fun u hu => h u (List.mem_cons_of_mem t hu)
    rw [List.map_cons, directiveRest, Token.position_moved,
      if_pos ((h t List.mem_cons_self).2 hline),
      Token.kind_moved, hkind, hmore]
    rfl
  | case4 t ts hline hidentifier hstring =>
    rw [List.map_cons, directiveRest, Token.position_moved,
      if_pos ((h t List.mem_cons_self).2 hline),
      Token.kind_moved]
    split
    next hkind => exact absurd hkind hidentifier
    next hkind => exact absurd hkind hstring
    next => rfl
  | case5 t ts hline =>
    rw [List.map_cons, directiveRest, Token.position_moved,
      if_neg fun hmoved => hline ((h t List.mem_cons_self).1 hmoved)]
    rfl

theorem skipEnum_moved (ts : List Token) :
    skipEnum (ts.map (Token.moved m)) = (skipEnum ts).map (Token.moved m) := by
  rw [skipEnum, skipEnum, nextIs_moved, nextIs_moved, ← List.map_tail]
  split <;> rfl

theorem scopeHead_moved (keyword : Token) (ts : List Token) :
    scopeHead (keyword.moved m) (ts.map (Token.moved m)) =
      Reading.moved m (Option.map (Option.map (Prod.map (Token.moved m) (QualifiedName.moved m))))
        (scopeHead keyword ts) := by
  rw [scopeHead, scopeHead, nextIs_moved, ← List.map_tail, qualifiedName_moved]
  split
  · rfl
  · cases qualifiedName ts with
    | error e rest => rfl
    | ok name rest =>
      simp only [Reading.moved_ok, nextReads_moved, skipStatement_moved, expect_moved]
      split
      · rfl
      · exact Reading.map_moved m (fun _ => by rfl) _

end Parser

/-! ## Steps -/

namespace Progress

/-- What a step leaves is part of what it was given. -/
theorem left_sublist_of_step {p q : Progress} (h : Step p q) : q.left.Sublist p.left := by
  cases h with
  | record hkind hread =>
    exact (List.sublist_append_right _ _).trans (Parser.sublist_classDeclaration hread)
  | skipAlias hkind hread =>
    exact (List.sublist_append_right _ _).trans (Parser.sublist_scopeHead hread)
  | enter hkind hread =>
    exact (List.sublist_append_right _ _).trans (Parser.sublist_scopeHead hread)
  | @directive scopes found t ts hkind =>
    have hrest := Parser.sublist_of_eq (Parser.directiveRest_append t.position.line ts)
    exact ((List.sublist_append_right _ _).trans hrest).cons t
  | skipAttributes hkind hread =>
    exact (List.sublist_append_right _ _).trans (Parser.sublist_attributeSequence hread)
  | leave hkind => exact List.sublist_cons_self _ _
  | skipBrace hkind => exact List.sublist_cons_self _ _
  | skipBlock hkind hread =>
    exact (List.sublist_append_right _ _).trans (Parser.sublist_of_eq (Parser.group_append hread))
  | skipTemplate hkind => exact (Parser.sublist_skipAngles _).cons _
  | skipUsing hkind => exact (Parser.sublist_skipStatement _).cons _
  | skipEnum hkind htext => exact (Parser.sublist_skipEnum _).cons _
  | skipIdle hidle => exact List.sublist_cons_self _ _

/-- **A step stays a step when the tokens are moved.** -/
theorem step_moved {p q : Progress} (hlines : KeepsLines m p.left) (h : Step p q) :
    Step (p.moved m) (q.moved m) := by
  cases h with
  | @record scopes found t ts rest c hkind hread =>
    have hmoved := Parser.classDeclaration_moved m t ts
    rw [hread] at hmoved
    have hfound : (found ++ c.toList.map Declaration.record).map (Declaration.moved m) =
        found.map (Declaration.moved m) ++
          (c.map (ClassDeclaration.moved m)).toList.map Declaration.record := by
      cases c <;> simp [Declaration.moved]
    rw [moved, moved, List.map_cons, hfound]
    exact .record hkind hmoved
  | @skipAlias scopes found t ts rest hkind hread =>
    have hmoved := Parser.scopeHead_moved (m := m) t ts
    rw [hread] at hmoved
    exact .skipAlias hkind hmoved
  | @enter scopes found t ts rest header hkind hread =>
    have hmoved := Parser.scopeHead_moved (m := m) t ts
    rw [hread] at hmoved
    exact .enter hkind hmoved
  | @directive scopes found t ts hkind =>
    have hline : ∀ u ∈ ts, ((m u).line = (m t).line ↔ u.position.line = t.position.line) :=
      fun u hu => (List.pairwise_cons.1 hlines).1 u hu hkind
    have hmoved := Parser.directiveRest_moved hline
    have hstep : Step ⟨scopes.map (OpenScope.moved m), found.map (Declaration.moved m),
        t.moved m :: ts.map (Token.moved m)⟩ _ := .directive hkind
    rw [Token.position_moved, hmoved] at hstep
    rw [moved, moved, List.map_append]
    exact hstep
  | @skipAttributes scopes found t ts rest group hkind hread =>
    have hmoved := Parser.attributeSequence_moved m (t :: ts)
    rw [hread] at hmoved
    exact .skipAttributes hkind hmoved
  | @leave scope scopes found t ts hkind =>
    rw [moved, moved, ← OpenScope.close_moved]
    exact .leave hkind
  | skipBrace hkind => exact .skipBrace hkind
  | @skipBlock scopes found t ts taken rest hkind hread =>
    have hmoved := Parser.group_moved m .openBrace .closeBrace (t :: ts)
    rw [hread] at hmoved
    exact .skipBlock hkind hmoved
  | @skipTemplate scopes found t ts hkind =>
    rw [moved, moved, Parser.skipTemplate, ← Parser.skipAngles_moved]
    exact .skipTemplate hkind
  | @skipUsing scopes found t ts hkind =>
    rw [moved, moved, ← skipStatement_moved]
    exact .skipUsing hkind
  | @skipEnum scopes found t ts hkind htext =>
    rw [moved, moved, ← Parser.skipEnum_moved]
    exact .skipEnum hkind htext
  | skipIdle hidle => exact .skipIdle hidle

/-- A run of steps stays one when the tokens are moved. -/
theorem steps_moved {p q : Progress} (hlines : KeepsLines m p.left) (h : Steps p q) :
    Steps (p.moved m) (q.moved m) := by
  induction h using Relation.ReflTransGen.head_induction_on with
  | refl => exact .refl
  | head hstep _ ih =>
    exact .head (step_moved hlines hstep) (ih (hlines.sublist (left_sublist_of_step hstep)))

/-- A reading stops at the same place when the tokens are moved. -/
theorem stops_moved {p : Progress} {r : Reading (List Declaration)} (h : Stops p r) :
    Stops (p.moved m) (r.moved m (List.map (Declaration.moved m))) := by
  cases h with
  | done => exact .done
  | unclosed => exact .unclosed
  | @record scopes found t ts rest e hkind hread =>
    have hmoved := Parser.classDeclaration_moved m t ts
    rw [hread] at hmoved
    exact .record hkind hmoved
  | @enter scopes found t ts rest e hkind hread =>
    have hmoved := Parser.scopeHead_moved (m := m) t ts
    rw [hread] at hmoved
    exact .enter hkind hmoved
  | @attributes scopes found t ts rest e hkind hread =>
    have hmoved := Parser.attributeSequence_moved m (t :: ts)
    rw [hread] at hmoved
    exact .attributes hkind hmoved
  | @block scopes found t ts rest e hkind hread =>
    have hmoved := Parser.group_moved m .openBrace .closeBrace (t :: ts)
    rw [hread] at hmoved
    exact .block hkind hmoved

/-- **A whole reading gives the moved outcome.** -/
theorem outcome_moved (p : Progress) (hlines : KeepsLines m p.left) :
    (p.moved m).outcome = Reading.moved m (List.map (Declaration.moved m)) p.outcome := by
  obtain ⟨stopped, hsteps, hstops⟩ := exists_stops p
  rw [outcome_of_steps (steps_moved hlines hsteps)]
  exact outcome_of_stops (stops_moved hstops)

end Progress

/-! ## Files -/

namespace Parser

theorem unit_moved {ts : List Token} (hlines : KeepsLines m ts) :
    unit (ts.map (Token.moved m)) = Reading.moved m (CompilationUnit.moved m) (unit ts) := by
  have hmoved : declarations [] [] (ts.map (Token.moved m)) =
      Reading.moved m (List.map (Declaration.moved m)) (declarations [] [] ts) :=
    Progress.outcome_moved ⟨[], [], ts⟩ hlines
  rw [unit, hmoved, unit]
  refine Reading.map_moved m (fun ds => ?_) _
  rw [CompilationUnit.moved, Declaration.movedAll_eq_map]

end Parser

/-- The token that an error is about, if it is about one. -/
def ParseError.found? : ParseError → Option Token
  | mismatch _ found => some found
  | notLiteral found => some found
  | unexpectedEnd _ => none
  | lexical _ => none

theorem ParseError.found?_moved (m : Moving) (e : ParseError) :
    (e.moved m).found? = e.found?.map (Token.moved m) := by
  cases e <;> rfl

/-- An error is about one of the tokens that were read, because it stays the same when all others
are moved. -/
theorem Parser.found_mem {ts rest : List Token} {e : ParseError} (h : unit ts = .error e rest)
    {t : Token} (ht : e.found? = some t) : t ∈ ts := by
  let away : Moving := fun u => if u ∈ ts then u.position else ⟨u.position.offset + 1, 1, 1⟩
  have hin : ∀ u ∈ ts, away u = u.position := fun u hu => if_pos hu
  have hstay : ts.map (Token.moved away) = ts := by
    refine (List.map_congr_left fun u hu => ?_).trans (List.map_id ts)
    rw [Token.moved, hin u hu]
    rfl
  have hlines : KeepsLines away ts := by
    refine List.Pairwise.imp_of_mem (fun {u v} hu hv _ _ => ?_)
      (List.pairwise_of_forall fun _ _ => trivial)
    rw [hin u hu, hin v hv]
  have hmoved := unit_moved hlines
  rw [hstay, h, Reading.moved_error] at hmoved
  have hfound := congrArg ParseError.found? (EStateM.Result.error.inj hmoved).1
  rw [ParseError.found?_moved, ht] at hfound
  have hplace : t.position = away t := congrArg Token.position (Option.some.inj hfound)
  by_cases hmem : t ∈ ts
  · exact hmem
  · have hoffset := congrArg Position.offset hplace
    rw [show away t = ⟨t.position.offset + 1, 1, 1⟩ from if_neg hmem] at hoffset
    exact absurd hoffset (Nat.ne_of_lt (Nat.lt_succ_self _))

end HeaderReflection
