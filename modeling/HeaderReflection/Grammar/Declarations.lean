import HeaderReflection.Grammar.Members

/-!
# Reading a file

The declarations of a file are read in one pass with a stack of the namespaces that are open. An
opening brace that no namespace or class owns is skipped with all up to the brace that matches it,
and every token that starts nothing is skipped alone. A namespace without a name adds its
declarations to the scope around it.
-/

namespace HeaderReflection

/-- A namespace whose closing brace has not come yet. -/
structure OpenScope where
  /-- Its keyword and name, if it has a name. -/
  header : Option (Token × QualifiedName)
  /-- The declarations that stand before it in the scope around it. -/
  before : List Declaration

/-- The declarations of the scope around a namespace once it is closed. -/
def OpenScope.close (scope : OpenScope) (inside : List Declaration) : List Declaration :=
  match scope.header with
  | none => scope.before ++ inside
  | some (keyword, name) => scope.before ++ [.scope keyword name inside]

namespace Parser

/-- The words and strings that go on with a directive on its line, and what follows them. -/
def directiveRest (line : Nat) : List Token → List Literal × List Token
  | [] => ([], [])
  | t :: ts =>
    if t.position.line = line then
      match LiteralKind.of? t.kind with
      | some .identifier =>
        (⟨t, .identifier⟩ :: (directiveRest line ts).1, (directiveRest line ts).2)
      | some .string => (⟨t, .string⟩ :: (directiveRest line ts).1, (directiveRest line ts).2)
      | _ => ([], t :: ts)
    else ([], t :: ts)

/-- What follows `template`: its parameters are skipped. -/
def skipTemplate (ts : List Token) : List Token := skipAngles ts

/-- What follows `enum`: a class keyword there starts no class. -/
def skipEnum (ts : List Token) : List Token :=
  if nextIs .classKeyword ts || nextIs .structKeyword ts then ts.tail else ts

/-- What `namespace` starts: a scope that is now open, or an alias, which is skipped. -/
def scopeHead (keyword : Token) : Parser (Option (Option (Token × QualifiedName))) := fun ts =>
  if nextIs .openBrace ts then .ok (some none) ts.tail
  else
    match qualifiedName ts with
    | .error e rest => .error e rest
    | .ok name rest =>
      if nextReads "=" rest then .ok none (skipStatement rest)
      else Reading.map (fun _ => some (some (keyword, name))) (expect .openBrace rest)

/-! ## The rest gets shorter -/

theorem length_directiveRest_le (line : Nat) (ts : List Token) :
    (directiveRest line ts).2.length ≤ ts.length := by
  fun_induction directiveRest line ts with
  | case1 => simp
  | case2 _ _ _ _ ih => simp; omega
  | case3 _ _ _ _ ih => simp; omega
  | case4 => simp
  | case5 => simp

theorem length_skipEnum_le (ts : List Token) : (skipEnum ts).length ≤ ts.length := by
  unfold skipEnum; split <;> simp

theorem length_scopeHead_le {keyword : Token} {ts rest : List Token}
    {head : Option (Option (Token × QualifiedName))} (h : scopeHead keyword ts = .ok head rest) :
    rest.length ≤ ts.length := by
  unfold scopeHead at h
  split at h
  · cases h; simp
  · split at h
    · cases h
    next name left hn =>
      have := length_qualifiedName hn
      split at h
      · cases h
        have := length_skipStatement_le left
        omega
      · obtain ⟨_, hl, _⟩ := Reading.map_eq_ok.1 h
        have := length_expect hl
        omega

/-! ## Files -/

/-- The declarations of a file, when the namespaces in `scopes` are open, innermost first, and
`found` are the declarations of the innermost scope so far. -/
def declarations (scopes : List OpenScope) (found : List Declaration) (ts : List Token) :
    Reading (List Declaration) :=
  match ts with
  | [] =>
    match scopes with
    | [] => .ok found []
    | _ :: _ => .error (.unexpectedEnd .closeBrace) []
  | t :: ts =>
    if t.kind = .classKeyword ∨ t.kind = .structKeyword then
      match _h : classDeclaration t ts with
      | .error e rest => .error e rest
      | .ok c rest => declarations scopes (found ++ c.toList.map .record) rest
    else if t.kind = .namespaceKeyword then
      match _h : scopeHead t ts with
      | .error e rest => .error e rest
      | .ok none rest => declarations scopes found rest
      | .ok (some header) rest => declarations (⟨header, found⟩ :: scopes) [] rest
    else if t.kind = .hash then
      declarations scopes
        (found ++ [.directive ⟨t, (directiveRest t.position.line ts).1⟩])
        (directiveRest t.position.line ts).2
    else if t.kind = .attributeOpen then
      match _h : attributeSequence (t :: ts) with
      | .error e rest => .error e rest
      | .ok _ rest => declarations scopes found rest
    else if t.kind = .closeBrace then
      match scopes with
      | [] => declarations [] found ts
      | scope :: scopes => declarations scopes (scope.close found) ts
    else if t.kind = .openBrace then
      match _h : group .openBrace .closeBrace (t :: ts) with
      | .error e rest => .error e rest
      | .ok _ rest => declarations scopes found rest
    else if t.kind = .templateKeyword then declarations scopes found (skipTemplate ts)
    else if t.kind = .usingKeyword then declarations scopes found (skipStatement ts)
    else if t.kind = .identifier ∧ t.text = "enum" then declarations scopes found (skipEnum ts)
    else declarations scopes found ts
termination_by ts.length
decreasing_by
  · have := length_classDeclaration _h
    simp; omega
  · have := length_scopeHead_le _h
    simp; omega
  · have := length_scopeHead_le _h
    simp; omega
  · have := length_directiveRest_le t.position.line ts
    simp; omega
  · exact length_attributeSequence _h
  · simp
  · simp
  · exact length_group _h
  · have := length_skipAngles_le ts
    simp [skipTemplate]; omega
  · have := length_skipStatement_le ts
    simp; omega
  · have := length_skipEnum_le ts
    simp; omega
  · simp

/-- Reads a file from its significant tokens. -/
def unit : Parser CompilationUnit := fun ts => Reading.map (⟨·⟩) (declarations [] [] ts)

/-- Reads several times, each time from the token where the reading before stopped. -/
def unitTimes : Nat → List Token → List (Except ParseError CompilationUnit)
  | 0, _ => []
  | n + 1, ts => Reading.result (unit ts) :: unitTimes n (Reading.rest (unit ts))

end Parser

namespace CompilationUnit

/-- Reads a file from its tokens, trivia included. -/
def ofTokens (ts : List Token) : Except ParseError CompilationUnit :=
  Reading.result (Parser.unit (Token.significant ts))

/-- Reads a file from its text. -/
def ofString (text : String) : Except ParseError CompilationUnit :=
  match tokenize text with
  | .error e => .error (.lexical e)
  | .ok ts => ofTokens ts

end CompilationUnit

end HeaderReflection
