import HeaderReflection.Grammar.Attributes
import HeaderReflection.Grammar.Group

/-!
# Reading classes

Of a class body only the annotated members that stand directly in it are read; every other token is
skipped, with inner braces counted. In a member's declarator the last word is the name and what
stands before it is the type.
-/

namespace HeaderReflection

namespace Parser

/-! ## Types -/

/-- Whether the next token is a word that belongs to a type, because another word, a `*` or `&`, or
`::` comes after it. -/
def continuesType : List Token → Bool
  | t :: ts =>
    t.kind = .identifier && t.isWord &&
      match ts with
      | next :: _ =>
        next.kind = .identifier && (next.isWord || next.text = "*" || next.text = "&") ||
          startsScope ts
      | [] => false
  | [] => false

/-- The tokens that belong to a type after its leading name, and what follows them. -/
def typeSuffix (ts : List Token) : List Token × List Token :=
  match ts with
  | [] => ([], [])
  | t :: ts =>
    if t.text = "<" then
      let split := splitAngles (t :: ts)
      let more := typeSuffix split.2
      (split.1 ++ more.1, more.2)
    else if t.text = "*" ∨ t.text = "&" then
      let more := typeSuffix ts
      (t :: more.1, more.2)
    else if startsScope (t :: ts) && nextIs .identifier (ts.drop 1) then
      let more := typeSuffix (ts.drop 2)
      (t :: ts.take 2 ++ more.1, more.2)
    else if continuesType (t :: ts) then
      let more := typeSuffix ts
      (t :: more.1, more.2)
    else ([], t :: ts)
termination_by ts.length
decreasing_by
  · exact length_splitAngles (by simp)
  · simp
  · simp only [List.length_cons, List.length_drop]
    omega
  · simp

/-- The name that a type starts with; `auto` is one too. -/
def typeHead : Parser QualifiedName := fun ts =>
  if nextIs .autoKeyword ts then
    Reading.map (fun t => ⟨[⟨t, .identifier⟩]⟩) (expect .autoKeyword ts)
  else qualifiedName ts

/-- The type of a member. -/
def typeName : Parser TypeName := do
  let head ← typeHead
  fun ts => .ok ⟨head, (typeSuffix ts).1⟩ (typeSuffix ts).2

theorem length_typeSuffix_le (ts : List Token) : (typeSuffix ts).2.length ≤ ts.length := by
  fun_induction typeSuffix ts with
  | case1 => simp
  | case2 t ts _ split more ih =>
    have : (splitAngles (t :: ts)).2.length < (t :: ts).length := length_splitAngles (by simp)
    simp only [more, split] at *
    omega
  | case3 t ts _ _ more ih => simp only [more, List.length_cons] at *; omega
  | case4 t ts _ _ _ more ih =>
    simp only [more, List.length_cons, List.length_drop] at *; omega
  | case5 t ts _ _ _ _ more ih => simp only [more, List.length_cons] at *; omega
  | case6 => simp

theorem length_typeHead {ts rest : List Token} {name : QualifiedName}
    (h : typeHead ts = .ok name rest) : rest.length < ts.length := by
  unfold typeHead at h
  split at h
  · obtain ⟨_, hl, _⟩ := Reading.map_eq_ok.1 h
    exact length_expect hl
  · exact length_qualifiedName h

theorem length_typeName {ts rest : List Token} {type : TypeName}
    (h : typeName ts = .ok type rest) : rest.length < ts.length := by
  obtain ⟨_, mid, h₁, h⟩ := bind_eq_ok.1 h
  cases h
  have := length_typeHead h₁
  have := length_typeSuffix_le mid
  omega

/-! ## Members -/

/-- The parameter list of a method, if a parenthesis is next. -/
def signature : Parser (Option (List Token)) := fun ts =>
  if nextIs .openParen ts then Reading.map some (group .openParen .closeParen ts)
  else .ok none ts

/-- An annotated member, up to its name or the end of its parameter list. -/
def member : Parser Member := do
  let attributes ← attributeSequences
  let type ← typeName
  let name ← identifier
  let signature ← signature
  return ⟨attributes, type, name, signature⟩

theorem length_signature_le {ts rest : List Token} {s : Option (List Token)}
    (h : signature ts = .ok s rest) : rest.length ≤ ts.length := by
  unfold signature at h
  split at h
  · obtain ⟨_, hl, _⟩ := Reading.map_eq_ok.1 h
    exact Nat.le_of_lt (length_group hl)
  · cases h; simp

theorem length_member {ts rest : List Token} {m : Member}
    (h : member ts = .ok m rest) : rest.length < ts.length := by
  obtain ⟨_, _, h₁, h⟩ := bind_eq_ok.1 h
  obtain ⟨_, _, h₂, h⟩ := bind_eq_ok.1 h
  obtain ⟨_, _, h₃, h⟩ := bind_eq_ok.1 h
  obtain ⟨_, _, h₄, h⟩ := bind_eq_ok.1 h
  obtain ⟨_, rfl⟩ := pure_eq_ok.1 h
  have := length_attributeSequences_le h₁
  have := length_typeName h₂
  have := length_identifier h₃
  have := length_signature_le h₄
  omega

/-- Drops a colon, if one is next. -/
def skipColon (ts : List Token) : List Token := if nextIs .colon ts then ts.tail else ts

theorem length_skipColon_le (ts : List Token) : (skipColon ts).length ≤ ts.length := by
  unfold skipColon; split <;> simp

/-- The annotated members up to and including the brace that closes the class body, of which
`inner` inner braces are open. -/
def members (inner : Nat) (ts : List Token) : Reading (List Member) :=
  match ts with
  | [] => .error (.unexpectedEnd .closeBrace) []
  | t :: ts =>
    if t.kind = .openBrace then members (inner + 1) ts
    else if t.kind = .closeBrace then
      match inner with
      | 0 => .ok [] ts
      | inner + 1 => members inner ts
    else if t.kind.isAccess then members inner (skipColon ts)
    else if t.kind = .attributeOpen ∧ inner = 0 then
      match _h : member (t :: ts) with
      | .error e rest => .error e rest
      | .ok m rest => Reading.map (m :: ·) (members 0 rest)
    else members inner ts
termination_by ts.length
decreasing_by
  · simp
  · simp
  · have := length_skipColon_le ts
    simp
    omega
  · exact length_member _h
  · simp

theorem members_cons (inner : Nat) (t : Token) (ts : List Token) :
    members inner (t :: ts) =
      if t.kind = .openBrace then members (inner + 1) ts
      else if t.kind = .closeBrace then
        match inner with
        | 0 => .ok [] ts
        | inner + 1 => members inner ts
      else if t.kind.isAccess then members inner (skipColon ts)
      else if t.kind = .attributeOpen ∧ inner = 0 then
        match member (t :: ts) with
        | .error e rest => .error e rest
        | .ok m rest => Reading.map (m :: ·) (members 0 rest)
      else members inner ts := by
  rw [members.eq_def]
  dsimp only
  split
  · rfl
  split
  · rfl
  split
  · rfl
  split
  · split <;> simp [*]
  · rfl

theorem length_members {inner : Nat} {ts rest : List Token} {ms : List Member}
    (h : members inner ts = .ok ms rest) : rest.length < ts.length := by
  fun_induction members inner ts generalizing ms rest with
  | case1 => simp at h
  | case2 inner t ts _ ih => have := ih h; simp; omega
  | case3 t ts => cases h; simp
  | case4 t ts _ _ inner ih => have := ih h; simp; omega
  | case5 inner t ts _ _ _ ih =>
    have := ih h
    have := length_skipColon_le ts
    simp
    omega
  | case6 => simp at h
  | case7 inner t ts _ _ _ _ m left hm ih =>
    obtain ⟨_, hl, _⟩ := Reading.map_eq_ok.1 h
    have := ih hl
    have := length_member hm
    omega
  | case8 inner t ts _ _ _ _ ih => have := ih h; simp; omega

/-! ## Classes -/

/-- A class from where its body may start: whatever stands before the opening brace is skipped, and
a semicolon there ends a class without a body. -/
def classBody : List Token → Reading (List Member)
  | [] => .error (.unexpectedEnd .openBrace) []
  | t :: ts =>
    if t.kind = .openBrace then members 0 ts
    else if t.kind = .semicolon then .ok [] ts
    else classBody ts

/-- Drops the keywords that may stand before a base. -/
def skipAccess (ts : List Token) : List Token :=
  ts.dropWhile fun t => t.kind.isAccess || t.text = "virtual"

/-- Drops template arguments, if they are next. -/
def skipAngles (ts : List Token) : List Token :=
  if nextReads "<" ts then (splitAngles ts).2 else ts

theorem length_skipAccess_le (ts : List Token) : (skipAccess ts).length ≤ ts.length :=
  (List.dropWhile_suffix _).length_le

theorem length_skipAngles_le (ts : List Token) : (skipAngles ts).length ≤ ts.length := by
  unfold skipAngles
  split
  · exact length_splitAngles_le ts
  · exact Nat.le_refl _

/-- The names of the bases of a class, at least one. -/
def bases (ts : List Token) : Reading (List QualifiedName) :=
  match _h : qualifiedName (skipAccess ts) with
  | .error e rest => .error e rest
  | .ok name rest =>
    if nextIs .comma (skipAngles rest) then
      Reading.map (name :: ·) (bases (skipAngles rest).tail)
    else .ok [name] (skipAngles rest)
termination_by ts.length
decreasing_by
  have := length_qualifiedName _h
  have := length_skipAccess_le ts
  have := length_skipAngles_le rest
  simp
  omega

theorem bases_eq (ts : List Token) :
    bases ts =
      match qualifiedName (skipAccess ts) with
      | .error e rest => .error e rest
      | .ok name rest =>
        if nextIs .comma (skipAngles rest) then
          Reading.map (name :: ·) (bases (skipAngles rest).tail)
        else .ok [name] (skipAngles rest) := by
  rw [bases]
  split <;> simp [*]

/-- The bases of a class, if a colon is next that belongs to no `::`. -/
def baseClause : Parser (List QualifiedName) := fun ts =>
  if nextIs .colon ts && !nextIs .colon ts.tail then bases ts.tail else .ok [] ts

/-- A class after its keyword and attributes. A class without a name is read like one with a name,
but there is nothing to keep of it. -/
def classRest (keyword : Token) (attributes : List AttributeSequence) :
    Parser (Option ClassDeclaration) := fun ts =>
  if nextIs .identifier ts then
    (do
      let name ← qualifiedName
      let bases ← baseClause
      let members ← classBody
      return some ⟨keyword, name, attributes, bases, members⟩ :
        Parser (Option ClassDeclaration)) ts
  else Reading.map (fun _ => none) (classBody ts)

/-- A class after its keyword. -/
def classDeclaration (keyword : Token) : Parser (Option ClassDeclaration) := do
  let attributes ← attributeSequences
  classRest keyword attributes

theorem length_classBody {ts rest : List Token} {ms : List Member}
    (h : classBody ts = .ok ms rest) : rest.length < ts.length := by
  fun_induction classBody ts with
  | case1 => simp at h
  | case2 t ts _ => have := length_members h; simp; omega
  | case3 t ts => cases h; simp
  | case4 t ts _ _ ih => have := ih h; simp; omega

theorem length_bases {ts rest : List Token} {names : List QualifiedName}
    (h : bases ts = .ok names rest) : rest.length < ts.length := by
  fun_induction bases ts generalizing names rest with
  | case1 => simp at h
  | case2 ts name left hn _ ih =>
    obtain ⟨_, hl, _⟩ := Reading.map_eq_ok.1 h
    have := ih hl
    have := length_qualifiedName hn
    have := length_skipAccess_le ts
    have := length_skipAngles_le left
    simp at *
    omega
  | case3 ts name left hn _ =>
    cases h
    have := length_qualifiedName hn
    have := length_skipAccess_le ts
    have := length_skipAngles_le left
    omega

theorem length_baseClause_le {ts rest : List Token} {names : List QualifiedName}
    (h : baseClause ts = .ok names rest) : rest.length ≤ ts.length := by
  unfold baseClause at h
  split at h
  · have := length_bases h
    simp at this
    omega
  · cases h; simp

theorem length_classDeclaration {keyword : Token} {ts rest : List Token}
    {c : Option ClassDeclaration} (h : classDeclaration keyword ts = .ok c rest) :
    rest.length < ts.length := by
  obtain ⟨attributes, _, h₁, h⟩ := bind_eq_ok.1 h
  have := length_attributeSequences_le h₁
  unfold classRest at h
  split at h
  · obtain ⟨_, _, h₂, h⟩ := bind_eq_ok.1 h
    obtain ⟨_, _, h₃, h⟩ := bind_eq_ok.1 h
    obtain ⟨_, _, h₄, h⟩ := bind_eq_ok.1 h
    obtain ⟨_, rfl⟩ := pure_eq_ok.1 h
    have := length_qualifiedName h₂
    have := length_baseClause_le h₃
    have := length_classBody h₄
    omega
  · obtain ⟨_, hl, _⟩ := Reading.map_eq_ok.1 h
    have := length_classBody hl
    omega

end Parser

end HeaderReflection
