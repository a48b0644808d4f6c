import HeaderReflection.Grammar.Reading

/-!
# Reading attributes

A group of attributes is read strictly: the first token that does not fit ends the reading. Commas
between attributes and between parameters may be left out.
-/

namespace HeaderReflection

namespace Parser

/-- The parameters of an attribute after the opening parenthesis, up to and including the closing
one. -/
def furtherParams (ts : List Token) : Reading (List Literal) :=
  match ts with
  | [] => .error (.unexpectedEnd .identifier) []
  | t :: ts =>
    if t.kind = .closeParen then .ok [] ts
    else
      match LiteralKind.of? t.kind with
      | none => .error (.notLiteral t) (t :: ts)
      | some kind => Reading.map (⟨t, kind⟩ :: ·) (furtherParams (skipComma ts))
termination_by ts.length
decreasing_by
  have := length_skipComma_le ts
  simp
  omega

/-- The parameters of an attribute, if a parenthesis is next. -/
def params : Parser (Option (List Literal)) := fun ts =>
  if nextIs .openParen ts then Reading.map some (furtherParams ts.tail) else .ok none ts

/-- One attribute. -/
def oneAttribute : Parser Attribute := do
  let first ← identifier
  let second ← nextPart
  let params ← params
  match second with
  | some name => return ⟨some first, name, params⟩
  | none => return ⟨none, first, params⟩

/-! ## The rest gets shorter -/

theorem length_furtherParams_le {ts rest : List Token} {ls : List Literal}
    (h : furtherParams ts = .ok ls rest) : rest.length ≤ ts.length := by
  fun_induction furtherParams ts generalizing ls rest with
  | case1 => simp at h
  | case2 => cases h; simp
  | case3 => simp at h
  | case4 t ts _ kind _ ih =>
    obtain ⟨_, hl, _⟩ := Reading.map_eq_ok.1 h
    have := ih hl
    have := length_skipComma_le ts
    simp
    omega

theorem length_params_le {ts rest : List Token} {ls : Option (List Literal)}
    (h : params ts = .ok ls rest) : rest.length ≤ ts.length := by
  unfold params at h
  split at h
  · obtain ⟨_, hl, _⟩ := Reading.map_eq_ok.1 h
    have := length_furtherParams_le hl
    simp at this
    omega
  · cases h; simp

theorem length_oneAttribute {ts rest : List Token} {a : Attribute}
    (h : oneAttribute ts = .ok a rest) : rest.length < ts.length := by
  obtain ⟨_, _, h₁, h⟩ := bind_eq_ok.1 h
  obtain ⟨second, _, h₂, h⟩ := bind_eq_ok.1 h
  obtain ⟨_, _, h₃, h⟩ := bind_eq_ok.1 h
  have := length_identifier h₁
  have := length_nextPart_le h₂
  have := length_params_le h₃
  cases second <;> (obtain ⟨_, rfl⟩ := pure_eq_ok.1 h; omega)

/-! ## Groups -/

/-- The attributes of a group: at least one, up to the closing brackets. -/
def attributes (ts : List Token) : Reading (List Attribute) :=
  match _h : oneAttribute ts with
  | .error e rest => .error e rest
  | .ok a rest =>
    if nextIs .attributeClose (skipComma rest) || (skipComma rest).isEmpty then
      .ok [a] (skipComma rest)
    else Reading.map (a :: ·) (attributes (skipComma rest))
termination_by ts.length
decreasing_by
  have := length_oneAttribute _h
  have := length_skipComma_le rest
  omega

theorem attributes_eq (ts : List Token) :
    attributes ts =
      match oneAttribute ts with
      | .error e rest => .error e rest
      | .ok a rest =>
        if nextIs .attributeClose (skipComma rest) || (skipComma rest).isEmpty then
          .ok [a] (skipComma rest)
        else Reading.map (a :: ·) (attributes (skipComma rest)) := by
  rw [attributes]
  split <;> simp [*]

/-- The namespace that a group names once for all its attributes, if it does. -/
def defaultScope : Parser (Option Literal) := fun ts =>
  if nextIs .usingKeyword ts then
    (do
      let scope ← identifier
      let _ ← expect .colon
      return some scope : Parser (Option Literal)) ts.tail
  else .ok none ts

/-- A group of attributes. -/
def attributeSequence : Parser AttributeSequence := do
  let opening ← expect .attributeOpen
  let default ← defaultScope
  let attributes ← attributes
  let closing ← expect .attributeClose
  return ⟨opening, default, attributes, closing⟩

theorem length_attributes {ts rest : List Token} {as : List Attribute}
    (h : attributes ts = .ok as rest) : rest.length < ts.length := by
  fun_induction attributes ts generalizing as rest with
  | case1 => simp at h
  | case2 ts a left ha _ =>
    cases h
    have := length_oneAttribute ha
    have := length_skipComma_le left
    omega
  | case3 ts a left ha _ ih =>
    obtain ⟨_, hl, _⟩ := Reading.map_eq_ok.1 h
    have := ih hl
    have := length_oneAttribute ha
    have := length_skipComma_le left
    omega

theorem length_defaultScope_le {ts rest : List Token} {l : Option Literal}
    (h : defaultScope ts = .ok l rest) : rest.length ≤ ts.length := by
  unfold defaultScope at h
  split at h
  · obtain ⟨_, _, h₁, h⟩ := bind_eq_ok.1 h
    obtain ⟨_, _, h₂, h⟩ := bind_eq_ok.1 h
    obtain ⟨_, rfl⟩ := pure_eq_ok.1 h
    have := length_identifier h₁
    have := length_expect h₂
    simp at *
    omega
  · cases h; simp

theorem length_attributeSequence {ts rest : List Token} {group : AttributeSequence}
    (h : attributeSequence ts = .ok group rest) : rest.length < ts.length := by
  obtain ⟨_, _, h₁, h⟩ := bind_eq_ok.1 h
  obtain ⟨_, _, h₂, h⟩ := bind_eq_ok.1 h
  obtain ⟨_, _, h₃, h⟩ := bind_eq_ok.1 h
  obtain ⟨_, _, h₄, h⟩ := bind_eq_ok.1 h
  obtain ⟨_, rfl⟩ := pure_eq_ok.1 h
  have := length_expect h₁
  have := length_defaultScope_le h₂
  have := length_attributes h₃
  have := length_expect h₄
  omega

/-- The groups of attributes that are next, as many as there are. -/
def attributeSequences (ts : List Token) : Reading (List AttributeSequence) :=
  if nextIs .attributeOpen ts then
    match _h : attributeSequence ts with
    | .error e rest => .error e rest
    | .ok group rest => Reading.map (group :: ·) (attributeSequences rest)
  else .ok [] ts
termination_by ts.length
decreasing_by exact length_attributeSequence _h

theorem attributeSequences_eq (ts : List Token) :
    attributeSequences ts =
      if nextIs .attributeOpen ts then
        match attributeSequence ts with
        | .error e rest => .error e rest
        | .ok group rest => Reading.map (group :: ·) (attributeSequences rest)
      else .ok [] ts := by
  rw [attributeSequences]
  split
  · split <;> simp [*]
  · rfl

theorem length_attributeSequences_le {ts rest : List Token} {groups : List AttributeSequence}
    (h : attributeSequences ts = .ok groups rest) : rest.length ≤ ts.length := by
  fun_induction attributeSequences ts generalizing groups rest with
  | case1 => simp at h
  | case2 ts _ group left hg ih =>
    obtain ⟨_, hl, _⟩ := Reading.map_eq_ok.1 h
    have := ih hl
    have := length_attributeSequence hg
    omega
  | case3 => cases h; simp

end Parser

end HeaderReflection
