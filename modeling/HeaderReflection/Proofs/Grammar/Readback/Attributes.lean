import HeaderReflection.Grammar.Attributes
import HeaderReflection.Proofs.Grammar.Derivations

/-!
# Reading names and attributes back

The readers take what the grammar derives, with whatever follows left over, and give the tree that
it was derived from. The reader looks ahead to see whether something goes on, so a statement about a
part says what must not follow; a whole group ends with its brackets. What a tree is written as
derives it, so it comes back when it is read.
-/

namespace HeaderReflection

namespace Parser

/-! ## Single tokens -/

theorem expect_cons {kind : TokenKind} {t : Token} (h : t.kind = kind) (ts : List Token) :
    expect kind (t :: ts) = .ok t ts := expect_eq_ok.2 ⟨rfl, h⟩

theorem identifier_cons {l : Literal} (h : l.IsIdentifier) (ts : List Token) :
    identifier (l.token :: ts) = .ok l ts := by
  obtain ⟨hkind, hliteral⟩ := h
  obtain ⟨t, kind⟩ := l
  subst hliteral
  rw [identifier, expect_cons hkind, Reading.map_ok]

/-- Two colons are the start of a further part. -/
theorem nextPart_colons {c d : Token} {l : Literal} (hc : c.kind = .colon) (hd : d.kind = .colon)
    (hl : l.IsIdentifier) (ts : List Token) :
    nextPart (c :: d :: l.token :: ts) = .ok (some l) ts := by
  have hscope : startsScope (c :: d :: l.token :: ts) = true := by
    simp [startsScope, hc, hd]
  rw [nextPart, if_pos hscope]
  show Reading.map some (identifier (l.token :: ts)) = _
  rw [identifier_cons hl, Reading.map_ok]

theorem nextPart_none {ts : List Token} (h : startsScope ts = false) :
    nextPart ts = .ok none ts := by
  rw [nextPart, if_neg (by simp [h])]

theorem startsScope_of_kind {t : Token} (h : t.kind ≠ .colon) (ts : List Token) :
    startsScope (t :: ts) = false := by
  simp [startsScope, h]

/-! ## Names -/

theorem furtherParts_of_none {ts : List Token} (h : startsScope ts = false) :
    furtherParts ts = .ok [] ts := by
  rw [furtherParts_eq, nextPart_none h]

theorem furtherParts_of_some {l : Literal} {ts rest : List Token}
    (h : nextPart ts = .ok (some l) rest) :
    furtherParts ts = Reading.map (l :: ·) (furtherParts rest) := by
  rw [furtherParts_eq, h]

theorem furtherParts_of_derives {ls : List Literal} {ts rest : List Token}
    (h : QualifiedName.DerivesParts ls ts) (hrest : startsScope rest = false) :
    furtherParts (ts ++ rest) = .ok ls rest := by
  induction h with
  | nil => exact furtherParts_of_none hrest
  | @cons c d l ls ts hc hd hl h ih =>
    have hnext := nextPart_colons hc hd hl (ts ++ rest)
    show furtherParts (c :: d :: l.token :: (ts ++ rest)) = _
    rw [furtherParts_of_some hnext, ih, Reading.map_ok]

theorem qualifiedName_of_derives {name : QualifiedName} {ts rest : List Token}
    (h : name.Derives ts) (hrest : startsScope rest = false) :
    qualifiedName (ts ++ rest) = .ok name rest := by
  obtain ⟨hl, hparts⟩ := h
  next l ls ts =>
    have hfirst := identifier_cons hl (ts ++ rest)
    have hmore := furtherParts_of_derives hparts hrest
    exact bind_eq_ok.2 ⟨l, _, hfirst, bind_eq_ok.2 ⟨ls, rest, hmore, rfl⟩⟩

theorem qualifiedName_of_spelled {name : QualifiedName} {ts rest : List Token}
    (hspelled : name.Spelled ts) (hname : name.WellFormed) (hrest : startsScope rest = false) :
    qualifiedName (ts ++ rest) = .ok name rest :=
  qualifiedName_of_derives (hspelled.derives hname) hrest

/-- A name starts with an identifier. -/
theorem head_of_derives {name : QualifiedName} {ts : List Token} (h : name.Derives ts) :
    ∃ t more, ts = t :: more ∧ t.kind = .identifier := by
  obtain ⟨hl, -⟩ := h
  exact ⟨_, _, rfl, hl.token⟩

theorem head_of_spelled {name : QualifiedName} {ts : List Token} (hspelled : name.Spelled ts)
    (hname : name.WellFormed) : ∃ t more, ts = t :: more ∧ t.kind = .identifier :=
  head_of_derives (hspelled.derives hname)

/-! ## Parameters -/

/-- A comma is dropped, and where there is none nothing is, if no comma follows. -/
theorem skipComma_append {comma ts : List Token} (h : Optional .comma comma)
    (hts : nextIs .comma ts = false) : skipComma (comma ++ ts) = ts := by
  cases h with
  | absent => rw [List.nil_append, skipComma, if_neg (by simp [hts])]
  | present hkind => rw [List.singleton_append, skipComma, if_pos (by simp [hkind])]; rfl

/-- A literal is read as a parameter. -/
theorem furtherParams_cons {l : Literal} (h : l.WellFormed) (ts : List Token) :
    furtherParams (l.token :: ts) = Reading.map (l :: ·) (furtherParams (skipComma ts)) := by
  have hclosing : l.token.kind ≠ .closeParen := by
    intro hkind
    rw [Literal.WellFormed, hkind] at h
    cases h
  rw [furtherParams, if_neg hclosing]
  rw [Literal.WellFormed] at h
  split
  next hnone => rw [h] at hnone; cases hnone
  next hsome => rw [h] at hsome; cases hsome; rfl

theorem furtherParams_closing {t : Token} (h : t.kind = .closeParen) (ts : List Token) :
    furtherParams (t :: ts) = .ok [] ts := by
  rw [furtherParams, if_pos h]

/-- Neither a parameter nor what ends the parameters is a comma. -/
theorem nextIs_comma_params {ls : List Literal} {ts rest : List Token} {closing : Token}
    (h : Attribute.DerivesLiterals ls ts) (hclosing : closing.kind = .closeParen) :
    nextIs .comma (ts ++ closing :: rest) = false := by
  cases h with
  | nil => simp [hclosing]
  | @cons l ls comma ts hl _ _ =>
    have hkind : l.token.kind ≠ .comma := by
      intro hkind
      rw [Literal.WellFormed, hkind] at hl
      cases hl
    simp [hkind]

theorem furtherParams_of_derives {ls : List Literal} {ts : List Token} {closing : Token}
    (h : Attribute.DerivesLiterals ls ts) (hclosing : closing.kind = .closeParen)
    (rest : List Token) : furtherParams (ts ++ closing :: rest) = .ok ls rest := by
  induction h with
  | nil => exact furtherParams_closing hclosing rest
  | @cons l ls comma ts hl hcomma h ih =>
    rw [List.cons_append, List.append_assoc, furtherParams_cons hl,
      skipComma_append hcomma (nextIs_comma_params h hclosing), ih, Reading.map_ok]

theorem params_of_derives {ls : Option (List Literal)} {ts rest : List Token}
    (h : Attribute.DerivesParams ls ts) (hrest : nextIs .openParen rest = false) :
    params (ts ++ rest) = .ok ls rest := by
  cases h with
  | none => rw [List.nil_append, params, if_neg (by simp [hrest])]
  | @some opening closing ls ts hopening h hclosing =>
    rw [params, if_pos (by simp [hopening])]
    show Reading.map some (furtherParams (ts ++ [closing] ++ rest)) = _
    rw [List.append_assoc, List.singleton_append, furtherParams_of_derives h hclosing,
      Reading.map_ok]

/-! ## Attributes -/

/-- What stands after an attribute is neither `::` nor parameters. -/
structure EndsAttribute (rest : List Token) : Prop where
  scope : startsScope rest = false
  params : nextIs .openParen rest = false

theorem endsAttribute_cons {t : Token}
    (h : t.kind = .comma ∨ t.kind = .attributeClose ∨ t.kind = .identifier) (ts : List Token) :
    EndsAttribute (t :: ts) := by
  rcases h with h | h | h <;>
    exact ⟨startsScope_of_kind (by simp [h]) ts, by simp [h]⟩

/-- The parameters of an attribute do not start with `::`. -/
theorem startsScope_params {ls : Option (List Literal)} {ts rest : List Token}
    (h : Attribute.DerivesParams ls ts) (hrest : startsScope rest = false) :
    startsScope (ts ++ rest) = false := by
  cases h with
  | none => exact hrest
  | some hopening _ _ => exact startsScope_of_kind (by simp [hopening]) _

theorem oneAttribute_of_derives {a : Attribute} {ts rest : List Token} (h : a.Derives ts)
    (hrest : EndsAttribute rest) : oneAttribute (ts ++ rest) = .ok a rest := by
  obtain ⟨scope, name, ls⟩ := a
  obtain ⟨hscope, hname, hparams⟩ := h
  next scopeTokens paramTokens =>
    have hread := params_of_derives hparams hrest.params
    cases hscope with
    | none =>
      have hnext := nextPart_none (startsScope_params hparams hrest.scope)
      refine bind_eq_ok.2 ⟨name, paramTokens ++ rest, identifier_cons hname _, ?_⟩
      exact bind_eq_ok.2 ⟨none, _, hnext, bind_eq_ok.2 ⟨ls, rest, hread, rfl⟩⟩
    | @some l c d hl hc hd =>
      have hnext := nextPart_colons hc hd hname (paramTokens ++ rest)
      refine bind_eq_ok.2 ⟨l, c :: d :: name.token :: (paramTokens ++ rest), ?_, ?_⟩
      · exact identifier_cons hl _
      · exact bind_eq_ok.2 ⟨some name, _, hnext, bind_eq_ok.2 ⟨ls, rest, hread, rfl⟩⟩

/-- An attribute starts with an identifier. -/
theorem head_attribute {a : Attribute} {ts : List Token} (h : a.Derives ts) :
    ∃ t more, ts = t :: more ∧ t.kind = .identifier := by
  obtain ⟨scope, name, ls⟩ := a
  obtain ⟨hscope, hname, -⟩ := h
  cases hscope with
  | none => exact ⟨name.token, _, rfl, hname.token⟩
  | @some l c d hl _ _ => exact ⟨l.token, _, rfl, hl.token⟩

/-! ## Groups -/

theorem head_attributes {as : List Attribute} {ts : List Token}
    (h : AttributeSequence.DerivesAttributes as ts) :
    ∃ t more, ts = t :: more ∧ t.kind = .identifier := by
  cases h with
  | last h _ =>
    obtain ⟨t, more, rfl, ht⟩ := head_attribute h
    exact ⟨t, _, rfl, ht⟩
  | more h _ _ =>
    obtain ⟨t, more, rfl, ht⟩ := head_attribute h
    exact ⟨t, _, rfl, ht⟩

/-- After an attribute comes a comma or what would come after the comma. -/
theorem endsAttribute_append {comma : List Token} {t : Token} (h : Optional .comma comma)
    (ht : t.kind = .attributeClose ∨ t.kind = .identifier) (rest : List Token) :
    EndsAttribute (comma ++ t :: rest) := by
  cases h with
  | absent => exact endsAttribute_cons (.inr ht) rest
  | present hkind => exact endsAttribute_cons (.inl hkind) _

/-- The last attribute of a group is the one before the closing brackets. -/
theorem attributes_last {a : Attribute} {ts comma rest : List Token} {closing : Token}
    (hread : oneAttribute ts = .ok a (comma ++ closing :: rest)) (hcomma : Optional .comma comma)
    (hclosing : closing.kind = .attributeClose) : attributes ts = .ok [a] (closing :: rest) := by
  have hskip : skipComma (comma ++ closing :: rest) = closing :: rest :=
    skipComma_append hcomma (by simp [hclosing])
  rw [attributes_eq, hread]
  dsimp only
  rw [hskip, if_pos (by simp [hclosing])]

/-- Before an identifier the group goes on. -/
theorem attributes_more {a : Attribute} {ts comma rest : List Token} {t : Token}
    (hread : oneAttribute ts = .ok a (comma ++ t :: rest)) (hcomma : Optional .comma comma)
    (ht : t.kind = .identifier) :
    attributes ts = Reading.map (a :: ·) (attributes (t :: rest)) := by
  have hskip : skipComma (comma ++ t :: rest) = t :: rest :=
    skipComma_append hcomma (by simp [ht])
  rw [attributes_eq, hread]
  dsimp only
  rw [hskip, if_neg (by simp [ht])]

theorem attributes_of_derives {as : List Attribute} {ts : List Token} {closing : Token}
    (h : AttributeSequence.DerivesAttributes as ts) (hclosing : closing.kind = .attributeClose)
    (rest : List Token) : attributes (ts ++ closing :: rest) = .ok as (closing :: rest) := by
  induction h with
  | last h hcomma =>
    rw [List.append_assoc]
    have hread := oneAttribute_of_derives h (endsAttribute_append hcomma (.inl hclosing) rest)
    exact attributes_last hread hcomma hclosing
  | @more a as ts comma more h hcomma hmore ih =>
    obtain ⟨t, tail, rfl, ht⟩ := head_attributes hmore
    have hread := oneAttribute_of_derives h
      (endsAttribute_append hcomma (.inr ht) (tail ++ closing :: rest))
    rw [List.append_assoc, List.append_assoc, List.cons_append, attributes_more hread hcomma ht]
    rw [List.cons_append] at ih
    rw [ih, Reading.map_ok]

theorem defaultScope_of_derives {l : Option Literal} {ts rest : List Token}
    (h : AttributeSequence.DerivesDefault l ts) (hrest : nextIs .usingKeyword rest = false) :
    defaultScope (ts ++ rest) = .ok l rest := by
  cases h with
  | none => rw [List.nil_append, defaultScope, if_neg (by simp [hrest])]
  | @some keyword colon l hkeyword hl hcolon =>
    have hnext : nextIs .usingKeyword ([keyword, l.token, colon] ++ rest) = true := by
      simp [hkeyword]
    rw [defaultScope, if_pos hnext]
    refine bind_eq_ok.2 ⟨l, colon :: rest, identifier_cons hl _, ?_⟩
    exact bind_eq_ok.2 ⟨colon, rest, expect_cons hcolon rest, rfl⟩

/-- **A group of attributes that the grammar derives is read**, whatever follows it. -/
theorem attributeSequence_of_derives {group : AttributeSequence} {ts : List Token}
    (h : group.Derives ts) (rest : List Token) :
    attributeSequence (ts ++ rest) = .ok group rest := by
  obtain ⟨hopening, hdefault, h, hclosing⟩ := h
  next default ts =>
    obtain ⟨t, more, hts, ht⟩ := head_attributes h
    have hscope : nextIs .usingKeyword (ts ++ (group.closing :: rest)) = false := by
      rw [hts, List.cons_append, nextIs_cons, ht]
      decide
    have happend : group.opening :: (default ++ (ts ++ [group.closing])) ++ rest =
        group.opening :: (default ++ (ts ++ (group.closing :: rest))) := by simp
    have hread₁ := defaultScope_of_derives hdefault hscope
    have hread₂ := attributes_of_derives h hclosing rest
    rw [happend]
    refine bind_eq_ok.2 ⟨group.opening, _, expect_cons hopening _, ?_⟩
    refine bind_eq_ok.2 ⟨group.default, _, hread₁, bind_eq_ok.2 ⟨group.attributes, _, hread₂, ?_⟩⟩
    exact bind_eq_ok.2 ⟨group.closing, rest, expect_cons hclosing rest, rfl⟩

theorem attributeSequences_of_none {ts : List Token} (h : nextIs .attributeOpen ts = false) :
    attributeSequences ts = .ok [] ts := by
  rw [attributeSequences, if_neg (by simp [h])]

theorem attributeSequences_of_some {group : AttributeSequence} {ts rest : List Token}
    (hnext : nextIs .attributeOpen ts = true) (h : attributeSequence ts = .ok group rest) :
    attributeSequences ts = Reading.map (group :: ·) (attributeSequences rest) := by
  rw [attributeSequences_eq, if_pos hnext, h]

theorem attributeSequences_of_spelled {groups : List AttributeSequence} {ts rest : List Token}
    (hspelled : AttributeSequence.SpelledAll groups ts) (hgroups : ∀ g ∈ groups, g.WellFormed)
    (hrest : nextIs .attributeOpen rest = false) :
    attributeSequences (ts ++ rest) = .ok groups rest := by
  induction hspelled with
  | nil => exact attributeSequences_of_none hrest
  | @cons group groups ts more h hmore ih =>
    have hgroup := hgroups group List.mem_cons_self
    have hread := attributeSequence_of_derives (h.derives hgroup) (more ++ rest)
    have hnext : nextIs .attributeOpen (ts ++ (more ++ rest)) = true := by
      obtain ⟨hdefault, hattributes⟩ := h
      rw [List.cons_append, nextIs_cons, hgroup.opening]
      rfl
    rw [List.append_assoc, attributeSequences_of_some hnext hread,
      ih fun g hg => hgroups g (List.mem_cons_of_mem _ hg), Reading.map_ok]

end Parser

end HeaderReflection
