import HeaderReflection.Proofs.Grammar.Readback.Attributes

/-!
# How a group of attributes is written

The same attributes can be written with a comma between them or without one. A form of a group
(`GroupForm`) is one way to write it, with every token in its place, so it is a derivation of the
group in the grammar

* group: `[[`, `using` name `:` or nothing, an attribute, further attributes with a comma or nothing
  before each, a comma or nothing, `]]`;
* attribute: a name, `::` and a name or nothing, parameters in parentheses or nothing;
* parameters: literals with a comma or nothing after each.

Tokens that start with a form show where it ends and which one it is: what is left out is never told
from what follows by more than two tokens (`GroupForm.unambiguous`). The reader takes the forms and
nothing else (`Parser.attributeSequence_iff_form`).
-/

namespace HeaderReflection

/-! ## Forms -/

/-- A token of a category. -/
abbrev TokenOf (kind : TokenKind) : Type := { t : Token // t.kind = kind }

/-- A token that is a word, a number or a string. -/
abbrev LiteralToken : Type :=
  { t : Token // t.kind = .identifier ∨ t.kind = .numberLiteral ∨ t.kind = .stringLiteral }

/-- The token alone. -/
def TokenOf.tokens {kind : TokenKind} (t : TokenOf kind) : List Token := [t.val]

/-- A comma or nothing. -/
def commaTokens (comma : Option (TokenOf .comma)) : List Token := comma.elim [] TokenOf.tokens

/-- A parameter and the comma after it, if there is one. -/
structure ParamForm where
  literal : LiteralToken
  comma : Option (TokenOf .comma)

/-- Parameters in parentheses. -/
structure ParamsForm where
  opening : TokenOf .openParen
  params : List ParamForm
  closing : TokenOf .closeParen

/-- The second part of a name with the colons before it. -/
structure PartForm where
  first : TokenOf .colon
  second : TokenOf .colon
  name : TokenOf .identifier

/-- An attribute. When there is a second name, the first one is the namespace. -/
structure AttributeForm where
  first : TokenOf .identifier
  second : Option PartForm
  params : Option ParamsForm

/-- An attribute that is not the first, and the comma before it, if there is one. -/
structure FurtherForm extends AttributeForm where
  comma : Option (TokenOf .comma)

/-- The namespace that a group names for all its attributes. -/
structure DefaultForm where
  keyword : TokenOf .usingKeyword
  name : TokenOf .identifier
  colon : TokenOf .colon

/-- A group of attributes. -/
structure GroupForm where
  opening : TokenOf .attributeOpen
  default : Option DefaultForm
  first : AttributeForm
  more : List FurtherForm
  comma : Option (TokenOf .comma)
  closing : TokenOf .attributeClose

/-! ## The tokens of a form and the tree it stands for -/

/-- The identifier that a token is. -/
def TokenOf.tree (t : TokenOf .identifier) : Literal := ⟨t.val, .identifier⟩

/-- The literal that a token is. -/
def LiteralToken.tree (t : LiteralToken) : Literal where
  token := t.val
  kind :=
    match t.val.kind with
    | .stringLiteral => .string
    | .numberLiteral => .number
    | _ => .identifier

def ParamForm.tokens (p : ParamForm) : List Token := p.literal.val :: commaTokens p.comma

def ParamsForm.tokens (p : ParamsForm) : List Token :=
  p.opening.val :: (p.params.flatMap ParamForm.tokens ++ [p.closing.val])

def ParamsForm.tree (p : ParamsForm) : List Literal := p.params.map fun param => param.literal.tree

def PartForm.tokens (p : PartForm) : List Token := [p.first.val, p.second.val, p.name.val]

def AttributeForm.tokens (a : AttributeForm) : List Token :=
  a.first.val :: (a.second.elim [] PartForm.tokens ++ a.params.elim [] ParamsForm.tokens)

def AttributeForm.tree (a : AttributeForm) : Attribute :=
  match a.second with
  | some part => ⟨some a.first.tree, part.name.tree, a.params.map ParamsForm.tree⟩
  | none => ⟨none, a.first.tree, a.params.map ParamsForm.tree⟩

def FurtherForm.tokens (f : FurtherForm) : List Token :=
  commaTokens f.comma ++ f.toAttributeForm.tokens

def DefaultForm.tokens (d : DefaultForm) : List Token := [d.keyword.val, d.name.val, d.colon.val]

def GroupForm.tokens (g : GroupForm) : List Token :=
  g.opening.val :: (g.default.elim [] DefaultForm.tokens ++ (g.first.tokens ++
    (g.more.flatMap FurtherForm.tokens ++ (commaTokens g.comma ++ [g.closing.val]))))

def GroupForm.tree (g : GroupForm) : AttributeSequence where
  opening := g.opening.val
  default := g.default.map fun d => d.name.tree
  attributes := g.first.tree :: g.more.map fun f => f.toAttributeForm.tree
  closing := g.closing.val

/-! ## A form derives its tree -/

theorem commaTokens_optional (comma : Option (TokenOf .comma)) :
    Optional .comma (commaTokens comma) := by
  cases comma with
  | none => exact .absent
  | some t => exact .present t.property

theorem TokenOf.tree_isIdentifier (t : TokenOf .identifier) : t.tree.IsIdentifier :=
  ⟨t.property, rfl⟩

theorem LiteralToken.tree_wellFormed (t : LiteralToken) : t.tree.WellFormed := by
  obtain ⟨t, ht⟩ := t
  rcases ht with ht | ht | ht <;> simp [Literal.WellFormed, tree, ht, LiteralKind.of?]

theorem ParamsForm.derives_params (params : List ParamForm) :
    Attribute.DerivesLiterals (params.map fun p => p.literal.tree)
      (params.flatMap ParamForm.tokens) := by
  induction params with
  | nil => exact .nil
  | cons p params ih =>
    rw [List.map_cons, List.flatMap_cons]
    exact .cons p.literal.tree_wellFormed (commaTokens_optional p.comma) ih

theorem ParamsForm.derives (params : Option ParamsForm) :
    Attribute.DerivesParams (params.map tree) (params.elim [] tokens) := by
  cases params with
  | none => exact .none
  | some p => exact .some p.opening.property (derives_params p.params) p.closing.property

theorem AttributeForm.derives (a : AttributeForm) : a.tree.Derives a.tokens := by
  obtain ⟨first, second, params⟩ := a
  have hparams := ParamsForm.derives params
  cases second with
  | none =>
    have hderives : (tree ⟨first, none, params⟩).Derives _ :=
      .mk .none first.tree_isIdentifier hparams
    exact hderives
  | some part =>
    have hscope := Attribute.DerivesScope.some first.tree_isIdentifier part.first.property
      part.second.property
    have hderives : (tree ⟨first, some part, params⟩).Derives _ :=
      .mk hscope part.name.tree_isIdentifier hparams
    exact hderives

theorem GroupForm.derives_attributes (first : AttributeForm) (more : List FurtherForm)
    (comma : Option (TokenOf .comma)) :
    AttributeSequence.DerivesAttributes
      (first.tree :: more.map fun f => f.toAttributeForm.tree)
      (first.tokens ++ (more.flatMap FurtherForm.tokens ++ commaTokens comma)) := by
  induction more generalizing first with
  | nil => exact .last first.derives (commaTokens_optional comma)
  | cons f more ih =>
    have hmore := ih f.toAttributeForm
    rw [List.map_cons, List.flatMap_cons, FurtherForm.tokens, List.append_assoc, List.append_assoc]
    exact .more first.derives (commaTokens_optional f.comma) hmore

/-- A form is a derivation of its tree. -/
theorem GroupForm.derives (g : GroupForm) : g.tree.Derives g.tokens := by
  obtain ⟨opening, default, first, more, comma, closing⟩ := g
  have hattributes := derives_attributes first more comma
  have hdefault : AttributeSequence.DerivesDefault (default.map fun d => d.name.tree)
      (default.elim [] DefaultForm.tokens) := by
    cases default with
    | none => exact .none
    | some d => exact .some d.keyword.property d.name.tree_isIdentifier d.colon.property
  have hgroup : (tree ⟨opening, default, first, more, comma, closing⟩).Derives _ :=
    .mk opening.property hdefault hattributes closing.property
  rw [List.append_assoc, List.append_assoc] at hgroup
  exact hgroup

/-! ## What is written shows what it is -/

/-- Tokens that start with something written show what it is and where it ends, if what comes after
it may follow it. -/
def Unambiguous {α : Type} (tokens : α → List Token) (Follows : List Token → Prop) : Prop :=
  ∀ ⦃a b : α⦄ ⦃rest more : List Token⦄, Follows rest → Follows more →
    tokens a ++ rest = tokens b ++ more → a = b ∧ rest = more

section

variable {α : Type} {tokens : α → List Token} {Follows : List Token → Prop}

/-- What follows does not start like what is written. -/
theorem tokens_append_ne {Starts : List Token → Prop}
    (hstarts : ∀ a rest, Starts (tokens a ++ rest))
    (hfollows : ∀ rest, Follows rest → ¬Starts rest) {rest : List Token} (hrest : Follows rest)
    (a : α) (more : List Token) : tokens a ++ more ≠ rest := by
  rintro rfl
  exact hfollows _ hrest (hstarts a more)

/-- Something may be left out if what follows does not start like it. -/
theorem Unambiguous.option (starts : List Token → Bool) (h : Unambiguous tokens fun _ => True)
    (hstarts : ∀ a rest, starts (tokens a ++ rest) = true) :
    Unambiguous (fun a : Option α => a.elim [] tokens) fun rest => starts rest = false := by
  have hfollows : ∀ rest, starts rest = false → ¬starts rest = true :=
    fun rest hrest => Bool.eq_false_iff.1 hrest
  intro a b rest more hrest hmore heq
  cases a with
  | none =>
    cases b with
    | none => exact ⟨rfl, heq⟩
    | some b => exact absurd heq.symm (tokens_append_ne hstarts hfollows hrest b more)
  | some a =>
    cases b with
    | none => exact absurd heq (tokens_append_ne hstarts hfollows hmore a rest)
    | some b =>
      obtain ⟨rfl, hrest⟩ := h trivial trivial heq
      exact ⟨rfl, hrest⟩

/-- Things may stand in a row if each may be followed by another and by what follows them all, and
what follows them all does not start like one of them. -/
theorem Unambiguous.list {Next : List Token → Prop} (Starts : List Token → Prop)
    (h : Unambiguous tokens Next) (hstarts : ∀ a rest, Starts (tokens a ++ rest))
    (hnext : ∀ rest, Starts rest → Next rest)
    (hlast : ∀ rest, Follows rest → Next rest) (hfollows : ∀ rest, Follows rest → ¬Starts rest) :
    Unambiguous (List.flatMap tokens) Follows := by
  have hrow : ∀ (as : List α) (rest : List Token), Follows rest →
      Next (as.flatMap tokens ++ rest) := by
    intro as rest hrest
    cases as with
    | nil => exact hlast rest hrest
    | cons a as =>
      rw [List.flatMap_cons, List.append_assoc]
      exact hnext _ (hstarts a _)
  intro as
  induction as with
  | nil =>
    intro bs rest more hrest hmore heq
    cases bs with
    | nil => exact ⟨rfl, heq⟩
    | cons b bs =>
      rw [List.flatMap_cons, List.append_assoc] at heq
      exact absurd heq.symm (tokens_append_ne hstarts hfollows hrest b _)
  | cons a as ih =>
    intro bs rest more hrest hmore heq
    rw [List.flatMap_cons, List.append_assoc] at heq
    cases bs with
    | nil => exact absurd heq (tokens_append_ne hstarts hfollows hmore a _)
    | cons b bs =>
      rw [List.flatMap_cons, List.append_assoc] at heq
      obtain ⟨rfl, htail⟩ := h (hrow as rest hrest) (hrow bs more hmore) heq
      obtain ⟨rfl, hend⟩ := ih hrest hmore htail
      exact ⟨rfl, hend⟩

end

theorem TokenOf.unambiguous (kind : TokenKind) :
    Unambiguous (@TokenOf.tokens kind) fun _ => True := by
  intro a b rest more _ _ heq
  obtain ⟨hhead, htail⟩ := List.cons.inj heq
  exact ⟨Subtype.ext hhead, htail⟩

theorem TokenOf.kind_ne {kind other : TokenKind} (t : TokenOf kind) (h : kind ≠ other) :
    t.val.kind ≠ other := by
  rwa [t.property]

/-- A comma may be left out before anything that is no comma. -/
theorem commaTokens_unambiguous : Unambiguous commaTokens fun rest => nextIs .comma rest = false :=
  (TokenOf.unambiguous .comma).option _ fun t _ => decide_eq_true t.property

/-- What follows an optional comma can be told from the comma. -/
theorem commaTokens_append_cons {a b : Option (TokenOf .comma)} {t u : Token}
    {rest more : List Token} (ht : t.kind ≠ .comma) (hu : u.kind ≠ .comma)
    (h : commaTokens a ++ t :: rest = commaTokens b ++ u :: more) :
    a = b ∧ t = u ∧ rest = more := by
  have hrest : nextIs .comma (t :: rest) = false := decide_eq_false ht
  have hmore : nextIs .comma (u :: more) = false := decide_eq_false hu
  obtain ⟨hcomma, htail⟩ := commaTokens_unambiguous hrest hmore h
  exact ⟨hcomma, List.cons.inj htail⟩

theorem ParamForm.unambiguous :
    Unambiguous tokens fun rest => nextIs .comma rest = false := by
  intro a b rest more hrest hmore heq
  obtain ⟨literal, comma⟩ := a
  obtain ⟨literal', comma'⟩ := b
  obtain ⟨hhead, htail⟩ := List.cons.inj heq
  obtain ⟨rfl, hend⟩ := commaTokens_unambiguous hrest hmore htail
  obtain rfl := Subtype.ext hhead
  exact ⟨rfl, hend⟩

/-- Parameters end where the parenthesis closes. -/
theorem ParamsForm.unambiguous : Unambiguous tokens fun _ => True := by
  have hparams : Unambiguous (List.flatMap ParamForm.tokens)
      fun rest => nextIs .closeParen rest = true := by
    refine Unambiguous.list
      (fun rest => ∃ (t : LiteralToken) (more : List Token), rest = t.val :: more)
      ParamForm.unambiguous ?_ ?_ ?_ ?_
    · exact fun p rest => ⟨p.literal, _, rfl⟩
    · rintro _ ⟨⟨t, ht⟩, more, rfl⟩
      rcases ht with ht | ht | ht <;> simp [ht]
    · intro rest hrest
      cases rest with
      | nil => rfl
      | cons t rest => simp [of_decide_eq_true hrest]
    · rintro _ hclose ⟨⟨t, ht⟩, more, rfl⟩
      have hkind : t.kind = .closeParen := of_decide_eq_true hclose
      rcases ht with ht | ht | ht <;> exact absurd (hkind.symm.trans ht) (by decide)
  intro a b rest more _ _ heq
  obtain ⟨opening, params, closing⟩ := a
  obtain ⟨opening', params', closing'⟩ := b
  simp only [tokens, List.cons_append, List.append_assoc, List.nil_append] at heq
  obtain ⟨hopening, htail⟩ := List.cons.inj heq
  have hclosing : ∀ (t : TokenOf .closeParen) (ts : List Token),
      nextIs .closeParen (t.val :: ts) = true := fun t ts => decide_eq_true t.property
  obtain ⟨rfl, hend⟩ := hparams (hclosing closing rest) (hclosing closing' more) htail
  obtain ⟨hlast, hrest⟩ := List.cons.inj hend
  obtain rfl := Subtype.ext hopening
  obtain rfl := Subtype.ext hlast
  exact ⟨rfl, hrest⟩

theorem PartForm.unambiguous : Unambiguous tokens fun _ => True := by
  intro a b rest more _ _ heq
  obtain ⟨first, second, name⟩ := a
  obtain ⟨first', second', name'⟩ := b
  simp only [tokens, List.cons_append, List.nil_append, List.cons.injEq] at heq
  obtain ⟨hfirst, hsecond, hname, htail⟩ := heq
  obtain rfl := Subtype.ext hfirst
  obtain rfl := Subtype.ext hsecond
  obtain rfl := Subtype.ext hname
  exact ⟨rfl, htail⟩

/-- An attribute ends before a comma, another attribute and the brackets. -/
theorem AttributeForm.unambiguous : Unambiguous tokens Parser.EndsAttribute := by
  have hsecond : Unambiguous (fun p : Option PartForm => p.elim [] PartForm.tokens)
      fun rest => startsScope rest = false := by
    refine PartForm.unambiguous.option _ fun p rest => ?_
    simp [PartForm.tokens, startsScope, p.first.property, p.second.property]
  have hparams : Unambiguous (fun p : Option ParamsForm => p.elim [] ParamsForm.tokens)
      fun rest => nextIs .openParen rest = false :=
    ParamsForm.unambiguous.option _ fun p _ => decide_eq_true p.opening.property
  intro a b rest more hrest hmore heq
  have hscope := Parser.startsScope_params (ParamsForm.derives a.params) hrest.scope
  have hscope' := Parser.startsScope_params (ParamsForm.derives b.params) hmore.scope
  obtain ⟨first, second, params⟩ := a
  obtain ⟨first', second', params'⟩ := b
  simp only [tokens, List.cons_append, List.append_assoc] at heq
  obtain ⟨hfirst, htail⟩ := List.cons.inj heq
  obtain ⟨rfl, htail⟩ := hsecond hscope hscope' htail
  obtain ⟨rfl, hend⟩ := hparams hrest.params hmore.params htail
  obtain rfl := Subtype.ext hfirst
  exact ⟨rfl, hend⟩

/-- After an optional comma comes another attribute. -/
def FurtherForm.Starts (ts : List Token) : Prop :=
  ∃ (comma : Option (TokenOf .comma)) (t : TokenOf .identifier) (more : List Token),
    ts = commaTokens comma ++ t.val :: more

/-- After an optional comma come the closing brackets. -/
def FurtherForm.Follows (ts : List Token) : Prop :=
  ∃ (comma : Option (TokenOf .comma)) (t : TokenOf .attributeClose) (more : List Token),
    ts = commaTokens comma ++ t.val :: more

theorem FurtherForm.unambiguous : Unambiguous tokens Parser.EndsAttribute := by
  intro a b rest more hrest hmore heq
  obtain ⟨⟨first, second, params⟩, comma⟩ := a
  obtain ⟨⟨first', second', params'⟩, comma'⟩ := b
  simp only [tokens, List.append_assoc] at heq
  obtain ⟨rfl, hfirst, htail⟩ :=
    commaTokens_append_cons (first.kind_ne (by decide)) (first'.kind_ne (by decide)) heq
  have hcons : AttributeForm.tokens ⟨first, second, params⟩ ++ rest =
      AttributeForm.tokens ⟨first', second', params'⟩ ++ more :=
    List.cons_eq_cons.2 ⟨hfirst, htail⟩
  obtain ⟨hattribute, hend⟩ := AttributeForm.unambiguous hrest hmore hcons
  exact ⟨congrArg (FurtherForm.mk · comma) hattribute, hend⟩

theorem FurtherForm.unambiguous_list : Unambiguous (List.flatMap tokens) Follows := by
  refine Unambiguous.list Starts FurtherForm.unambiguous ?_ ?_ ?_ ?_
  · intro f rest
    rw [tokens, List.append_assoc]
    exact ⟨f.comma, f.first, _, rfl⟩
  · rintro _ ⟨comma, t, more, rfl⟩
    exact Parser.endsAttribute_append (commaTokens_optional comma) (.inr t.property) more
  · rintro _ ⟨comma, t, more, rfl⟩
    exact Parser.endsAttribute_append (commaTokens_optional comma) (.inl t.property) more
  · rintro _ ⟨comma, t, more, rfl⟩ ⟨comma', u, rest, heq⟩
    obtain ⟨-, hhead, -⟩ :=
      commaTokens_append_cons (t.kind_ne (by decide)) (u.kind_ne (by decide)) heq
    have hkind := t.property.symm.trans ((congrArg Token.kind hhead).trans u.property)
    exact absurd hkind (by decide)

theorem DefaultForm.unambiguous : Unambiguous tokens fun _ => True := by
  intro a b rest more _ _ heq
  obtain ⟨keyword, name, colon⟩ := a
  obtain ⟨keyword', name', colon'⟩ := b
  simp only [tokens, List.cons_append, List.nil_append, List.cons.injEq] at heq
  obtain ⟨hkeyword, hname, hcolon, htail⟩ := heq
  obtain rfl := Subtype.ext hkeyword
  obtain rfl := Subtype.ext hname
  obtain rfl := Subtype.ext hcolon
  exact ⟨rfl, htail⟩

/-- What follows the first attribute of a group ends it. -/
theorem FurtherForm.endsAttribute (more : List FurtherForm) (comma : Option (TokenOf .comma))
    (closing : TokenOf .attributeClose) (rest : List Token) :
    Parser.EndsAttribute
      (more.flatMap tokens ++ (commaTokens comma ++ closing.val :: rest)) := by
  cases more with
  | nil =>
    apply Parser.endsAttribute_append (commaTokens_optional comma)
    exact .inl closing.property
  | cons f more =>
    rw [List.flatMap_cons, tokens, List.append_assoc, List.append_assoc]
    apply Parser.endsAttribute_append (commaTokens_optional f.comma)
    exact .inr f.first.property

/-- **Tokens that start with a group show which one it is and where it ends.** -/
theorem GroupForm.unambiguous : Unambiguous tokens fun _ => True := by
  have hdefault : Unambiguous (fun d : Option DefaultForm => d.elim [] DefaultForm.tokens)
      fun rest => nextIs .usingKeyword rest = false :=
    DefaultForm.unambiguous.option _ fun d _ => decide_eq_true d.keyword.property
  have hfirst : ∀ (a : AttributeForm) (rest : List Token),
      nextIs .usingKeyword (a.tokens ++ rest) = false := by
    intro a rest
    exact decide_eq_false (a.first.kind_ne (by decide))
  intro a b rest more _ _ heq
  obtain ⟨opening, default, first, further, comma, closing⟩ := a
  obtain ⟨opening', default', first', further', comma', closing'⟩ := b
  simp only [tokens, List.cons_append, List.append_assoc, List.nil_append] at heq
  obtain ⟨hopening, hgroup⟩ := List.cons.inj heq
  obtain ⟨rfl, hattributes⟩ := hdefault (hfirst first _) (hfirst first' _) hgroup
  have hends := FurtherForm.endsAttribute further comma closing rest
  have hends' := FurtherForm.endsAttribute further' comma' closing' more
  obtain ⟨rfl, hfurther⟩ := AttributeForm.unambiguous hends hends' hattributes
  obtain ⟨rfl, hend⟩ := FurtherForm.unambiguous_list ⟨comma, closing, rest, rfl⟩
    ⟨comma', closing', more, rfl⟩ hfurther
  obtain ⟨rfl, hlast, hrest⟩ :=
    commaTokens_append_cons (closing.kind_ne (by decide)) (closing'.kind_ne (by decide)) hend
  obtain rfl := Subtype.ext hopening
  obtain rfl := Subtype.ext hlast
  exact ⟨rfl, hrest⟩

/-! ## Everything that is read has a form -/

namespace Parser

variable {ts rest : List Token}

/-- What is dropped is a comma or nothing. -/
theorem exists_commaTokens (ts : List Token) :
    ∃ comma : Option (TokenOf .comma), ts = commaTokens comma ++ skipComma ts := by
  by_cases hcomma : nextIs .comma ts = true
  · cases ts with
    | nil => cases hcomma
    | cons t ts =>
      refine ⟨some ⟨t, of_decide_eq_true hcomma⟩, ?_⟩
      rw [skipComma, if_pos hcomma]
      rfl
  · refine ⟨none, ?_⟩
    rw [skipComma, if_neg hcomma]
    rfl

theorem tokenOf_of_expect {kind : TokenKind} {t : Token} (h : expect kind ts = .ok t rest) :
    ∃ u : TokenOf kind, u.val = t ∧ ts = u.val :: rest := by
  obtain ⟨hts, hkind⟩ := expect_eq_ok.1 h
  exact ⟨⟨t, hkind⟩, rfl, hts⟩

theorem tokenOf_of_identifier {l : Literal} (h : identifier ts = .ok l rest) :
    ∃ t : TokenOf .identifier, t.tree = l ∧ ts = t.val :: rest := by
  obtain ⟨_, hread, htree⟩ := Reading.map_eq_ok.1 h
  obtain ⟨t, rfl, hts⟩ := tokenOf_of_expect hread
  exact ⟨t, htree, hts⟩

theorem literalToken_of_kind {t : Token} {kind : LiteralKind}
    (h : LiteralKind.of? t.kind = some kind) : ∃ l : LiteralToken, l.tree = ⟨t, kind⟩ := by
  cases hkind : t.kind with
  | identifier =>
    rw [hkind] at h
    cases h
    exact ⟨⟨t, .inl hkind⟩, by simp [LiteralToken.tree, hkind]⟩
  | numberLiteral =>
    rw [hkind] at h
    cases h
    exact ⟨⟨t, .inr (.inl hkind)⟩, by simp [LiteralToken.tree, hkind]⟩
  | stringLiteral =>
    rw [hkind] at h
    cases h
    exact ⟨⟨t, .inr (.inr hkind)⟩, by simp [LiteralToken.tree, hkind]⟩
  | _ =>
    rw [hkind] at h
    cases h

theorem params_of_furtherParams {ls : List Literal} (h : furtherParams ts = .ok ls rest) :
    ∃ (params : List ParamForm) (closing : TokenOf .closeParen),
      params.map (fun p => p.literal.tree) = ls ∧
        ts = params.flatMap ParamForm.tokens ++ closing.val :: rest := by
  fun_induction furtherParams ts generalizing ls rest with
  | case1 => cases h
  | case2 t ts hclose =>
    cases h
    exact ⟨[], ⟨t, hclose⟩, rfl, rfl⟩
  | case3 => cases h
  | case4 t ts _ kind hkind ih =>
    obtain ⟨more, hread, rfl⟩ := Reading.map_eq_ok.1 h
    obtain ⟨params, closing, hparams, hts⟩ := ih hread
    obtain ⟨literal, hliteral⟩ := literalToken_of_kind hkind
    obtain ⟨comma, hcomma⟩ := exists_commaTokens ts
    have ht : literal.val = t := congrArg Literal.token hliteral
    refine ⟨⟨literal, comma⟩ :: params, closing, ?_, ?_⟩
    · rw [List.map_cons, hparams, hliteral]
    · rw [List.flatMap_cons, List.append_assoc, ← hts, ParamForm.tokens, List.cons_append, ht,
        ← hcomma]

theorem form_of_params {ls : Option (List Literal)} (h : params ts = .ok ls rest) :
    ∃ form : Option ParamsForm,
      form.map ParamsForm.tree = ls ∧ ts = form.elim [] ParamsForm.tokens ++ rest := by
  rw [params] at h
  split at h
  next hopening =>
    obtain ⟨more, hread, rfl⟩ := Reading.map_eq_ok.1 h
    obtain ⟨params, closing, hparams, htail⟩ := params_of_furtherParams hread
    cases ts with
    | nil => cases hopening
    | cons t ts =>
      refine ⟨some ⟨⟨t, of_decide_eq_true hopening⟩, params, closing⟩, congrArg some hparams, ?_⟩
      rw [show ts = _ from htail]
      simp [ParamsForm.tokens]
  next =>
    cases h
    exact ⟨none, rfl, rfl⟩

theorem form_of_nextPart {l : Option Literal} (h : nextPart ts = .ok l rest) :
    ∃ form : Option PartForm,
      form.map (fun p => p.name.tree) = l ∧ ts = form.elim [] PartForm.tokens ++ rest := by
  rw [nextPart] at h
  split at h
  next hscope =>
    obtain ⟨_, hread, rfl⟩ := Reading.map_eq_ok.1 h
    obtain ⟨name, rfl, htail⟩ := tokenOf_of_identifier hread
    cases ts with
    | nil => cases hscope
    | cons t ts =>
      cases ts with
      | nil => simp [startsScope] at hscope
      | cons u ts =>
        obtain ⟨ht, hu⟩ := Bool.and_eq_true_iff.1 hscope
        refine ⟨some ⟨⟨t, of_decide_eq_true ht⟩, ⟨u, of_decide_eq_true hu⟩, name⟩, rfl, ?_⟩
        exact congrArg (fun tail => t :: u :: tail) htail
  next =>
    cases h
    exact ⟨none, rfl, rfl⟩

theorem form_of_oneAttribute {a : Attribute} (h : oneAttribute ts = .ok a rest) :
    ∃ form : AttributeForm, form.tree = a ∧ ts = form.tokens ++ rest := by
  obtain ⟨_, _, hfirst, htail⟩ := bind_eq_ok.1 h
  obtain ⟨_, _, hsecond, htail⟩ := bind_eq_ok.1 htail
  obtain ⟨_, left, hparams, hresult⟩ := bind_eq_ok.1 htail
  obtain ⟨first, rfl, rfl⟩ := tokenOf_of_identifier hfirst
  obtain ⟨second, rfl, rfl⟩ := form_of_nextPart hsecond
  obtain ⟨params, rfl, rfl⟩ := form_of_params hparams
  have hdone : (AttributeForm.mk first second params).tree = a ∧ left = rest := by
    cases second with
    | none => exact pure_eq_ok.1 hresult
    | some part => exact pure_eq_ok.1 hresult
  obtain ⟨rfl, rfl⟩ := hdone
  refine ⟨⟨first, second, params⟩, rfl, ?_⟩
  rw [AttributeForm.tokens, List.cons_append, List.append_assoc]

/-- The attributes of a group and what stands before its end. -/
theorem forms_of_attributes {as : List Attribute} (h : attributes ts = .ok as rest) :
    ∃ (first : AttributeForm) (more : List FurtherForm) (comma : Option (TokenOf .comma)),
      first.tree :: more.map (fun f => f.toAttributeForm.tree) = as ∧
        ts = first.tokens ++ (more.flatMap FurtherForm.tokens ++ (commaTokens comma ++ rest)) := by
  fun_induction attributes ts generalizing as rest with
  | case1 => cases h
  | case2 ts a left hread hend =>
    cases h
    obtain ⟨first, rfl, rfl⟩ := form_of_oneAttribute hread
    obtain ⟨comma, hcomma⟩ := exists_commaTokens left
    exact ⟨first, [], comma, rfl, congrArg (first.tokens ++ ·) hcomma⟩
  | case3 ts a left hread hend ih =>
    obtain ⟨more, hmore, rfl⟩ := Reading.map_eq_ok.1 h
    obtain ⟨first, rfl, rfl⟩ := form_of_oneAttribute hread
    obtain ⟨next, further, comma, rfl, htail⟩ := ih hmore
    obtain ⟨before, hbefore⟩ := exists_commaTokens left
    refine ⟨first, ⟨next, before⟩ :: further, comma, rfl, ?_⟩
    rw [List.flatMap_cons, FurtherForm.tokens, List.append_assoc, List.append_assoc, ← htail,
      ← hbefore]

theorem form_of_defaultScope {l : Option Literal} (h : defaultScope ts = .ok l rest) :
    ∃ form : Option DefaultForm,
      form.map (fun d => d.name.tree) = l ∧ ts = form.elim [] DefaultForm.tokens ++ rest := by
  rw [defaultScope] at h
  split at h
  next hkeyword =>
    obtain ⟨_, _, hname, h⟩ := bind_eq_ok.1 h
    obtain ⟨_, _, hcolon, h⟩ := bind_eq_ok.1 h
    obtain ⟨rfl, rfl⟩ := pure_eq_ok.1 h
    obtain ⟨name, rfl, htail⟩ := tokenOf_of_identifier hname
    obtain ⟨colon, rfl, rfl⟩ := tokenOf_of_expect hcolon
    cases ts with
    | nil => cases hkeyword
    | cons t ts =>
      refine ⟨some ⟨⟨t, of_decide_eq_true hkeyword⟩, name, colon⟩, rfl, ?_⟩
      exact congrArg (t :: ·) htail
  next =>
    cases h
    exact ⟨none, rfl, rfl⟩

theorem form_of_attributeSequence {group : AttributeSequence}
    (h : attributeSequence ts = .ok group rest) :
    ∃ form : GroupForm, form.tree = group ∧ ts = form.tokens ++ rest := by
  obtain ⟨_, _, hopening, h⟩ := bind_eq_ok.1 h
  obtain ⟨_, _, hdefault, h⟩ := bind_eq_ok.1 h
  obtain ⟨_, _, hattributes, h⟩ := bind_eq_ok.1 h
  obtain ⟨_, _, hclosing, h⟩ := bind_eq_ok.1 h
  obtain ⟨rfl, rfl⟩ := pure_eq_ok.1 h
  obtain ⟨opening, rfl, rfl⟩ := tokenOf_of_expect hopening
  obtain ⟨default, rfl, rfl⟩ := form_of_defaultScope hdefault
  obtain ⟨first, more, comma, rfl, rfl⟩ := forms_of_attributes hattributes
  obtain ⟨closing, rfl, rfl⟩ := tokenOf_of_expect hclosing
  refine ⟨⟨opening, default, first, more, comma, closing⟩, rfl, ?_⟩
  simp [GroupForm.tokens]

/-- **The reader takes the forms of a group and nothing else.** A group is read from tokens exactly
if they start with a form of it, and they start with one form at most, so there is one way to take
the tokens as a group or none. -/
theorem attributeSequence_iff_form (ts : List Token) :
    (∀ (group : AttributeSequence) (rest : List Token), attributeSequence ts = .ok group rest ↔
      ∃ form : GroupForm, form.tree = group ∧ ts = form.tokens ++ rest) ∧
    ∀ (form other : GroupForm) (rest more : List Token),
      ts = form.tokens ++ rest → ts = other.tokens ++ more → form = other ∧ rest = more := by
  constructor
  · intro group rest
    constructor
    · exact form_of_attributeSequence
    · rintro ⟨form, rfl, rfl⟩
      exact attributeSequence_of_derives form.derives rest
  · rintro form other rest more rfl hother
    exact GroupForm.unambiguous trivial trivial hother

/-- `[[using SH: Range(0 "a",), B::On()]]` before a semicolon, and the first tokens of it alone. -/
theorem attributeSequence_iff_form_mixed :
    let token (kind : TokenKind) (text : String) : TokenOf kind := ⟨⟨kind, text, {}⟩, rfl⟩
    let comma := token .comma ","
    let zero : LiteralToken := ⟨⟨.numberLiteral, "0", {}⟩, .inr (.inl rfl)⟩
    let string : LiteralToken := ⟨⟨.stringLiteral, "\"a\"", {}⟩, .inr (.inr rfl)⟩
    let range : ParamsForm :=
      ⟨token .openParen "(", [⟨zero, none⟩, ⟨string, some comma⟩], token .closeParen ")"⟩
    let on : PartForm := ⟨token .colon ":", token .colon ":", token .identifier "On"⟩
    let form : GroupForm :=
      { opening := token .attributeOpen "[["
        default := some ⟨token .usingKeyword "using", token .identifier "SH", token .colon ":"⟩
        first := ⟨token .identifier "Range", none, some range⟩
        more := [⟨⟨token .identifier "B", some on,
          some ⟨token .openParen "(", [], token .closeParen ")"⟩⟩, some comma⟩]
        comma := none
        closing := token .attributeClose "]]" }
    let semicolon : Token := ⟨.semicolon, ";", {}⟩
    attributeSequence (form.tokens ++ [semicolon]) = .ok form.tree [semicolon] ∧
      ∀ cut < form.tokens.length, ¬∃ (short : GroupForm) (rest : List Token),
        form.tokens.take cut = short.tokens ++ rest := by
  intro token comma zero string range on form semicolon
  obtain ⟨hiff, hunique⟩ := attributeSequence_iff_form (form.tokens ++ [semicolon])
  refine ⟨(hiff form.tree [semicolon]).2 ⟨form, rfl, rfl⟩, ?_⟩
  rintro cut hcut ⟨short, rest, hshort⟩
  -- a shorter group would be another form at the start of the whole
  have hwhole : form.tokens ++ [semicolon] =
      short.tokens ++ (rest ++ (form.tokens.drop cut ++ [semicolon])) := by
    rw [← List.append_assoc short.tokens, ← hshort, ← List.append_assoc, List.take_append_drop]
  obtain ⟨rfl, hrest⟩ := hunique short form _ _ hwhole rfl
  have hlength := congrArg List.length hrest
  simp only [List.length_append, List.length_drop, List.length_singleton] at hlength
  omega

end Parser

end HeaderReflection
