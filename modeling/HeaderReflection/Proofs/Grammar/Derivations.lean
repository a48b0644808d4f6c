import HeaderReflection.Proofs.Grammar.Spelling
import HeaderReflection.Proofs.Grammar.WellFormed

/-!
# The grammar of names and attributes

What the readers of names and groups of attributes take, told by the categories of tokens alone. A
comma may stand after every attribute and every parameter, or not. A tree that is well-formed is
derived from the tokens that it is written as (`AttributeSequence.Spelled.derives`).
-/

namespace HeaderReflection

/-- One token of a category, or nothing. -/
inductive Optional (kind : TokenKind) : List Token → Prop
  | absent : Optional kind []
  | present {t : Token} (h : t.kind = kind) : Optional kind [t]

/-! ## Names -/

namespace QualifiedName

/-- Further parts of a name, each behind two colons. -/
inductive DerivesParts : List Literal → List Token → Prop
  | nil : DerivesParts [] []
  | cons {c d : Token} {l : Literal} {ls : List Literal} {ts : List Token} (hc : c.kind = .colon)
      (hd : d.kind = .colon) (hl : l.IsIdentifier) (h : DerivesParts ls ts) :
      DerivesParts (l :: ls) (c :: d :: l.token :: ts)

/-- A name: an identifier and its further parts. -/
inductive Derives : QualifiedName → List Token → Prop
  | mk {l : Literal} {ls : List Literal} {ts : List Token} (hl : l.IsIdentifier)
      (h : DerivesParts ls ts) : Derives ⟨l :: ls⟩ (l.token :: ts)

theorem SpelledParts.derives {ls : List Literal} {ts : List Token} (h : SpelledParts ls ts)
    (hls : ∀ l ∈ ls, l.IsIdentifier) : DerivesParts ls ts := by
  induction h with
  | nil => exact .nil
  | cons hc hd _ ih =>
    exact .cons hc.kind hd.kind (hls _ List.mem_cons_self)
      (ih fun l hl => hls l (List.mem_cons_of_mem _ hl))

theorem Spelled.derives {name : QualifiedName} {ts : List Token} (h : name.Spelled ts)
    (hname : name.WellFormed) : name.Derives ts := by
  obtain ⟨hparts⟩ := h
  exact .mk (hname.parts _ List.mem_cons_self)
    (hparts.derives fun l hl => hname.parts l (List.mem_cons_of_mem _ hl))

end QualifiedName

/-! ## Attributes -/

namespace Attribute

/-- The namespace of an attribute with two colons after it. -/
inductive DerivesScope : Option Literal → List Token → Prop
  | none : DerivesScope none []
  | some {l : Literal} {c d : Token} (hl : l.IsIdentifier) (hc : c.kind = .colon)
      (hd : d.kind = .colon) : DerivesScope (some l) [l.token, c, d]

/-- Parameters, each with or without a comma after it. -/
inductive DerivesLiterals : List Literal → List Token → Prop
  | nil : DerivesLiterals [] []
  | cons {l : Literal} {ls : List Literal} {comma ts : List Token} (hl : l.WellFormed)
      (hcomma : Optional .comma comma) (h : DerivesLiterals ls ts) :
      DerivesLiterals (l :: ls) (l.token :: (comma ++ ts))

/-- Parameters in parentheses, or none. -/
inductive DerivesParams : Option (List Literal) → List Token → Prop
  | none : DerivesParams none []
  | some {opening closing : Token} {ls : List Literal} {ts : List Token}
      (hopening : opening.kind = .openParen) (h : DerivesLiterals ls ts)
      (hclosing : closing.kind = .closeParen) :
      DerivesParams (some ls) (opening :: (ts ++ [closing]))

/-- An attribute. -/
inductive Derives (a : Attribute) : List Token → Prop
  | mk {scope params : List Token} (hscope : DerivesScope a.scope scope)
      (hname : a.name.IsIdentifier) (hparams : DerivesParams a.params params) :
      Derives a (scope ++ a.name.token :: params)

theorem SpelledScope.derives {l : Option Literal} {ts : List Token} (h : SpelledScope l ts)
    (hl : ∀ l' ∈ l, l'.IsIdentifier) : DerivesScope l ts := by
  cases h with
  | none => exact .none
  | some hc hd => exact .some (hl _ rfl) hc.kind hd.kind

theorem derivesLiterals_of_separated {ls : List Literal} {ts : List Token}
    (h : Separated (fun l ts => ts = [l.token]) ls ts) (hls : ∀ l ∈ ls, l.WellFormed) :
    DerivesLiterals ls ts := by
  induction h with
  | last h =>
    subst h
    exact .cons (hls _ List.mem_cons_self) .absent .nil
  | more h hcomma _ ih =>
    subst h
    have hmore := ih fun l hl => hls l (List.mem_cons_of_mem _ hl)
    have hcons := DerivesLiterals.cons (hls _ List.mem_cons_self) (.present hcomma.kind) hmore
    exact hcons

theorem SpelledParams.derives {ls : Option (List Literal)} {ts : List Token}
    (h : SpelledParams ls ts) (hls : ∀ ls' ∈ ls, ∀ l ∈ ls', l.WellFormed) :
    DerivesParams ls ts := by
  cases h with
  | none => exact .none
  | empty hopening hclosing => exact .some hopening.kind .nil hclosing.kind
  | some hopening h hclosing =>
    exact .some hopening.kind (derivesLiterals_of_separated h (hls _ rfl)) hclosing.kind

theorem Spelled.derives {a : Attribute} {ts : List Token} (h : a.Spelled ts) (ha : a.WellFormed) :
    a.Derives ts := by
  obtain ⟨hscope, hparams⟩ := h
  exact .mk (hscope.derives ha.scope) ha.name (hparams.derives ha.params)

end Attribute

/-! ## Groups of attributes -/

namespace AttributeSequence

/-- The namespace that a group names for all its attributes. -/
inductive DerivesDefault : Option Literal → List Token → Prop
  | none : DerivesDefault none []
  | some {keyword colon : Token} {l : Literal} (hkeyword : keyword.kind = .usingKeyword)
      (hl : l.IsIdentifier) (hcolon : colon.kind = .colon) :
      DerivesDefault (some l) [keyword, l.token, colon]

/-- Attributes, at least one, each with or without a comma after it. -/
inductive DerivesAttributes : List Attribute → List Token → Prop
  | last {a : Attribute} {ts comma : List Token} (h : a.Derives ts)
      (hcomma : Optional .comma comma) : DerivesAttributes [a] (ts ++ comma)
  | more {a : Attribute} {as : List Attribute} {ts comma rest : List Token} (h : a.Derives ts)
      (hcomma : Optional .comma comma) (hrest : DerivesAttributes as rest) :
      DerivesAttributes (a :: as) (ts ++ (comma ++ rest))

/-- A group of attributes in its brackets. -/
inductive Derives (group : AttributeSequence) : List Token → Prop
  | mk {default ts : List Token} (hopening : group.opening.kind = .attributeOpen)
      (hdefault : DerivesDefault group.default default) (h : DerivesAttributes group.attributes ts)
      (hclosing : group.closing.kind = .attributeClose) :
      Derives group (group.opening :: (default ++ (ts ++ [group.closing])))

theorem SpelledDefault.derives {l : Option Literal} {ts : List Token} (h : SpelledDefault l ts)
    (hl : ∀ l' ∈ l, l'.IsIdentifier) : DerivesDefault l ts := by
  cases h with
  | none => exact .none
  | some hkeyword hcolon => exact .some hkeyword (hl _ rfl) hcolon.kind

theorem derivesAttributes_of_separated {as : List Attribute} {ts : List Token}
    (h : Separated Attribute.Spelled as ts) (has : ∀ a ∈ as, a.WellFormed) :
    DerivesAttributes as ts := by
  induction h with
  | @last a ts h =>
    rw [← List.append_nil ts]
    exact .last (h.derives (has _ List.mem_cons_self)) .absent
  | more h hcomma _ ih =>
    have hmore := ih fun a ha => has a (List.mem_cons_of_mem _ ha)
    have hcons := DerivesAttributes.more (h.derives (has _ List.mem_cons_self))
      (.present hcomma.kind) hmore
    exact hcons

/-- What a well-formed group is written as derives it. -/
theorem Spelled.derives {group : AttributeSequence} {ts : List Token} (h : group.Spelled ts)
    (hgroup : group.WellFormed) : group.Derives ts := by
  obtain ⟨hdefault, hattributes⟩ := h
  exact .mk hgroup.opening (hdefault.derives hgroup.default)
    (derivesAttributes_of_separated hattributes hgroup.attributes) hgroup.closing

end AttributeSequence

end HeaderReflection
