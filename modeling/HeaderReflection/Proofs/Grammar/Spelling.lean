import HeaderReflection.Declaration

/-!
# Writing trees out

How a tree is written as tokens. The tree has most of the tokens; the signs between them are added
and may stand anywhere. Attributes, parameters and bases are separated by commas, names by `::`, and
a semicolon follows each class and each member.
-/

namespace HeaderReflection

/-- The token is a sign of its own category. -/
structure Token.IsSign (c : Char) (t : Token) : Prop where
  kind : t.kind = .ofSign c
  text : t.text = String.singleton c

/-- Things written with a comma between each two of them. -/
inductive Separated {α : Type} (spelled : α → List Token → Prop) : List α → List Token → Prop
  | last {a : α} {ts : List Token} (h : spelled a ts) : Separated spelled [a] ts
  | more {a : α} {as : List α} {ts rest : List Token} {comma : Token} (h : spelled a ts)
      (hcomma : comma.IsSign ',') (hrest : Separated spelled as rest) :
      Separated spelled (a :: as) (ts ++ comma :: rest)

/-! ## Names -/

namespace QualifiedName

/-- Further parts of a name, each behind `::`. -/
inductive SpelledParts : List Literal → List Token → Prop
  | nil : SpelledParts [] []
  | cons {c d : Token} {l : Literal} {ls : List Literal} {ts : List Token} (hc : c.IsSign ':')
      (hd : d.IsSign ':') (h : SpelledParts ls ts) :
      SpelledParts (l :: ls) (c :: d :: l.token :: ts)

/-- A name with `::` between its parts. -/
inductive Spelled : QualifiedName → List Token → Prop
  | mk {l : Literal} {ls : List Literal} {ts : List Token} (h : SpelledParts ls ts) :
      Spelled ⟨l :: ls⟩ (l.token :: ts)

end QualifiedName

/-! ## Attributes -/

namespace Attribute

/-- The namespace of an attribute with the `::` after it. -/
inductive SpelledScope : Option Literal → List Token → Prop
  | none : SpelledScope none []
  | some {l : Literal} {c d : Token} (hc : c.IsSign ':') (hd : d.IsSign ':') :
      SpelledScope (some l) [l.token, c, d]

/-- The parameters of an attribute in their parentheses. -/
inductive SpelledParams : Option (List Literal) → List Token → Prop
  | none : SpelledParams none []
  | empty {opening closing : Token} (hopening : opening.IsSign '(')
      (hclosing : closing.IsSign ')') : SpelledParams (some []) [opening, closing]
  | some {opening closing : Token} {ls : List Literal} {ts : List Token}
      (hopening : opening.IsSign '(') (h : Separated (fun l ts => ts = [l.token]) ls ts)
      (hclosing : closing.IsSign ')') :
      SpelledParams (some ls) (opening :: (ts ++ [closing]))

/-- An attribute. -/
inductive Spelled (a : Attribute) : List Token → Prop
  | mk {scope params : List Token} (hscope : SpelledScope a.scope scope)
      (hparams : SpelledParams a.params params) : Spelled a (scope ++ a.name.token :: params)

end Attribute

namespace AttributeSequence

/-- The namespace that a group names for all its attributes. -/
inductive SpelledDefault : Option Literal → List Token → Prop
  | none : SpelledDefault none []
  | some {keyword colon : Token} {l : Literal} (hkeyword : keyword.kind = .usingKeyword)
      (hcolon : colon.IsSign ':') : SpelledDefault (some l) [keyword, l.token, colon]

/-- A group of attributes in its brackets. -/
inductive Spelled (group : AttributeSequence) : List Token → Prop
  | mk {default ts : List Token} (hdefault : SpelledDefault group.default default)
      (h : Separated Attribute.Spelled group.attributes ts) :
      Spelled group (group.opening :: (default ++ (ts ++ [group.closing])))

/-- Groups one after the other. -/
inductive SpelledAll : List AttributeSequence → List Token → Prop
  | nil : SpelledAll [] []
  | cons {group : AttributeSequence} {groups : List AttributeSequence} {ts rest : List Token}
      (h : group.Spelled ts) (hrest : SpelledAll groups rest) :
      SpelledAll (group :: groups) (ts ++ rest)

end AttributeSequence

/-! ## Classes -/

namespace Member

/-- A member up to its name or the end of its parameter list. -/
inductive Spelled (m : Member) : List Token → Prop
  | mk {groups head : List Token} (hgroups : AttributeSequence.SpelledAll m.attributes groups)
      (hhead : m.type.head.Spelled head) :
      Spelled m (groups ++ (head ++ (m.type.suffix ++ (m.name.token :: m.signature.getD []))))

/-- Members with a semicolon after each. -/
inductive SpelledAll : List Member → List Token → Prop
  | nil : SpelledAll [] []
  | cons {m : Member} {ms : List Member} {ts rest : List Token} {semicolon : Token}
      (h : m.Spelled ts) (hsemicolon : semicolon.IsSign ';') (hrest : SpelledAll ms rest) :
      SpelledAll (m :: ms) (ts ++ semicolon :: rest)

end Member

namespace ClassDeclaration

/-- The bases of a class behind their colon, if it has any. -/
inductive SpelledBases : List QualifiedName → List Token → Prop
  | nil : SpelledBases [] []
  | some {colon : Token} {names : List QualifiedName} {ts : List Token} (hcolon : colon.IsSign ':')
      (h : Separated QualifiedName.Spelled names ts) : SpelledBases names (colon :: ts)

/-- A class up to its closing brace. -/
inductive Spelled (c : ClassDeclaration) : List Token → Prop
  | mk {groups name bases members : List Token} {opening closing : Token}
      (hgroups : AttributeSequence.SpelledAll c.attributes groups) (hname : c.name.Spelled name)
      (hbases : SpelledBases c.bases bases) (hopening : opening.IsSign '\x7b')
      (hmembers : Member.SpelledAll c.members members) (hclosing : closing.IsSign '\x7d') :
      Spelled c (c.keyword ::
        (groups ++ (name ++ (bases ++ (opening :: (members ++ [closing]))))))

end ClassDeclaration

/-! ## Files -/

namespace Declaration

mutual

/-- A declaration with everything in it, and the semicolon after a class. -/
inductive Spelled : Declaration → List Token → Prop
  | scope {keyword opening closing : Token} {name : QualifiedName} {inside : List Declaration}
      {ts rest : List Token} (hname : name.Spelled ts) (hopening : opening.IsSign '\x7b')
      (hinside : SpelledAll inside rest) (hclosing : closing.IsSign '\x7d') :
      Spelled (scope keyword name inside) (keyword :: (ts ++ (opening :: (rest ++ [closing]))))
  | record {c : ClassDeclaration} {ts : List Token} {semicolon : Token} (h : c.Spelled ts)
      (hsemicolon : semicolon.IsSign ';') : Spelled (record c) (ts ++ [semicolon])
  | directive (d : Directive) : Spelled (directive d) (d.hash :: d.rest.map Literal.token)

/-- Declarations one after the other. -/
inductive SpelledAll : List Declaration → List Token → Prop
  | nil : SpelledAll [] []
  | cons {d : Declaration} {ds : List Declaration} {ts rest : List Token} (h : Spelled d ts)
      (hrest : SpelledAll ds rest) : SpelledAll (d :: ds) (ts ++ rest)

end

end Declaration

/-- A file. -/
def CompilationUnit.Spelled (unit : CompilationUnit) (ts : List Token) : Prop :=
  Declaration.SpelledAll unit.declarations ts

end HeaderReflection
