import HeaderReflection.Grammar.Declarations

/-!
# The tokens of a tree

The tokens that a tree holds, in the order in which they are written. Brackets, commas, colons and
semicolons between them are not in the tree, but for the brackets of attribute groups and of
parameter lists.
-/

namespace HeaderReflection

/-- The parts of a name. -/
def QualifiedName.tokens (name : QualifiedName) : List Token := name.parts.map Literal.token

/-! ## Attributes -/

/-- The namespace, the name and the parameters of an attribute. -/
def Attribute.tokens (a : Attribute) : List Token :=
  a.scope.toList.map Literal.token ++ a.name.token :: (a.params.getD []).map Literal.token

/-- A group with its brackets. -/
def AttributeSequence.tokens (group : AttributeSequence) : List Token :=
  group.opening :: (group.default.toList.map Literal.token ++
    (group.attributes.flatMap Attribute.tokens ++ [group.closing]))

/-- Several groups. -/
def AttributeSequence.tokensAll (groups : List AttributeSequence) : List Token :=
  groups.flatMap AttributeSequence.tokens

/-! ## Classes -/

/-- The name and what follows it in a type. -/
def TypeName.tokens (type : TypeName) : List Token := type.head.tokens ++ type.suffix

/-- The attributes, the type, the name and the parameter list of a member. -/
def Member.tokens (m : Member) : List Token :=
  AttributeSequence.tokensAll m.attributes ++
    (m.type.tokens ++ (m.name.token :: m.signature.getD []))

/-- The keyword, the attributes, the name, the bases and the members of a class. -/
def ClassDeclaration.tokens (c : ClassDeclaration) : List Token :=
  c.keyword :: (AttributeSequence.tokensAll c.attributes ++ (c.name.tokens ++
    (c.bases.flatMap QualifiedName.tokens ++ c.members.flatMap Member.tokens)))

/-! ## Files -/

/-- The sign and the literals of a directive. -/
def Directive.tokens (d : Directive) : List Token := d.hash :: d.rest.map Literal.token

/-- The tokens of a piece of a declaration. -/
def Part.tokens : Part → List Token
  | member m => m.tokens
  | group g => g.tokens
  | attr a => a.tokens
  | parameter l => [l.token]
  | literal l => [l.token]
  | name n => n.tokens

namespace Declaration

mutual

/-- The tokens of a declaration and of everything in it. -/
def tokens : Declaration → List Token
  | scope keyword name inside => keyword :: (name.tokens ++ tokensAll inside)
  | record c => c.tokens
  | directive d => d.tokens
  | unit inside => tokensAll inside
  | part p => p.tokens

/-- The tokens of several declarations. -/
def tokensAll : List Declaration → List Token
  | [] => []
  | d :: ds => d.tokens ++ tokensAll ds

end

@[simp] theorem tokensAll_nil : tokensAll [] = [] := rfl

@[simp] theorem tokensAll_singleton (d : Declaration) : tokensAll [d] = d.tokens :=
  List.append_nil d.tokens

@[simp] theorem tokensAll_append (ds es : List Declaration) :
    tokensAll (ds ++ es) = tokensAll ds ++ tokensAll es := by
  induction ds with
  | nil => rfl
  | cons d ds ih => rw [List.cons_append, tokensAll, tokensAll, ih, List.append_assoc]

end Declaration

/-- The tokens of a file's tree. -/
def CompilationUnit.tokens (unit : CompilationUnit) : List Token :=
  Declaration.tokensAll unit.declarations

end HeaderReflection
