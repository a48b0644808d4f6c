import HeaderReflection.Model.Extraction
import HeaderReflection.Proofs.Grammar.TreeTokens

/-!
# Trees whose tokens are moved

Moving gives a token another place and keeps its category and its text. A tree is moved when each of
its tokens is. The model of a tree is made of texts alone, so it stays the same
(`CompilationUnit.classes_moved`).
-/

namespace HeaderReflection

/-- The place that each token is moved to. -/
abbrev Moving := Token → Position

/-- All tokens are moved to the start of a text. -/
def Moving.forget : Moving := fun _ => {}

/-- The token at another place. -/
def Token.moved (m : Moving) (t : Token) : Token := { t with position := m t }

/-! ## Moving the nodes of a tree -/

/-- The literal with its token moved. -/
def Literal.moved (m : Moving) (l : Literal) : Literal := { l with token := l.token.moved m }

/-- The name with its tokens moved. -/
def QualifiedName.moved (m : Moving) (name : QualifiedName) : QualifiedName where
  parts := name.parts.map (Literal.moved m)

/-- The type with its tokens moved. -/
def TypeName.moved (m : Moving) (type : TypeName) : TypeName where
  head := type.head.moved m
  suffix := type.suffix.map (Token.moved m)

/-- The attribute with its tokens moved. -/
def Attribute.moved (m : Moving) (a : Attribute) : Attribute where
  scope := a.scope.map (Literal.moved m)
  name := a.name.moved m
  params := a.params.map (List.map (Literal.moved m))

/-- The group with its tokens moved. -/
def AttributeSequence.moved (m : Moving) (group : AttributeSequence) : AttributeSequence where
  opening := group.opening.moved m
  default := group.default.map (Literal.moved m)
  attributes := group.attributes.map (Attribute.moved m)
  closing := group.closing.moved m

/-- The member with its tokens moved. -/
def Member.moved (m : Moving) (member : Member) : Member where
  attributes := member.attributes.map (AttributeSequence.moved m)
  type := member.type.moved m
  name := member.name.moved m
  signature := member.signature.map (List.map (Token.moved m))

/-- The class with its tokens moved. -/
def ClassDeclaration.moved (m : Moving) (c : ClassDeclaration) : ClassDeclaration where
  keyword := c.keyword.moved m
  name := c.name.moved m
  attributes := c.attributes.map (AttributeSequence.moved m)
  bases := c.bases.map (QualifiedName.moved m)
  members := c.members.map (Member.moved m)

/-- The directive with its tokens moved. -/
def Directive.moved (m : Moving) (d : Directive) : Directive where
  hash := d.hash.moved m
  rest := d.rest.map (Literal.moved m)

/-- The piece of a declaration with its tokens moved. -/
def Part.moved (m : Moving) : Part → Part
  | member declared => .member (declared.moved m)
  | group g => .group (g.moved m)
  | attr a => .attr (a.moved m)
  | parameter l => .parameter (l.moved m)
  | literal l => .literal (l.moved m)
  | name n => .name (n.moved m)

namespace Declaration

mutual

/-- The declaration with its tokens moved. -/
def moved (m : Moving) : Declaration → Declaration
  | scope keyword name inside => .scope (keyword.moved m) (name.moved m) (movedAll m inside)
  | record c => .record (c.moved m)
  | directive d => .directive (d.moved m)
  | unit inside => .unit (movedAll m inside)
  | part p => .part (p.moved m)

/-- Several declarations with their tokens moved. -/
def movedAll (m : Moving) : List Declaration → List Declaration
  | [] => []
  | d :: ds => d.moved m :: movedAll m ds

end

theorem movedAll_eq_map (m : Moving) (ds : List Declaration) :
    movedAll m ds = ds.map (Declaration.moved m) := by
  induction ds with
  | nil => rfl
  | cons d ds ih => rw [movedAll, ih, List.map_cons]

end Declaration

/-- The tree of a file with its tokens moved. -/
def CompilationUnit.moved (m : Moving) (unit : CompilationUnit) : CompilationUnit where
  declarations := Declaration.movedAll m unit.declarations

/-- The error with the token it is about moved. -/
def ParseError.moved (m : Moving) : ParseError → ParseError
  | mismatch expected found => .mismatch expected (found.moved m)
  | notLiteral found => .notLiteral (found.moved m)
  | unexpectedEnd expected => .unexpectedEnd expected
  | lexical cause => .lexical cause

variable (m : Moving)

/-! ## What moving keeps -/

@[simp] theorem Token.kind_moved (t : Token) : (t.moved m).kind = t.kind := rfl

@[simp] theorem Token.text_moved (t : Token) : (t.moved m).text = t.text := rfl

@[simp] theorem Token.position_moved (t : Token) : (t.moved m).position = m t := rfl

@[simp] theorem Literal.value_moved (l : Literal) : (l.moved m).value = l.value := rfl

@[simp] theorem QualifiedName.text_moved (name : QualifiedName) :
    (name.moved m).text = name.text := by
  rw [text, moved, List.map_map]
  rfl

@[simp] theorem TypeName.text_moved (type : TypeName) : (type.moved m).text = type.text := by
  rw [text, moved, QualifiedName.text_moved, List.foldl_map]
  rfl

@[simp] theorem Member.isMethod_moved (member : Member) :
    (member.moved m).isMethod = member.isMethod := by
  rw [isMethod, moved, Option.isSome_map]
  rfl

theorem AttributeSequence.resolve_moved (group : AttributeSequence) (a : Attribute) :
    (group.moved m).resolve (a.moved m) = group.resolve a := by
  obtain ⟨scope, name, params⟩ := a
  obtain ⟨opening, default, attributes, closing⟩ := group
  cases scope <;> cases default <;> cases params <;>
    simp [resolve, scopeOf, moved, Attribute.moved, Function.comp_def]

theorem AttributeSequence.resolveAll_moved (groups : List AttributeSequence) :
    resolveAll (groups.map (moved m)) = resolveAll groups := by
  rw [resolveAll, resolveAll, List.flatMap_map]
  congr 1
  funext group
  rw [moved, List.map_map]
  exact List.map_congr_left fun a _ => resolve_moved m group a

theorem Member.toField_moved (member : Member) : (member.moved m).toField = member.toField := by
  rw [toField, toField, moved, TypeName.text_moved, Literal.value_moved,
    AttributeSequence.resolveAll_moved]

theorem ClassDeclaration.fields_moved (c : ClassDeclaration) :
    (c.moved m).fields = c.fields.map (Member.moved m) := by
  rw [fields, fields, moved, List.filter_map]
  simp [Function.comp_def]

theorem ClassDeclaration.toModel_moved (file : String) (scopes : List String)
    (c : ClassDeclaration) : (c.moved m).toModel file scopes = c.toModel file scopes := by
  have hname : (c.moved m).nameIn scopes = c.nameIn scopes := by
    rw [nameIn, nameIn, moved, QualifiedName.text_moved]
  have hfields : (c.moved m).fields.map Member.toField = c.fields.map Member.toField := by
    rw [fields_moved, List.map_map]
    exact List.map_congr_left fun member _ => Member.toField_moved m member
  rw [toModel, toModel, hname, hfields, moved, AttributeSequence.resolveAll_moved]

namespace Declaration

mutual

theorem classes_moved (file : String) (scopes : List String) (d : Declaration) :
    (d.moved m).classes file scopes = d.classes file scopes := by
  match d with
  | scope keyword name inside =>
    rw [moved, classes, classes, QualifiedName.text_moved, classesAll_moved]
  | record c => rw [moved, classes, classes, ClassDeclaration.toModel_moved]
  | directive d => rfl
  | unit inside => rfl
  | part p => rfl

theorem classesAll_moved (file : String) (scopes : List String) (ds : List Declaration) :
    classesAll file scopes (movedAll m ds) = classesAll file scopes ds := by
  match ds with
  | [] => rfl
  | d :: ds => rw [movedAll, classesAll, classesAll, classes_moved, classesAll_moved]

end

end Declaration

/-- The classes of a file do not depend on where its tokens stand. -/
theorem CompilationUnit.classes_moved (file : String) (unit : CompilationUnit) :
    (unit.moved m).classes file = unit.classes file :=
  Declaration.classesAll_moved m file [] unit.declarations

/-! ## The tokens of a moved tree -/

theorem Literal.map_token_moved (ls : List Literal) :
    (ls.map (moved m)).map token = (ls.map token).map (Token.moved m) := by
  rw [List.map_map, List.map_map]
  rfl

/-- Nodes in a row have moved tokens when each of them has. -/
theorem flatMap_tokens_moved {α : Type} {move : α → α} {tokens : α → List Token}
    (h : ∀ a, tokens (move a) = (tokens a).map (Token.moved m)) (as : List α) :
    (as.map move).flatMap tokens = (as.flatMap tokens).map (Token.moved m) := by
  rw [List.flatMap_map, List.map_flatMap]
  simp only [h]

theorem QualifiedName.tokens_moved (name : QualifiedName) :
    (name.moved m).tokens = name.tokens.map (Token.moved m) := Literal.map_token_moved m name.parts

theorem Attribute.tokens_moved (a : Attribute) :
    (a.moved m).tokens = a.tokens.map (Token.moved m) := by
  obtain ⟨scope, name, params⟩ := a
  cases scope <;> cases params <;> simp [tokens, moved, Literal.moved]

theorem AttributeSequence.tokens_moved (group : AttributeSequence) :
    (group.moved m).tokens = group.tokens.map (Token.moved m) := by
  have hattributes := flatMap_tokens_moved m (Attribute.tokens_moved m) group.attributes
  obtain ⟨opening, default, attributes, closing⟩ := group
  cases default <;> simp [tokens, moved, Literal.moved, hattributes]

theorem AttributeSequence.tokensAll_moved (groups : List AttributeSequence) :
    tokensAll (groups.map (moved m)) = (tokensAll groups).map (Token.moved m) :=
  flatMap_tokens_moved m (tokens_moved m) groups

theorem TypeName.tokens_moved (type : TypeName) :
    (type.moved m).tokens = type.tokens.map (Token.moved m) := by
  rw [tokens, tokens, moved, QualifiedName.tokens_moved, List.map_append]

theorem Member.tokens_moved (member : Member) :
    (member.moved m).tokens = member.tokens.map (Token.moved m) := by
  obtain ⟨attributes, type, name, signature⟩ := member
  cases signature <;>
    simp [tokens, moved, AttributeSequence.tokensAll_moved, TypeName.tokens_moved, Literal.moved]

theorem ClassDeclaration.tokens_moved (c : ClassDeclaration) :
    (c.moved m).tokens = c.tokens.map (Token.moved m) := by
  have hbases := flatMap_tokens_moved m (QualifiedName.tokens_moved m) c.bases
  have hmembers := flatMap_tokens_moved m (Member.tokens_moved m) c.members
  simp [tokens, moved, AttributeSequence.tokensAll_moved, QualifiedName.tokens_moved, hbases,
    hmembers]

theorem Directive.tokens_moved (d : Directive) :
    (d.moved m).tokens = d.tokens.map (Token.moved m) := by
  rw [tokens, tokens, moved, Literal.map_token_moved, List.map_cons]

theorem Part.tokens_moved (p : Part) : (p.moved m).tokens = p.tokens.map (Token.moved m) := by
  cases p with
  | member declared => exact Member.tokens_moved m declared
  | group g => exact AttributeSequence.tokens_moved m g
  | attr a => exact Attribute.tokens_moved m a
  | parameter l => rfl
  | literal l => rfl
  | name n => exact QualifiedName.tokens_moved m n

namespace Declaration

mutual

theorem tokens_moved (d : Declaration) : (d.moved m).tokens = d.tokens.map (Token.moved m) := by
  match d with
  | scope keyword name inside =>
    rw [moved, tokens, tokens, QualifiedName.tokens_moved, tokensAll_moved, List.map_cons,
      List.map_append]
  | record c => rw [moved, tokens, tokens, ClassDeclaration.tokens_moved]
  | directive d => rw [moved, tokens, tokens, Directive.tokens_moved]
  | unit inside => rw [moved, tokens, tokens, tokensAll_moved]
  | part p => rw [moved, tokens, tokens, Part.tokens_moved]

theorem tokensAll_moved (ds : List Declaration) :
    tokensAll (movedAll m ds) = (tokensAll ds).map (Token.moved m) := by
  match ds with
  | [] => rfl
  | d :: ds => rw [movedAll, tokensAll, tokensAll, tokens_moved, tokensAll_moved, List.map_append]

end

end Declaration

theorem CompilationUnit.tokens_moved (unit : CompilationUnit) :
    (unit.moved m).tokens = unit.tokens.map (Token.moved m) :=
  Declaration.tokensAll_moved m unit.declarations

/-! ## Trees that are moved twice

Where the tokens were moved first is forgotten with every other place. -/

@[simp] theorem Token.forget_moved (t : Token) : (t.moved m).moved .forget = t.moved .forget := rfl

@[simp] theorem Literal.forget_moved (l : Literal) :
    (l.moved m).moved .forget = l.moved .forget := rfl

@[simp] theorem QualifiedName.forget_moved (name : QualifiedName) :
    (name.moved m).moved .forget = name.moved .forget := by
  simp [moved, Function.comp_def]

@[simp] theorem TypeName.forget_moved (type : TypeName) :
    (type.moved m).moved .forget = type.moved .forget := by
  simp [moved, Function.comp_def]

@[simp] theorem Attribute.forget_moved (a : Attribute) :
    (a.moved m).moved .forget = a.moved .forget := by
  simp [moved, Function.comp_def]

@[simp] theorem AttributeSequence.forget_moved (group : AttributeSequence) :
    (group.moved m).moved .forget = group.moved .forget := by
  simp [moved, Function.comp_def]

@[simp] theorem Member.forget_moved (member : Member) :
    (member.moved m).moved .forget = member.moved .forget := by
  simp [moved, Function.comp_def]

@[simp] theorem ClassDeclaration.forget_moved (c : ClassDeclaration) :
    (c.moved m).moved .forget = c.moved .forget := by
  simp [moved, Function.comp_def]

@[simp] theorem Directive.forget_moved (d : Directive) :
    (d.moved m).moved .forget = d.moved .forget := by
  simp [moved, Function.comp_def]

@[simp] theorem Part.forget_moved (p : Part) : (p.moved m).moved .forget = p.moved .forget := by
  cases p <;> simp [moved]

namespace Declaration

mutual

theorem forget_moved (d : Declaration) : (d.moved m).moved .forget = d.moved .forget := by
  match d with
  | scope keyword name inside => simp [moved, forget_movedAll inside]
  | record c => simp [moved]
  | directive d => simp [moved]
  | unit inside => simp [moved, forget_movedAll inside]
  | part p => simp [moved]

theorem forget_movedAll (ds : List Declaration) :
    movedAll .forget (movedAll m ds) = movedAll .forget ds := by
  match ds with
  | [] => rfl
  | d :: ds => rw [movedAll, movedAll, movedAll, forget_moved, forget_movedAll]

end

end Declaration

theorem CompilationUnit.forget_moved (unit : CompilationUnit) :
    (unit.moved m).moved .forget = unit.moved .forget := by
  rw [moved, moved, moved, Declaration.forget_movedAll]

theorem ParseError.forget_moved (e : ParseError) :
    (e.moved m).moved .forget = e.moved .forget := by
  cases e <;> rfl

end HeaderReflection
