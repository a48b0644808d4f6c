import HeaderReflection.Grammar.Members
import HeaderReflection.Proofs.Grammar.Groups

/-!
# Well-formed trees

Not every tree can be read from a file: names need parts, literals need tokens of their kind, and a
type must not end in what would be taken for the name of the member. A tree is well-formed when each
of its nodes is one that can be written and read.
-/

namespace HeaderReflection

/-! ## Literals and names -/

theorem LiteralKind.of?_eq_identifier {kind : TokenKind} :
    of? kind = some .identifier ↔ kind = .identifier := by
  cases kind <;> decide

theorem LiteralKind.of?_eq_string {kind : TokenKind} :
    of? kind = some .string ↔ kind = .stringLiteral := by
  cases kind <;> decide

/-- The literal is of the kind that its token says. -/
def Literal.WellFormed (l : Literal) : Prop := LiteralKind.of? l.token.kind = some l.kind

/-- The literal is an identifier. -/
structure Literal.IsIdentifier (l : Literal) : Prop where
  token : l.token.kind = .identifier
  kind : l.kind = .identifier

/-- The name has parts, all of them identifiers. -/
structure QualifiedName.WellFormed (name : QualifiedName) : Prop where
  nonempty : name.parts ≠ []
  parts : ∀ l ∈ name.parts, l.IsIdentifier

/-! ## Attributes -/

/-- The namespace and the name are identifiers, and the parameters are literals of their kinds. -/
structure Attribute.WellFormed (a : Attribute) : Prop where
  scope : ∀ l ∈ a.scope, l.IsIdentifier
  name : a.name.IsIdentifier
  params : ∀ ls ∈ a.params, ∀ l ∈ ls, l.WellFormed

/-- The group stands in double brackets and has attributes. -/
structure AttributeSequence.WellFormed (group : AttributeSequence) : Prop where
  opening : group.opening.kind = .attributeOpen
  default : ∀ l ∈ group.default, l.IsIdentifier
  nonempty : group.attributes ≠ []
  attributes : ∀ a ∈ group.attributes, a.WellFormed
  closing : group.closing.kind = .attributeClose

/-! ## Types -/

/-- Whether a token is a `*` or a `&`. -/
def Token.IsPointerSign (t : Token) : Prop := t.text = "*" ∨ t.text = "&"

/-- Whether the tokens after a word show that the word belongs to a type: another word, a `*` or
`&`, or two colons. -/
def GoesOn : List Token → Prop
  | [] => False
  | t :: ts =>
    t.kind = .identifier ∧ (t.isWord = true ∨ t.IsPointerSign) ∨
      t.kind = .colon ∧ ∃ u ∈ ts.head?, u.kind = .colon

theorem Parser.continuesType_cons {t : Token} {ts : List Token} :
    continuesType (t :: ts) = true ↔ t.kind = .identifier ∧ t.isWord = true ∧ GoesOn ts := by
  cases ts with
  | nil => simp [continuesType, GoesOn]
  | cons u ts =>
    cases ts with
    | nil => simp [continuesType, GoesOn, Token.IsPointerSign, startsScope, or_assoc, and_assoc]
    | cons v ts =>
      simp [continuesType, GoesOn, Token.IsPointerSign, startsScope, or_assoc, and_assoc]

/-- What may stand between the name that a type starts with and the name of a member. -/
inductive TypeName.Suffix (name : Token) : List Token → Prop
  | nil (hangle : name.text ≠ "<") (hsign : ¬name.IsPointerSign) : Suffix name []
  /-- Template arguments. -/
  | angles {g ts : List Token} (hg : IsGroup (·.text = "<") (·.text = ">") g) (h : Suffix name ts) :
      Suffix name (g ++ ts)
  | sign {t : Token} {ts : List Token} (ht : t.IsPointerSign) (h : Suffix name ts) :
      Suffix name (t :: ts)
  /-- A further part of a name, as in `Array<int>::Item`. -/
  | part {c d t : Token} {ts : List Token} (hc : c.kind = .colon) (hangle : c.text ≠ "<")
      (hsign : ¬c.IsPointerSign) (hd : d.kind = .colon) (ht : t.kind = .identifier)
      (h : Suffix name ts) : Suffix name (c :: d :: t :: ts)
  /-- A further word, as in `unsigned int`. -/
  | word {t : Token} {ts : List Token} (hkind : t.kind = .identifier) (hword : t.isWord = true)
      (hnext : GoesOn (ts ++ [name])) (h : Suffix name ts) : Suffix name (t :: ts)

/-- The type of a member with a given name. What stands after a qualified name is no further part of
that name, which would belong to the name itself. -/
structure TypeName.WellFormed (type : TypeName) (name : Token) : Prop where
  head : (∃ t : Token, t.kind = .autoKeyword ∧ type.head = ⟨[⟨t, .identifier⟩]⟩) ∨
    type.head.WellFormed ∧ startsScope type.suffix = false
  suffix : TypeName.Suffix name type.suffix

/-! ## Classes -/

/-- The member has attributes, and the parameter list of a method is one group. -/
structure Member.WellFormed (m : Member) : Prop where
  annotated : m.attributes ≠ []
  attributes : ∀ group ∈ m.attributes, group.WellFormed
  type : m.type.WellFormed m.name.token
  name : m.name.IsIdentifier
  signature : ∀ ts ∈ m.signature, IsGroup (·.kind = .openParen) (·.kind = .closeParen) ts

/-- The name of a base. The word `virtual` before it would be skipped. -/
structure QualifiedName.IsBase (name : QualifiedName) : Prop where
  wellFormed : name.WellFormed
  notVirtual : ∀ l ∈ name.parts.head?, l.token.text ≠ "virtual"

/-- The class and everything in it can be written. -/
structure ClassDeclaration.WellFormed (c : ClassDeclaration) : Prop where
  keyword : c.keyword.kind = .classKeyword ∨ c.keyword.kind = .structKeyword
  attributes : ∀ group ∈ c.attributes, group.WellFormed
  name : c.name.WellFormed
  bases : ∀ name ∈ c.bases, name.IsBase
  members : ∀ m ∈ c.members, m.WellFormed

/-! ## Files -/

/-- Words and strings on the line of the `#` follow it. -/
structure Directive.WellFormed (d : Directive) : Prop where
  hash : d.hash.kind = .hash
  rest : ∀ l ∈ d.rest, l.WellFormed ∧ l.kind ≠ .number ∧
    l.token.position.line = d.hash.position.line

namespace Declaration

mutual

/-- The declaration and everything in it is well-formed. Only namespaces, classes and directives
are. -/
def WellFormed : Declaration → Prop
  | scope keyword name inside =>
    keyword.kind = .namespaceKeyword ∧ name.WellFormed ∧ AllWellFormed inside
  | record c => c.WellFormed
  | directive d => d.WellFormed
  | _ => False

/-- All declarations are well-formed. -/
def AllWellFormed : List Declaration → Prop
  | [] => True
  | d :: ds => d.WellFormed ∧ AllWellFormed ds

end

theorem allWellFormed_iff {ds : List Declaration} : AllWellFormed ds ↔ ∀ d ∈ ds, d.WellFormed := by
  induction ds with
  | nil => simp [AllWellFormed]
  | cons d ds ih => rw [AllWellFormed, ih, List.forall_mem_cons]

theorem allWellFormed_append {ds es : List Declaration} :
    AllWellFormed (ds ++ es) ↔ AllWellFormed ds ∧ AllWellFormed es := by
  simp only [allWellFormed_iff, List.forall_mem_append]

theorem WellFormed.children {d : Declaration} (h : d.WellFormed) :
    ∀ e ∈ d.children, e.WellFormed := by
  cases d with
  | scope keyword name inside => exact allWellFormed_iff.1 h.2.2
  | unit inside => exact h.elim
  | _ => exact List.forall_mem_nil _

/-- Another root, or a piece of a declaration, is not well-formed where a declaration stands. -/
theorem WellFormed.kind {d : Declaration} (h : d.WellFormed) :
    d.kind ∈ [NodeKind.scope, .record, .directive] := by
  cases d with
  | scope keyword name inside => simp [Declaration.kind]
  | record c => simp [Declaration.kind]
  | directive d => simp [Declaration.kind]
  | unit inside => exact h.elim
  | part p => exact h.elim

end Declaration

/-- Every node of the tree is well-formed. -/
def CompilationUnit.WellFormed (unit : CompilationUnit) : Prop :=
  Declaration.AllWellFormed unit.declarations

end HeaderReflection
