import HeaderReflection.Name

/-!
# Declarations

The tree that a C++ file is read into. A file is a list of declarations: namespaces, classes and
directives. Whatever else stands in a file leaves no trace in the tree. Of a class the attributes,
the bases and the annotated members are kept. A tree that is put together by hand may hold any node
as a declaration, another root with its own declarations among them.
-/

namespace HeaderReflection

/-! ## Attributes -/

/-- One attribute, such as `Reflect` or `SH::Range(0, 10)`. -/
structure Attribute where
  /-- The namespace written before the name. -/
  scope : Option Literal
  /-- The name. -/
  name : Literal
  /-- The parameters, if there are parentheses. -/
  params : Option (List Literal)
  deriving DecidableEq, Repr, Inhabited

/-- A group of attributes in double brackets. -/
structure AttributeSequence where
  /-- The brackets that open it. -/
  opening : Token
  /-- The namespace named once for the whole group. -/
  default : Option Literal
  /-- The attributes in order. -/
  attributes : List Attribute
  /-- The brackets that close it. -/
  closing : Token
  deriving DecidableEq, Repr, Inhabited

/-- The namespace in force for an attribute of the group: its own, else that of the group. -/
def AttributeSequence.scopeOf (group : AttributeSequence) (a : Attribute) : Option String :=
  (a.scope.or group.default).map Literal.value

/-! ## Classes -/

/-- An annotated member of a class: a method if it has a parameter list, else a field. -/
structure Member where
  /-- The attributes before it. -/
  attributes : List AttributeSequence
  /-- Its type, or the type of its result. -/
  type : TypeName
  /-- Its name. -/
  name : Literal
  /-- The parameter list of a method, parentheses included. -/
  signature : Option (List Token)
  deriving DecidableEq, Repr, Inhabited

/-- Whether a member is a method. -/
def Member.isMethod (member : Member) : Bool := member.signature.isSome

/-- A `class` or `struct` with a name. -/
structure ClassDeclaration where
  /-- The keyword that starts it. -/
  keyword : Token
  /-- Its name. -/
  name : QualifiedName
  /-- The attributes between the keyword and the name. -/
  attributes : List AttributeSequence
  /-- The names of its bases, without template arguments. -/
  bases : List QualifiedName
  /-- The annotated members directly in its body. -/
  members : List Member
  deriving DecidableEq, Repr, Inhabited

namespace ClassDeclaration

/-- The annotated fields, in order. -/
def fields (c : ClassDeclaration) : List Member := c.members.filter (!·.isMethod)

/-- The annotated methods, in order. -/
def methods (c : ClassDeclaration) : List Member := c.members.filter (·.isMethod)

end ClassDeclaration

/-! ## Files -/

/-- A `#` with the words and strings after it on its line. -/
structure Directive where
  /-- The sign that starts it. -/
  hash : Token
  /-- The words and strings that follow directly. -/
  rest : List Literal
  deriving DecidableEq, Repr, Inhabited

/-- A piece of a declaration, taken out of it. -/
inductive Part
  /-- A field or a method. -/
  | member (m : Member)
  /-- A group of attributes. -/
  | group (g : AttributeSequence)
  /-- One attribute of a group. -/
  | attr (a : Attribute)
  /-- A parameter of an attribute. -/
  | parameter (l : Literal)
  | literal (l : Literal)
  | name (name : QualifiedName)
  deriving DecidableEq, Repr, Inhabited

/-- A node below the root of a tree, which may be of any kind. A file is read into namespaces,
classes and directives only. -/
inductive Declaration
  /-- A named namespace with the declarations in it. -/
  | scope (keyword : Token) (name : QualifiedName) (inside : List Declaration)
  /-- A class. -/
  | record (c : ClassDeclaration)
  /-- A directive. -/
  | directive (d : Directive)
  /-- The root of a tree of its own, with the declarations in it. -/
  | unit (inside : List Declaration)
  /-- A piece of a declaration, which stands here by itself. -/
  | part (p : Part)
  deriving Repr, Inhabited

/-- A whole file. -/
structure CompilationUnit where
  /-- The declarations that stand in no named namespace. -/
  declarations : List Declaration
  deriving Repr, Inhabited

/-! ## Walking the tree -/

/-- What stands at one place of the tree. -/
inductive NodeKind
  | unit
  | scope
  | record
  | field
  | method
  | group
  | attr
  | parameter
  | literal
  | name
  | directive
  deriving DecidableEq, Repr

/-- What a piece of a declaration is. -/
def Part.kind : Part → NodeKind
  | member m => if m.isMethod then .method else .field
  | group _ => .group
  | attr _ => .attr
  | parameter _ => .parameter
  | literal _ => .literal
  | name _ => .name

namespace Declaration

/-- What a declaration is. -/
def kind : Declaration → NodeKind
  | scope .. => .scope
  | record _ => .record
  | directive _ => .directive
  | unit _ => .unit
  | part p => p.kind

/-- The declarations directly in a declaration. Classes and pieces of declarations have none. -/
def children : Declaration → List Declaration
  | scope _ _ inside => inside
  | unit inside => inside
  | _ => []

mutual

/-- What holds of a declaration when it holds of those directly in it holds of all. -/
theorem induction_children {P : Declaration → Prop} (h : ∀ d, (∀ e ∈ d.children, P e) → P d)
    (d : Declaration) : P d := by
  match d with
  | scope keyword name inside => exact h _ (induction_childrenAll h inside)
  | unit inside => exact h _ (induction_childrenAll h inside)
  | record c => exact h _ (List.forall_mem_nil _)
  | directive d => exact h _ (List.forall_mem_nil _)
  | part p => exact h _ (List.forall_mem_nil _)

theorem induction_childrenAll {P : Declaration → Prop} (h : ∀ d, (∀ e ∈ d.children, P e) → P d)
    (ds : List Declaration) : ∀ d ∈ ds, P d := by
  match ds with
  | [] => exact List.forall_mem_nil _
  | d :: ds =>
    exact List.forall_mem_cons.2 ⟨induction_children h d, induction_childrenAll h ds⟩

end

mutual

/-- A declaration and everything in it, parents first, each with its depth. -/
def outline (depth : Nat) : Declaration → List (Nat × NodeKind)
  | scope _ _ inside => (depth, .scope) :: outlineAll (depth + 1) inside
  | unit inside => (depth, .unit) :: outlineAll (depth + 1) inside
  | record _ => [(depth, .record)]
  | directive _ => [(depth, .directive)]
  | part p => [(depth, p.kind)]

/-- The outlines of several declarations at one depth. -/
def outlineAll (depth : Nat) : List Declaration → List (Nat × NodeKind)
  | [] => []
  | d :: ds => d.outline depth ++ outlineAll depth ds

end

theorem outlineAll_eq_flatMap (depth : Nat) (ds : List Declaration) :
    outlineAll depth ds = ds.flatMap (outline depth) := by
  induction ds with
  | nil => rfl
  | cons d ds ih => rw [outlineAll, ih, List.flatMap_cons]

/-- After a declaration come the outlines of those directly in it. -/
theorem outline_cons (depth : Nat) (d : Declaration) :
    d.outline depth = (depth, d.kind) :: d.children.flatMap (outline (depth + 1)) := by
  rw [← outlineAll_eq_flatMap]
  cases d <;> rfl

end Declaration

/-- The whole tree of a file, parents first, each node with its depth. -/
def CompilationUnit.outline (unit : CompilationUnit) : List (Nat × NodeKind) :=
  (0, .unit) :: Declaration.outlineAll 1 unit.declarations

end HeaderReflection
