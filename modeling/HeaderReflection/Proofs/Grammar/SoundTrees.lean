import HeaderReflection.Proofs.Extraction.Prefixing
import HeaderReflection.Proofs.Grammar.ReadTrees
import HeaderReflection.Proofs.Grammar.Session

/-!
# What every tree that is read is made of

The nodes of a tree are found at all its levels: its declarations, and in them the names, groups of
attributes, members and literals. Of each kind of node something holds in every tree that a reading
gives, whatever tokens it is given and whatever their texts are (`CompilationUnit.Sound`). It
follows from the trees being well-formed, which is passed on to every declaration inside
(`CompilationUnit.WellFormed.occurrences`).
-/

namespace HeaderReflection

/-! ## The nodes of a tree -/

/-- The literals of an attribute. -/
def Attribute.literals (a : Attribute) : List Literal :=
  a.scope.toList ++ a.name :: a.params.getD []

/-- The literals of a group of attributes. -/
def AttributeSequence.literals (group : AttributeSequence) : List Literal :=
  group.default.toList ++ group.attributes.flatMap Attribute.literals

namespace Declaration

/-- The class that the declaration is, if it is one. -/
def record? : Declaration → Option ClassDeclaration
  | record c => some c
  | _ => none

/-- The directive that the declaration is, if it is one. -/
def directive? : Declaration → Option Directive
  | directive d => some d
  | _ => none

/-- The names that a declaration itself is written with: that of a namespace, or those of a class
and its bases. -/
def names : Declaration → List QualifiedName
  | scope _ name _ => [name]
  | record c => c.name :: c.bases
  | _ => []

end Declaration

/-- The groups of attributes of a class and its members. -/
def ClassDeclaration.groups (c : ClassDeclaration) : List AttributeSequence :=
  c.attributes ++ c.members.flatMap Member.attributes

namespace CompilationUnit

variable (unit : CompilationUnit)

/-- The classes of a file at all levels. -/
def allClasses : List ClassDeclaration := unit.occurrences.filterMap (·.declaration.record?)

/-- The directives of a file at all levels. -/
def allDirectives : List Directive := unit.occurrences.filterMap (·.declaration.directive?)

/-- The annotated members of all classes of a file. -/
def allMembers : List Member := unit.allClasses.flatMap ClassDeclaration.members

/-- The groups of attributes of a file. -/
def allGroups : List AttributeSequence := unit.allClasses.flatMap ClassDeclaration.groups

/-- The names of the namespaces and classes of a file and of the bases of its classes. -/
def allNames : List QualifiedName := unit.occurrences.flatMap (·.declaration.names)

/-- The literals of a file. -/
def allLiterals : List Literal :=
  unit.allNames.flatMap QualifiedName.parts ++ unit.allGroups.flatMap AttributeSequence.literals ++
    unit.allMembers.flatMap (fun m => m.type.head.parts ++ [m.name]) ++
    unit.allDirectives.flatMap Directive.rest

end CompilationUnit

/-! ## What holds of them -/

/-- The name has parts, and each of them is an identifier. -/
def QualifiedName.OfIdentifiers (name : QualifiedName) : Prop :=
  name.parts ≠ [] ∧ ∀ l ∈ name.parts, l.token.kind = .identifier

/-- The name is the word `auto`, which stands for a type. -/
def QualifiedName.IsAuto (name : QualifiedName) : Prop :=
  ∃ t : Token, t.kind = .autoKeyword ∧ name.parts = [⟨t, .identifier⟩]

/-- The tokens go from an opening parenthesis to the closing one that matches it. -/
structure Parenthesized (ts : List Token) : Prop where
  starts : ∃ t ∈ ts.head?, t.kind = .openParen
  ends : ∃ t ∈ ts.getLast?, t.kind = .closeParen
  balanced : ts.countP (·.kind = .openParen) = ts.countP (·.kind = .closeParen)
  /-- Until the last token the first parenthesis is not closed. -/
  matching : ∀ front back, ts = front ++ back → front ≠ [] → back ≠ [] →
    front.countP (·.kind = .closeParen) < front.countP (·.kind = .openParen)
  /-- So no shorter front is balanced. -/
  shortest : ∀ front back, ts = front ++ back →
    front.countP (·.kind = .openParen) = front.countP (·.kind = .closeParen) →
    front = [] ∨ back = []

/-- What holds of a tree that was read, at all its levels. -/
structure CompilationUnit.Sound (unit : CompilationUnit) : Prop where
  /-- Below the root stand namespaces, classes and directives only. -/
  kinds : ∀ node ∈ unit.outline.tail, node.2 ∈ [.scope, .record, .directive]
  names : ∀ name ∈ unit.allNames, name.OfIdentifiers
  /-- The type of a member is a name too, if it is not `auto`. -/
  types : ∀ m ∈ unit.allMembers, m.type.head.IsAuto ∨ m.type.head.OfIdentifiers
  keywords : ∀ c ∈ unit.allClasses, c.keyword.kind = .classKeyword ∨ c.keyword.kind = .structKeyword
  annotated : ∀ m ∈ unit.allMembers, m.attributes ≠ []
  groups : ∀ group ∈ unit.allGroups, group.opening.kind = .attributeOpen ∧
    group.closing.kind = .attributeClose ∧ group.attributes ≠ []
  /-- A literal is what its token is, if it is not the `auto` that a type consists of. -/
  literals : ∀ l ∈ unit.allLiterals, LiteralKind.of? l.token.kind = some l.kind ∨
    ∃ m ∈ unit.allMembers, m.type.head.IsAuto ∧ m.type.head.parts = [l]
  signatures : ∀ m ∈ unit.allMembers, ∀ ts ∈ m.signature, Parenthesized ts
  /-- Words and strings on the line of a `#` follow it. -/
  directives : ∀ d ∈ unit.allDirectives, d.hash.kind = .hash ∧ ∀ l ∈ d.rest,
    (l.token.kind = .identifier ∨ l.token.kind = .stringLiteral) ∧
      l.token.position.line = d.hash.position.line

/-! ## Well-formed nodes -/

theorem Literal.IsIdentifier.wellFormed {l : Literal} (h : l.IsIdentifier) : l.WellFormed := by
  rw [Literal.WellFormed, h.token, h.kind]
  rfl

theorem QualifiedName.WellFormed.ofIdentifiers {name : QualifiedName} (h : name.WellFormed) :
    name.OfIdentifiers :=
  ⟨h.nonempty, fun l hl => (h.parts l hl).token⟩

theorem Attribute.WellFormed.literals {a : Attribute} (h : a.WellFormed) :
    ∀ l ∈ a.literals, l.WellFormed := by
  refine List.forall_mem_append.2 ⟨?_, List.forall_mem_cons.2 ⟨h.name.wellFormed, ?_⟩⟩
  · intro l hl
    exact (h.scope l (Option.mem_toList.1 hl)).wellFormed
  · cases hparams : a.params with
    | none => exact List.forall_mem_nil _
    | some ls => exact h.params ls hparams

theorem AttributeSequence.WellFormed.literals {group : AttributeSequence} (h : group.WellFormed) :
    ∀ l ∈ group.literals, l.WellFormed := by
  refine List.forall_mem_append.2 ⟨?_, ?_⟩
  · intro l hl
    exact (h.default l (Option.mem_toList.1 hl)).wellFormed
  · intro l hl
    obtain ⟨a, ha, hl⟩ := List.mem_flatMap.1 hl
    exact (h.attributes a ha).literals l hl

theorem IsGroup.parenthesized {ts : List Token}
    (h : IsGroup (·.kind = .openParen) (·.kind = .closeParen) ts) : Parenthesized ts where
  starts := by simpa using h.starts
  ends := by simpa using h.ends parens_disjoint
  balanced := h.balanced
  matching _ _ hsplit hfront hback := h.ahead parens_disjoint hsplit hfront hback
  shortest := h.shortest

theorem ClassDeclaration.WellFormed.groups {c : ClassDeclaration} (h : c.WellFormed) :
    ∀ group ∈ c.groups, group.WellFormed := by
  refine List.forall_mem_append.2 ⟨h.attributes, ?_⟩
  intro group hgroup
  obtain ⟨m, hm, hgroup⟩ := List.mem_flatMap.1 hgroup
  exact (h.members m hm).attributes group hgroup

namespace Declaration

theorem WellFormed.names {d : Declaration} (h : d.WellFormed) :
    ∀ name ∈ d.names, name.WellFormed := by
  cases d with
  | scope keyword name inside => exact List.forall_mem_singleton.2 h.2.1
  | record c =>
    exact List.forall_mem_cons.2 ⟨ClassDeclaration.WellFormed.name h,
      fun name hname => (ClassDeclaration.WellFormed.bases h name hname).wellFormed⟩
  | _ => exact List.forall_mem_nil _

theorem wellFormed_of_mem_occurrences {d : Declaration} (h : d.WellFormed)
    {around : List Declaration} {o : Occurrence} (ho : o ∈ d.occurrences around) :
    o.declaration.WellFormed := by
  induction d using induction_children generalizing around with
  | h d ih =>
    rcases mem_occurrences.1 ho with rfl | ⟨e, he, ho⟩
    · exact h
    · exact ih e he (h.children e he) ho

end Declaration

namespace CompilationUnit

variable {unit : CompilationUnit}

/-- **In a well-formed tree every declaration is well-formed**, however deep it stands. -/
theorem WellFormed.occurrences (h : unit.WellFormed) :
    ∀ o ∈ unit.occurrences, o.declaration.WellFormed := by
  intro o ho
  obtain ⟨d, hd, ho⟩ := mem_occurrences.1 ho
  exact Declaration.wellFormed_of_mem_occurrences (Declaration.allWellFormed_iff.1 h d hd) ho

theorem WellFormed.kinds (h : unit.WellFormed) :
    ∀ node ∈ unit.outline.tail, node.2 ∈ [NodeKind.scope, .record, .directive] := by
  rw [outline_eq, List.tail_cons]
  intro node hnode
  obtain ⟨o, ho, rfl⟩ := List.mem_map.1 hnode
  exact (h.occurrences o ho).kind

theorem WellFormed.allClasses (h : unit.WellFormed) : ∀ c ∈ unit.allClasses, c.WellFormed := by
  intro c hc
  obtain ⟨o, ho, hrecord⟩ := List.mem_filterMap.1 hc
  have hwell := h.occurrences o ho
  cases hd : o.declaration <;> rw [hd] at hrecord hwell <;> cases hrecord
  exact hwell

theorem WellFormed.allDirectives (h : unit.WellFormed) :
    ∀ d ∈ unit.allDirectives, d.WellFormed := by
  intro d hd
  obtain ⟨o, ho, hdirective⟩ := List.mem_filterMap.1 hd
  have hwell := h.occurrences o ho
  cases hd : o.declaration <;> rw [hd] at hdirective hwell <;> cases hdirective
  exact hwell

theorem WellFormed.allNames (h : unit.WellFormed) : ∀ name ∈ unit.allNames, name.WellFormed := by
  intro name hname
  obtain ⟨o, ho, hname⟩ := List.mem_flatMap.1 hname
  exact (h.occurrences o ho).names name hname

theorem WellFormed.allMembers (h : unit.WellFormed) : ∀ m ∈ unit.allMembers, m.WellFormed := by
  intro m hm
  obtain ⟨c, hc, hm⟩ := List.mem_flatMap.1 hm
  exact (h.allClasses c hc).members m hm

theorem WellFormed.allGroups (h : unit.WellFormed) :
    ∀ group ∈ unit.allGroups, group.WellFormed := by
  intro group hgroup
  obtain ⟨c, hc, hgroup⟩ := List.mem_flatMap.1 hgroup
  exact (h.allClasses c hc).groups group hgroup

theorem isAuto_or_wellFormed {type : TypeName} {name : Token} (h : type.WellFormed name) :
    type.head.IsAuto ∨ type.head.WellFormed := by
  refine h.head.imp ?_ And.left
  rintro ⟨t, ht, hhead⟩
  exact ⟨t, ht, congrArg QualifiedName.parts hhead⟩

/-- The literals of a well-formed tree, each kind of them in turn. -/
theorem WellFormed.allLiterals (h : unit.WellFormed) :
    ∀ l ∈ unit.allLiterals, l.WellFormed ∨
      ∃ m ∈ unit.allMembers, m.type.head.IsAuto ∧ m.type.head.parts = [l] := by
  refine List.forall_mem_append.2 ⟨List.forall_mem_append.2
    ⟨List.forall_mem_append.2 ⟨?_, ?_⟩, ?_⟩, ?_⟩
  · intro l hl
    obtain ⟨name, hname, hl⟩ := List.mem_flatMap.1 hl
    exact .inl ((h.allNames name hname).parts l hl).wellFormed
  · intro l hl
    obtain ⟨group, hgroup, hl⟩ := List.mem_flatMap.1 hl
    exact .inl ((h.allGroups group hgroup).literals l hl)
  · intro l hl
    obtain ⟨m, hm, hl⟩ := List.mem_flatMap.1 hl
    have hwell := h.allMembers m hm
    rcases List.mem_append.1 hl with hhead | hname
    · rcases isAuto_or_wellFormed hwell.type with ⟨t, ht, hauto⟩ | hparts
      · rw [hauto, List.mem_singleton] at hhead
        exact .inr ⟨m, hm, ⟨t, ht, hauto⟩, by rw [hauto, hhead]⟩
      · exact .inl (hparts.parts l hhead).wellFormed
    · rw [List.mem_singleton.1 hname]
      exact .inl hwell.name.wellFormed
  · intro l hl
    obtain ⟨d, hd, hl⟩ := List.mem_flatMap.1 hl
    exact .inl ((h.allDirectives d hd).rest l hl).1

theorem WellFormed.sound (h : unit.WellFormed) : unit.Sound where
  kinds := h.kinds
  names name hname := (h.allNames name hname).ofIdentifiers
  types m hm := (isAuto_or_wellFormed (h.allMembers m hm).type).imp_right (·.ofIdentifiers)
  keywords c hc := (h.allClasses c hc).keyword
  annotated m hm := (h.allMembers m hm).annotated
  groups group hgroup :=
    have hwell := h.allGroups group hgroup
    ⟨hwell.opening, hwell.closing, hwell.nonempty⟩
  literals := h.allLiterals
  signatures m hm ts hts := ((h.allMembers m hm).signature ts hts).parenthesized
  directives d hd := by
    have hwell := h.allDirectives d hd
    refine ⟨hwell.hash, fun l hl => ?_⟩
    obtain ⟨hkind, hnumber, hline⟩ := hwell.rest l hl
    refine ⟨?_, hline⟩
    cases hl : l.kind with
    | identifier => exact .inl (LiteralKind.of?_eq_identifier.1 (hl ▸ hkind))
    | string => exact .inr (LiteralKind.of?_eq_string.1 (hl ▸ hkind))
    | number => exact absurd hl hnumber

end CompilationUnit

/-- **Every tree that is read is sound**, whatever tokens it is read from. -/
theorem Session.sound_of_parse (s : Session) {unit : CompilationUnit} (h : s.parse.1 = .ok unit) :
    unit.Sound :=
  (Parser.wellFormed_of_unit (unit_of_parse_ok h)).sound

/-- A directive and a class in a namespace, with a method whose type is the keyword `auto`. The
texts of several tokens are those of other categories. -/
theorem Session.sound_of_parse_nested :
    let auto : Token := ⟨.autoKeyword, "int", ⟨60, 4, 9⟩⟩
    let name (text : String) : Literal := ⟨⟨.identifier, text, {}⟩, .identifier⟩
    let group : AttributeSequence := ⟨⟨.attributeOpen, "(", {}⟩, none,
      [⟨some (name "SH"), name "Reflect", some [⟨⟨.numberLiteral, "x", {}⟩, .number⟩]⟩],
      ⟨.attributeClose, ")", {}⟩⟩
    let list : List Token := [⟨.openParen, "<", {}⟩, ⟨.openParen, ")", {}⟩,
      ⟨.identifier, ")", {}⟩, ⟨.closeParen, "(", {}⟩, ⟨.closeParen, ")", {}⟩]
    let s : Session := .start ([⟨.hash, "#", {}⟩, ⟨.identifier, "if", {}⟩,
      ⟨.stringLiteral, "a", {}⟩, ⟨.namespaceKeyword, "class", {}⟩, ⟨.identifier, "A", {}⟩,
      ⟨.colon, ":", {}⟩, ⟨.colon, "x", {}⟩, ⟨.identifier, "B", {}⟩, ⟨.openBrace, "\x7b", {}⟩,
      ⟨.structKeyword, "class", {}⟩, ⟨.identifier, "C", {}⟩, ⟨.colon, ":", {}⟩,
      ⟨.identifier, "D", {}⟩, ⟨.openBrace, "\x7b", {}⟩, ⟨.attributeOpen, "(", {}⟩,
      ⟨.identifier, "SH", {}⟩, ⟨.colon, ":", {}⟩, ⟨.colon, ":", {}⟩, ⟨.identifier, "Reflect", {}⟩,
      ⟨.openParen, "(", {}⟩, ⟨.numberLiteral, "x", {}⟩, ⟨.closeParen, ")", {}⟩,
      ⟨.attributeClose, ")", {}⟩, auto, ⟨.identifier, "f", {}⟩] ++ list ++
      [⟨.closeBrace, "\x7d", {}⟩, ⟨.semicolon, ";", {}⟩, ⟨.closeBrace, "\x7d", {}⟩])
    ∃ unit, s.parse.1 = .ok unit ∧
      unit.allNames = [⟨[name "A", name "B"]⟩, ⟨[name "C"]⟩, ⟨[name "D"]⟩] ∧
      unit.allMembers = [⟨[group], ⟨⟨[⟨auto, .identifier⟩]⟩, []⟩, name "f", some list⟩] ∧
      unit.Sound := by
  intro auto name group list s
  have hread : s.parse.1.toOption.map (fun unit => (unit.allNames, unit.allMembers)) =
      some ([⟨[name "A", name "B"]⟩, ⟨[name "C"]⟩, ⟨[name "D"]⟩],
        [⟨[group], ⟨⟨[⟨auto, .identifier⟩]⟩, []⟩, name "f", some list⟩]) := by decide +kernel
  cases hunit : s.parse.1 with
  | error e =>
    rw [hunit] at hread
    cases hread
  | ok unit =>
    rw [hunit] at hread
    obtain ⟨hnames, hmembers⟩ := Prod.mk.inj (Option.some.inj hread)
    exact ⟨unit, rfl, hnames, hmembers, sound_of_parse s hunit⟩

end HeaderReflection
