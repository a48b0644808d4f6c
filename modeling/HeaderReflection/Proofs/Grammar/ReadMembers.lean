import HeaderReflection.Proofs.Extraction.Prefixing
import HeaderReflection.Proofs.Grammar.AttributeForms
import HeaderReflection.Proofs.Grammar.Declarators
import HeaderReflection.Proofs.Grammar.Failing
import HeaderReflection.Proofs.Grammar.ReadTrees

/-!
# Where the members of a tree were read

Each member of each class in a tree is what the reader of members took at one place of the tokens
(`Member.ReadIn`). For a whole file this is an invariant of the steps of the reading
(`Progress.MembersReadIn`), since what is left is always the end of all tokens. The type of a member
stands there in a row before its name (`Member.ReadIn.exists_type`). The fields that the model shows
of a class are members of that class in the tree (`CompilationUnit.exists_record_of_mem_classes`,
`ClassDeclaration.exists_member_of_field`).
-/

namespace HeaderReflection

/-- The member was read from the end of these tokens on from some place. -/
def Member.ReadIn (ts : List Token) (m : Member) : Prop :=
  ∃ start rest, start <:+ ts ∧ Parser.member start = .ok m rest

theorem Member.ReadIn.mono {ts us : List Token} {m : Member} (h : m.ReadIn ts)
    (hsuffix : ts <:+ us) : m.ReadIn us := by
  obtain ⟨start, rest, hstart, hread⟩ := h
  exact ⟨start, rest, hstart.trans hsuffix, hread⟩

/-! ## The members of a tree -/

namespace Declaration

mutual

/-- The members of the classes in a declaration. -/
def members : Declaration → List Member
  | scope _ _ inside => membersAll inside
  | unit inside => membersAll inside
  | record c => c.members
  | _ => []

/-- The members of the classes in several declarations. -/
def membersAll : List Declaration → List Member
  | [] => []
  | d :: ds => d.members ++ membersAll ds

end

theorem membersAll_eq_flatMap (ds : List Declaration) : membersAll ds = ds.flatMap members := by
  induction ds with
  | nil => rfl
  | cons d ds ih => rw [membersAll, ih, List.flatMap_cons]

theorem membersAll_append (ds es : List Declaration) :
    membersAll (ds ++ es) = membersAll ds ++ membersAll es := by
  simp only [membersAll_eq_flatMap, List.flatMap_append]

theorem membersAll_singleton (d : Declaration) : membersAll [d] = d.members :=
  List.append_nil d.members

theorem members_subset_of_mem_children {d e : Declaration} (h : e ∈ d.children) :
    e.members ⊆ d.members := by
  have hinside : ∀ inside, e ∈ inside → e.members ⊆ membersAll inside := by
    intro inside he m hm
    rw [membersAll_eq_flatMap]
    exact List.mem_flatMap.2 ⟨e, he, hm⟩
  cases d with
  | scope keyword name inside => exact hinside inside h
  | unit inside => exact hinside inside h
  | _ => cases h

theorem members_subset_of_mem_occurrences {d : Declaration} {around : List Declaration}
    {o : Occurrence} (h : o ∈ d.occurrences around) : o.declaration.members ⊆ d.members := by
  induction d using induction_children generalizing around with
  | h d ih =>
    rcases mem_occurrences.1 h with rfl | ⟨e, he, ho⟩
    · exact List.Subset.refl _
    · exact List.Subset.trans (ih e he ho) (members_subset_of_mem_children he)

end Declaration

namespace CompilationUnit

variable {unit : CompilationUnit}

/-- The members of the classes in a file. -/
def members (unit : CompilationUnit) : List Member := Declaration.membersAll unit.declarations

theorem members_subset_of_mem_records {place : List QualifiedName × ClassDeclaration}
    (h : place ∈ unit.records) : place.2.members ⊆ unit.members := by
  obtain ⟨o, ho, hrecord⟩ := List.mem_filterMap.1 h
  obtain ⟨d, hd, ho⟩ := mem_occurrences.1 ho
  have hinside := Declaration.members_subset_of_mem_occurrences ho
  rw [(Occurrence.record?_eq_some.1 hrecord).2] at hinside
  intro m hm
  rw [members, Declaration.membersAll_eq_flatMap]
  exact List.mem_flatMap.2 ⟨d, hd, hinside hm⟩

/-- Every class that the model shows is a class of the tree. -/
theorem exists_record_of_mem_classes {file : String} {c : Model.Class}
    (h : c ∈ unit.classes file) : ∃ place ∈ unit.records, Model.Class.ofRecord file place = c := by
  rw [classes_eq] at h
  obtain ⟨place, hplace, rfl⟩ := List.mem_map.1 h
  exact ⟨place, (List.filter_sublist.filterMap Occurrence.record?).subset hplace, rfl⟩

end CompilationUnit

/-- Every field that the model shows of a class is a member of it without a parameter list. -/
theorem ClassDeclaration.exists_member_of_field {c : ClassDeclaration} {file : String}
    {scopes : List String} {f : Model.Field} (h : f ∈ (c.toModel file scopes).fields) :
    ∃ m ∈ c.members, m.signature = none ∧ m.toField = f := by
  obtain ⟨m, hm, rfl⟩ := List.mem_map.1 h
  obtain ⟨hmem, hfield⟩ := List.mem_filter.1 hm
  rw [Member.isMethod, Bool.not_eq_true', Option.isSome_eq_false_iff, Option.isNone_iff_eq_none]
    at hfield
  exact ⟨m, hmem, hfield, rfl⟩

/-! ## Classes -/

namespace Parser

theorem readIn_of_members {inner : Nat} {ts rest : List Token} {ms : List Member}
    (h : members inner ts = .ok ms rest) : ∀ m ∈ ms, m.ReadIn ts := by
  fun_induction members inner ts generalizing ms rest with
  | case1 => cases h
  | case2 inner t ts _ ih => exact fun m hm => (ih h m hm).mono (List.suffix_cons t ts)
  | case3 t ts =>
    cases h
    exact List.forall_mem_nil _
  | case4 t ts _ _ inner ih => exact fun m hm => (ih h m hm).mono (List.suffix_cons t ts)
  | case5 inner t ts _ _ _ ih =>
    intro m hm
    exact (ih h m hm).mono ((skipColon_suffix ts).trans (List.suffix_cons t ts))
  | case6 => cases h
  | case7 inner t ts _ _ _ _ m left hread ih =>
    obtain ⟨more, hmore, rfl⟩ := Reading.map_eq_ok.1 h
    intro m' hm'
    rcases List.mem_cons.1 hm' with rfl | hm'
    · exact ⟨t :: ts, left, List.suffix_rfl, hread⟩
    · exact (ih hmore m' hm').mono (steady_member.of_ok hread)
  | case8 inner t ts _ _ _ _ ih => exact fun m hm => (ih h m hm).mono (List.suffix_cons t ts)

theorem readIn_of_classBody {ts rest : List Token} {ms : List Member}
    (h : classBody ts = .ok ms rest) : ∀ m ∈ ms, m.ReadIn ts := by
  fun_induction classBody ts with
  | case1 => cases h
  | case2 t ts _ => exact fun m hm => (readIn_of_members h m hm).mono (List.suffix_cons t ts)
  | case3 t ts =>
    cases h
    exact List.forall_mem_nil _
  | case4 t ts _ _ ih => exact fun m hm => (ih h m hm).mono (List.suffix_cons t ts)

theorem readIn_of_classDeclaration {keyword : Token} {ts rest : List Token}
    {c : Option ClassDeclaration} (h : classDeclaration keyword ts = .ok c rest) :
    ∀ m ∈ Declaration.membersAll (c.toList.map .record), m.ReadIn ts := by
  obtain ⟨attributes, afterAttributes, hattributes, h⟩ := bind_eq_ok.1 h
  have hsuffix := steady_attributeSequences.of_ok hattributes
  unfold classRest at h
  split at h
  · obtain ⟨name, afterName, hname, h⟩ := bind_eq_ok.1 h
    obtain ⟨names, afterBases, hnames, h⟩ := bind_eq_ok.1 h
    obtain ⟨ms, _, hms, h⟩ := bind_eq_ok.1 h
    obtain ⟨rfl, rfl⟩ := pure_eq_ok.1 h
    have hbody := ((steady_baseClause.of_ok hnames).trans (steady_qualifiedName.of_ok hname)).trans
      hsuffix
    intro m hm
    rw [Option.toList_some, List.map_singleton, Declaration.membersAll_singleton] at hm
    exact (readIn_of_classBody hms m hm).mono hbody
  · obtain ⟨ms, -, rfl⟩ := Reading.map_eq_ok.1 h
    exact List.forall_mem_nil _

end Parser

/-! ## Files -/

/-- Closing a namespace adds no members. -/
theorem OpenScope.membersAll_close (scope : OpenScope) (inside : List Declaration) :
    Declaration.membersAll (scope.close inside) =
      Declaration.membersAll scope.before ++ Declaration.membersAll inside := by
  obtain ⟨header, before⟩ := scope
  cases header with
  | none => exact Declaration.membersAll_append before inside
  | some named =>
    show Declaration.membersAll (before ++ [.scope named.1 named.2 inside]) = _
    rw [Declaration.membersAll_append, Declaration.membersAll_singleton]
    rfl

namespace Progress

/-- All members that were found were read from these tokens, of which the end is left. -/
structure MembersReadIn (ts : List Token) (p : Progress) : Prop where
  scopes : ∀ scope ∈ p.scopes, ∀ m ∈ Declaration.membersAll scope.before, m.ReadIn ts
  found : ∀ m ∈ Declaration.membersAll p.found, m.ReadIn ts
  left : p.left <:+ ts

/-- **One step keeps where the members were read.** -/
theorem membersReadIn_of_step {ts : List Token} {p q : Progress} (h : Step p q)
    (hp : p.MembersReadIn ts) : q.MembersReadIn ts := by
  have hleft : q.left <:+ ts :=
    ((left_suffix_tail_of_step h).trans (List.tail_suffix _)).trans hp.left
  cases h with
  | @record scopes found t us rest c hkind hread =>
    refine ⟨hp.scopes, ?_, hleft⟩
    intro m hm
    rw [Declaration.membersAll_append] at hm
    rcases List.mem_append.1 hm with hfound | hnew
    · exact hp.found m hfound
    · apply (Parser.readIn_of_classDeclaration hread m hnew).mono
      exact (List.suffix_cons t us).trans hp.left
  | @enter scopes found t us rest header hkind hread =>
    refine ⟨?_, List.forall_mem_nil _, hleft⟩
    intro scope hscope
    rcases List.mem_cons.1 hscope with rfl | hscope
    · exact hp.found
    · exact hp.scopes scope hscope
  | directive hkind =>
    refine ⟨hp.scopes, ?_, hleft⟩
    intro m hm
    rw [Declaration.membersAll_append] at hm
    rcases List.mem_append.1 hm with hfound | hnew
    · exact hp.found m hfound
    · cases hnew
  | @leave scope scopes found t us hkind =>
    refine ⟨fun s hs => hp.scopes s (List.mem_cons_of_mem _ hs), ?_, hleft⟩
    intro m hm
    rw [OpenScope.membersAll_close] at hm
    rcases List.mem_append.1 hm with hbefore | hinside
    · exact hp.scopes scope List.mem_cons_self m hbefore
    · exact hp.found m hinside
  | skipAlias _ _ => exact ⟨hp.scopes, hp.found, hleft⟩
  | skipAttributes _ _ => exact ⟨hp.scopes, hp.found, hleft⟩
  | skipBrace _ => exact ⟨hp.scopes, hp.found, hleft⟩
  | skipBlock _ _ => exact ⟨hp.scopes, hp.found, hleft⟩
  | skipTemplate _ => exact ⟨hp.scopes, hp.found, hleft⟩
  | skipUsing _ => exact ⟨hp.scopes, hp.found, hleft⟩
  | skipEnum _ _ => exact ⟨hp.scopes, hp.found, hleft⟩
  | skipIdle _ => exact ⟨hp.scopes, hp.found, hleft⟩

theorem membersReadIn_of_steps {ts : List Token} {p q : Progress} (h : Steps p q)
    (hp : p.MembersReadIn ts) : q.MembersReadIn ts := by
  induction h with
  | refl => exact hp
  | tail _ hstep ih => exact membersReadIn_of_step hstep ih

end Progress

/-- **Every member of a file was read at one place of its tokens.** -/
theorem Parser.readIn_of_unit {ts rest : List Token} {unit : CompilationUnit}
    (h : Parser.unit ts = .ok unit rest) : ∀ m ∈ unit.members, m.ReadIn ts := by
  obtain ⟨ds, hds, rfl⟩ := Reading.map_eq_ok.1 h
  have hsteps := (Progress.steps_of_declarations hds).1
  have hstart : Progress.MembersReadIn ts ⟨[], [], ts⟩ :=
    ⟨List.forall_mem_nil _, List.forall_mem_nil _, List.suffix_rfl⟩
  exact (Progress.membersReadIn_of_steps hsteps hstart).found

theorem CompilationUnit.readIn_of_ofTokens {ts : List Token} {unit : CompilationUnit}
    (h : ofTokens ts = .ok unit) : ∀ m ∈ unit.members, m.ReadIn (Token.significant ts) := by
  rw [ofTokens] at h
  cases hread : Parser.unit (Token.significant ts) with
  | error e rest =>
    rw [hread] at h
    cases h
  | ok u rest =>
    rw [hread] at h
    cases h
    exact Parser.readIn_of_unit hread

/-! ## Where the type of a member stands -/

namespace Parser

variable {ts rest : List Token}

/-- Further parts are spelled with the colons that are read between them. -/
theorem spelledParts_of_furtherParts {ls : List Literal}
    (hcolon : ∀ t ∈ ts, t.kind = .colon → t.text = ":") (h : furtherParts ts = .ok ls rest) :
    ∃ front, QualifiedName.SpelledParts ls front ∧ ts = front ++ rest := by
  fun_induction furtherParts ts generalizing ls rest with
  | case1 => cases h
  | case2 ts left hnone =>
    cases h
    obtain ⟨form, hform, rfl⟩ := form_of_nextPart hnone
    rw [Option.map_eq_none_iff] at hform
    subst hform
    exact ⟨[], .nil, rfl⟩
  | case3 ts part left hsome ih =>
    obtain ⟨more, hmore, rfl⟩ := Reading.map_eq_ok.1 h
    obtain ⟨form, hform, rfl⟩ := form_of_nextPart hsome
    obtain ⟨part, rfl, rfl⟩ := Option.map_eq_some_iff.1 hform
    have htokens : (some part).elim [] PartForm.tokens ++ left =
        part.first.val :: part.second.val :: part.name.val :: left := rfl
    rw [htokens] at hcolon ⊢
    simp only [List.forall_mem_cons] at hcolon
    obtain ⟨hfirst, hsecond, -, hleft⟩ := hcolon
    obtain ⟨front, hfront, rfl⟩ := ih hleft hmore
    refine ⟨part.first.val :: part.second.val :: part.name.val :: front, ?_, rfl⟩
    exact .cons ⟨part.first.property, hfirst part.first.property⟩
      ⟨part.second.property, hsecond part.second.property⟩ hfront

theorem spelled_of_qualifiedName {name : QualifiedName}
    (hcolon : ∀ t ∈ ts, t.kind = .colon → t.text = ":") (h : qualifiedName ts = .ok name rest) :
    ∃ front, name.Spelled front ∧ ts = front ++ rest := by
  obtain ⟨first, afterFirst, hfirst, htail⟩ := bind_eq_ok.1 h
  obtain ⟨more, afterMore, hmore, hresult⟩ := bind_eq_ok.1 htail
  obtain ⟨rfl, rfl⟩ := pure_eq_ok.1 hresult
  obtain ⟨t, rfl, rfl⟩ := tokenOf_of_identifier hfirst
  obtain ⟨front, hfront, rfl⟩ :=
    spelledParts_of_furtherParts (List.forall_mem_cons.1 hcolon).2 hmore
  exact ⟨t.val :: front, .mk hfront, rfl⟩

/-- The tokens of a type are taken in a row. -/
theorem holds_of_typeName {type : TypeName} (hcolon : ∀ t ∈ ts, t.kind = .colon → t.text = ":")
    (h : typeName ts = .ok type rest) : ∃ taken, type.Holds taken ∧ ts = taken ++ rest := by
  obtain ⟨head, mid, hhead, hresult⟩ := bind_eq_ok.1 h
  have hsuffix := typeSuffix_append mid
  cases hresult
  have hfront : ∃ front, head.Spelled front ∧ ts = front ++ mid := by
    rw [typeHead] at hhead
    split at hhead
    · obtain ⟨t, ht, rfl⟩ := Reading.map_eq_ok.1 hhead
      exact ⟨[t], .mk .nil, (expect_eq_ok.1 ht).1⟩
    · exact spelled_of_qualifiedName hcolon hhead
  obtain ⟨front, hspelled, rfl⟩ := hfront
  refine ⟨front ++ (typeSuffix mid).1, ⟨front, hspelled, rfl⟩, ?_⟩
  rw [List.append_assoc, hsuffix]

end Parser

/-- The type of a member stands in the tokens that the member was read from, in a row before its
name. -/
theorem Member.ReadIn.exists_type {m : Member} {ts : List Token} (h : m.ReadIn ts)
    (hcolon : ∀ t ∈ ts, t.kind = .colon → t.text = ":") :
    ∃ before type after, m.type.Holds type ∧ ts = before ++ (type ++ m.name.token :: after) := by
  obtain ⟨start, rest, ⟨skipped, rfl⟩, hread⟩ := h
  obtain ⟨attributes, afterAttributes, hattributes, htail⟩ := Parser.bind_eq_ok.1 hread
  obtain ⟨type, afterType, htype, htail⟩ := Parser.bind_eq_ok.1 htail
  obtain ⟨name, afterName, hname, htail⟩ := Parser.bind_eq_ok.1 htail
  obtain ⟨signature, afterSignature, hsignature, hresult⟩ := Parser.bind_eq_ok.1 htail
  obtain ⟨rfl, rfl⟩ := Parser.pure_eq_ok.1 hresult
  obtain ⟨groups, rfl⟩ := Parser.steady_attributeSequences.of_ok hattributes
  have hmore : ∀ t ∈ afterAttributes, t.kind = .colon → t.text = ":" := fun t ht =>
    hcolon t (List.mem_append_right _ (List.mem_append_right _ ht))
  obtain ⟨taken, hholds, rfl⟩ := Parser.holds_of_typeName hmore htype
  obtain ⟨t, rfl, rfl⟩ := Parser.tokenOf_of_identifier hname
  exact ⟨skipped ++ groups, taken, afterName, hholds, by rw [List.append_assoc]; rfl⟩

/-- The type of a member starts with `auto` or with a name. -/
theorem Member.ReadIn.head_spec {m : Member} {ts : List Token} (h : m.ReadIn ts) :
    (∃ t : Token, t.kind = .autoKeyword ∧ m.type.head = ⟨[⟨t, .identifier⟩]⟩) ∨
      m.type.head.WellFormed := by
  obtain ⟨start, rest, -, hread⟩ := h
  obtain ⟨attributes, afterAttributes, -, htail⟩ := Parser.bind_eq_ok.1 hread
  obtain ⟨type, afterType, htype, htail⟩ := Parser.bind_eq_ok.1 htail
  obtain ⟨name, afterName, -, htail⟩ := Parser.bind_eq_ok.1 htail
  obtain ⟨signature, afterSignature, -, hresult⟩ := Parser.bind_eq_ok.1 htail
  obtain ⟨rfl, rfl⟩ := Parser.pure_eq_ok.1 hresult
  obtain ⟨head, mid, hhead, htype⟩ := Parser.bind_eq_ok.1 htype
  cases htype
  exact (Parser.typeHead_spec hhead).imp_right And.left

end HeaderReflection
