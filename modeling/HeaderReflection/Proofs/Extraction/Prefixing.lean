import HeaderReflection.Model.Extraction
import Mathlib.Data.List.Forall2

/-!
# Classes under the names of their namespaces

The classes of a file are those of its tree, parents first, each with the names of the namespaces
around it in front of its own. A tree is a list of declarations and a namespace puts its name in
front of a list, so the classes of two lists in a row are those of the one and then those of the
other, and a namespace around a list changes nothing but the names
(`CompilationUnit.classes_under_scopes`).

A tree whose declarations hold another root goes on below it, but the classes there are not those of
the file (`CompilationUnit.not_forall_shows_records`). A namespace with an empty name is left out of
all this: it adds nothing to the name of a class that stands directly in it, but a separator if
another namespace stands between.
-/

namespace HeaderReflection

/-! ## Declarations where they stand -/

/-- A declaration where it stands in a tree. -/
structure Occurrence where
  /-- The declarations around it, outermost first. -/
  around : List Declaration
  /-- The declaration itself. -/
  declaration : Declaration

/-- The name of a namespace, if the declaration is one. -/
def Declaration.scopeName? : Declaration → Option QualifiedName
  | scope _ name _ => some name
  | _ => none

namespace Occurrence

/-- The names of the namespaces around it, outermost first. -/
def scopes (o : Occurrence) : List QualifiedName := o.around.filterMap Declaration.scopeName?

/-- Whether no other root is around it than that of the tree. -/
def isOwn (o : Occurrence) : Bool := o.around.all (·.kind ≠ .unit)

/-- The class that stands somewhere, if it is a class. -/
def record? (o : Occurrence) : Option (List QualifiedName × ClassDeclaration) :=
  match o.declaration with
  | .record c => some (o.scopes, c)
  | _ => none

theorem record?_eq_some {o : Occurrence} {place : List QualifiedName × ClassDeclaration} :
    o.record? = some place ↔ o.scopes = place.1 ∧ o.declaration = .record place.2 := by
  obtain ⟨around, declaration⟩ := o
  cases declaration <;> simp [record?, Prod.ext_iff]

end Occurrence

namespace Declaration

mutual

/-- A declaration and everything in it, parents first. -/
def occurrences (around : List Declaration) : Declaration → List Occurrence
  | scope keyword name inside =>
    ⟨around, scope keyword name inside⟩ ::
      occurrencesAll (around ++ [scope keyword name inside]) inside
  | unit inside => ⟨around, unit inside⟩ :: occurrencesAll (around ++ [unit inside]) inside
  | d => [⟨around, d⟩]

/-- Several declarations in the same ones and everything in them. -/
def occurrencesAll (around : List Declaration) : List Declaration → List Occurrence
  | [] => []
  | d :: ds => d.occurrences around ++ occurrencesAll around ds

end

theorem occurrencesAll_eq_flatMap (around ds : List Declaration) :
    occurrencesAll around ds = ds.flatMap (occurrences around) := by
  induction ds with
  | nil => rfl
  | cons d ds ih => rw [occurrencesAll, ih, List.flatMap_cons]

/-- After a declaration comes what is reached through the declarations directly in it. -/
theorem occurrences_eq (around : List Declaration) (d : Declaration) :
    d.occurrences around = ⟨around, d⟩ :: d.children.flatMap (occurrences (around ++ [d])) := by
  rw [← occurrencesAll_eq_flatMap]
  cases d <;> rfl

theorem mem_occurrences {around : List Declaration} {d : Declaration} {o : Occurrence} :
    o ∈ d.occurrences around ↔
      o = ⟨around, d⟩ ∨ ∃ e ∈ d.children, o ∈ e.occurrences (around ++ [d]) := by
  rw [occurrences_eq, List.mem_cons, List.mem_flatMap]

theorem outline_eq (around : List Declaration) (d : Declaration) :
    d.outline (around.length + 1) =
      (d.occurrences around).map fun o => (o.around.length + 1, o.declaration.kind) := by
  induction d using induction_children generalizing around with
  | h d ih =>
    rw [outline_cons, occurrences_eq, List.map_cons, List.map_flatMap]
    refine congrArg _ (List.flatMap_congr fun e he => ?_)
    rw [← ih e he, List.length_append, List.length_singleton]

/-- What stands in a declaration has around it what the declaration has around itself. -/
theorem prefix_of_mem_occurrences {around : List Declaration} {d : Declaration} {o : Occurrence}
    (h : o ∈ d.occurrences around) : around <+: o.around := by
  induction d using induction_children generalizing around with
  | h d ih =>
    rcases mem_occurrences.1 h with rfl | ⟨e, he, ho⟩
    · exact List.prefix_rfl
    · exact (List.prefix_append _ _).trans (ih e he ho)

/-- What is around a declaration that is reached was there from the start, or is reached itself. -/
theorem mem_around {around : List Declaration} {d e : Declaration} {o : Occurrence}
    (h : o ∈ d.occurrences around) (he : e ∈ o.around) :
    e ∈ around ∨ ∃ p ∈ d.occurrences around, p.declaration = e := by
  induction d using induction_children generalizing around with
  | h d ih =>
    rcases mem_occurrences.1 h with rfl | ⟨child, hchild, ho⟩
    · exact .inl he
    · rcases ih child hchild ho with hfront | ⟨p, hp, rfl⟩
      · rw [List.mem_append, List.mem_singleton] at hfront
        refine hfront.imp_right ?_
        rintro rfl
        exact ⟨_, mem_occurrences.2 (.inl rfl), rfl⟩
      · exact .inr ⟨p, mem_occurrences.2 (.inr ⟨child, hchild, hp⟩), rfl⟩

/-- Below another root nothing is the tree's own. -/
theorem filter_isOwn_eq_nil {around : List Declaration} {e : Declaration} (he : e ∈ around)
    (hkind : e.kind = .unit) (ds : List Declaration) :
    (ds.flatMap (occurrences around)).filter Occurrence.isOwn = [] := by
  refine List.filter_eq_nil_iff.2 fun o ho => ?_
  obtain ⟨d, -, ho⟩ := List.mem_flatMap.1 ho
  have hother : o.isOwn = false :=
    List.all_eq_false.2 ⟨e, (prefix_of_mem_occurrences ho).subset he, by simp [hkind]⟩
  exact Bool.eq_false_iff.1 hother

mutual

/-- No namespace in the declaration has an empty name. -/
def ScopesNamed : Declaration → Prop
  | scope _ name inside => name.text ≠ "" ∧ AllScopesNamed inside
  | unit inside => AllScopesNamed inside
  | _ => True

/-- No namespace in the declarations has an empty name. -/
def AllScopesNamed : List Declaration → Prop
  | [] => True
  | d :: ds => d.ScopesNamed ∧ AllScopesNamed ds

end

theorem allScopesNamed_iff {ds : List Declaration} :
    AllScopesNamed ds ↔ ∀ d ∈ ds, d.ScopesNamed := by
  induction ds with
  | nil => simp [AllScopesNamed]
  | cons d ds ih => rw [AllScopesNamed, ih, List.forall_mem_cons]

theorem ScopesNamed.children {d : Declaration} (h : d.ScopesNamed) :
    ∀ e ∈ d.children, e.ScopesNamed := by
  cases d with
  | scope keyword name inside => exact allScopesNamed_iff.1 h.2
  | unit inside => exact allScopesNamed_iff.1 h
  | _ => exact List.forall_mem_nil _

theorem ScopesNamed.scopeName? {d : Declaration} (h : d.ScopesNamed) :
    ∀ name ∈ d.scopeName?, name.text ≠ "" := by
  intro name hname
  cases d <;> cases hname
  exact h.1

end Declaration

namespace CompilationUnit

variable (unit : CompilationUnit)

/-- Every declaration of a tree, parents first. -/
def occurrences : List Occurrence := Declaration.occurrencesAll [] unit.declarations

/-- Every class of a tree and the names of the namespaces around it. -/
def records : List (List QualifiedName × ClassDeclaration) :=
  unit.occurrences.filterMap Occurrence.record?

/-- Those of the classes that have no other root around them. -/
def ownRecords : List (List QualifiedName × ClassDeclaration) :=
  (unit.occurrences.filter Occurrence.isOwn).filterMap Occurrence.record?

variable {unit}

theorem mem_occurrences {o : Occurrence} :
    o ∈ unit.occurrences ↔ ∃ d ∈ unit.declarations, o ∈ d.occurrences [] := by
  rw [occurrences, Declaration.occurrencesAll_eq_flatMap, List.mem_flatMap]

theorem outline_eq (unit : CompilationUnit) :
    unit.outline =
      (0, .unit) :: unit.occurrences.map fun o => (o.around.length + 1, o.declaration.kind) := by
  rw [outline, occurrences, Declaration.outlineAll_eq_flatMap,
    Declaration.occurrencesAll_eq_flatMap, List.map_flatMap]
  exact congrArg _ (List.flatMap_congr fun d _ => Declaration.outline_eq [] d)

/-- In a tree with no other root in it every class is its own. -/
theorem ownRecords_eq_records (h : ∀ o ∈ unit.occurrences, o.declaration.kind ≠ .unit) :
    unit.ownRecords = unit.records := by
  have hown : ∀ o ∈ unit.occurrences, o.isOwn = true := by
    intro o ho
    obtain ⟨d, hd, hod⟩ := mem_occurrences.1 ho
    refine List.all_eq_true.2 fun e he => decide_eq_true ?_
    rcases Declaration.mem_around hod he with hnil | ⟨p, hp, rfl⟩
    · cases hnil
    · exact h p (mem_occurrences.2 ⟨d, hd, hp⟩)
  rw [ownRecords, records, List.filter_eq_self.2 hown]

end CompilationUnit

/-! ## Names in namespaces -/

/-- What the parts of a name stand for. -/
def QualifiedName.values (name : QualifiedName) : List String := name.parts.map Literal.value

theorem QualifiedName.values_ne_nil {name : QualifiedName} (h : name.text ≠ "") :
    name.values ≠ [] := by
  intro hnil
  rw [QualifiedName.text, ← values, hnil] at h
  exact h String.intercalate_nil

/-- A text that starts with a nonempty one and separators is not empty. -/
theorem intercalate_ne_empty {separator text : String} (h : text ≠ "") (texts : List String) :
    separator.intercalate (text :: texts) ≠ "" := by
  cases texts with
  | nil => rwa [String.intercalate_singleton]
  | cons next texts =>
    rw [String.intercalate_cons_cons, String.append_assoc]
    exact fun hempty => h (String.append_eq_empty_iff.1 hempty).1

/-- The name of a class is the last of the names that are joined. -/
theorem ClassDeclaration.nameIn_eq (c : ClassDeclaration) {scopes : List String}
    (h : ∀ s ∈ scopes, s ≠ "") : c.nameIn scopes = "::".intercalate (scopes ++ [c.name.text]) := by
  cases scopes with
  | nil => exact String.intercalate_singleton.symm
  | cons s scopes =>
    have houter : "::".intercalate (s :: scopes) ≠ "" :=
      intercalate_ne_empty (h s List.mem_cons_self) scopes
    have hnames : "::".intercalate (s :: scopes ++ [c.name.text]) =
        "::".intercalate (s :: scopes) ++ "::" ++ c.name.text := by
      rw [String.intercalate_append_of_ne_nil (List.cons_ne_nil _ _) (List.cons_ne_nil _ _),
        String.intercalate_singleton]
    rw [ClassDeclaration.nameIn, if_neg houter, hnames]

/-- Joining names is joining their parts. -/
theorem QualifiedName.intercalate_values {names : List QualifiedName} {more : List String}
    (h : ∀ name ∈ names, name.text ≠ "") (hmore : more ≠ []) :
    "::".intercalate (names.map text ++ more) =
      "::".intercalate (names.flatMap values ++ more) := by
  induction names with
  | nil => rfl
  | cons name names ih =>
    obtain ⟨hname, hnames⟩ := List.forall_mem_cons.1 h
    have hleft : names.map text ++ more ≠ [] := List.append_ne_nil_of_right_ne_nil _ hmore
    have hright : names.flatMap values ++ more ≠ [] := List.append_ne_nil_of_right_ne_nil _ hmore
    rw [List.map_cons, List.cons_append, String.intercalate_cons_of_ne_nil hleft, ih hnames,
      List.flatMap_cons, List.append_assoc,
      String.intercalate_append_of_ne_nil (values_ne_nil hname) hright]
    rfl

/-! ## What the model shows -/

/-- An attribute with its own namespace if there is one, else with that of its group, else with
none. -/
def Attribute.inForce (default : Option Literal) (a : Attribute) : Model.Attribute where
  scope :=
    match a.scope, default with
    | some own, _ => own.value
    | none, some shared => shared.value
    | none, none => ""
  name := a.name.value
  parameters :=
    match a.params with
    | some literals => literals.map Literal.value
    | none => []

/-- The attributes of all groups, in order. -/
def AttributeSequence.inForce (groups : List AttributeSequence) : List Model.Attribute :=
  groups.flatMap fun group => group.attributes.map (Attribute.inForce group.default)

theorem AttributeSequence.resolve_eq (group : AttributeSequence) :
    group.resolve = Attribute.inForce group.default := by
  funext a
  obtain ⟨scope, name, params⟩ := a
  obtain ⟨opening, default, attributes, closing⟩ := group
  cases scope <;> cases default <;> cases params <;> rfl

theorem AttributeSequence.resolveAll_eq (groups : List AttributeSequence) :
    resolveAll groups = inForce groups := by
  simp only [resolveAll, inForce, resolve_eq]

/-- What the model says of a class of a file, given the names of the namespaces around it. -/
structure Model.Class.Shows (file : String) (place : List QualifiedName × ClassDeclaration)
    (shown : Model.Class) : Prop where
  /-- All parts of the namespaces and the name of the class are joined. -/
  name : shown.qualifiedName =
    "::".intercalate (place.1.flatMap QualifiedName.values ++ [place.2.name.text])
  /-- A name has parts, and then these are joined too. -/
  parts : place.2.name.parts ≠ [] → shown.qualifiedName =
    "::".intercalate (place.1.flatMap QualifiedName.values ++ place.2.name.values)
  file : shown.declaringFile = file
  /-- The members without a parameter list are the fields. -/
  fields : shown.fields = (place.2.members.filter (·.signature.isNone)).map fun m =>
    { name := m.name.value
      type := m.type.text
      attributes := AttributeSequence.inForce m.attributes }
  attributes : shown.attributes = AttributeSequence.inForce place.2.attributes

theorem ClassDeclaration.shows_toModel (file : String) {scopes : List QualifiedName}
    (h : ∀ name ∈ scopes, name.text ≠ "") (c : ClassDeclaration) :
    Model.Class.Shows file (scopes, c) (c.toModel file (scopes.map QualifiedName.text)) := by
  have hname : c.nameIn (scopes.map QualifiedName.text) =
      "::".intercalate (scopes.flatMap QualifiedName.values ++ [c.name.text]) := by
    rw [c.nameIn_eq (List.forall_mem_map.2 h),
      QualifiedName.intercalate_values h (List.cons_ne_nil _ _)]
  refine ⟨hname, ?_, rfl, ?_, AttributeSequence.resolveAll_eq _⟩
  · intro hparts
    refine hname.trans ?_
    have hvalues : c.name.values ≠ [] := fun hnil => hparts (List.map_eq_nil_iff.1 hnil)
    by_cases hne : scopes.flatMap QualifiedName.values = []
    · rw [hne, List.nil_append, List.nil_append, String.intercalate_singleton]
      rfl
    · rw [String.intercalate_append_of_ne_nil hne (List.cons_ne_nil _ _),
        String.intercalate_append_of_ne_nil hne hvalues, String.intercalate_singleton]
      rfl
  · have hfield : ∀ m : Member, (!m.isMethod) = m.signature.isNone := by
      intro m
      rw [Member.isMethod, Option.not_isSome]
    show (c.members.filter fun m => !m.isMethod).map Member.toField = _
    simp only [hfield]
    refine List.map_congr_left fun m _ => ?_
    rw [Member.toField, AttributeSequence.resolveAll_eq]

/-- The class of the model for a class inside namespaces. -/
def Model.Class.ofRecord (file : String) (place : List QualifiedName × ClassDeclaration) :
    Model.Class :=
  place.2.toModel file (place.1.map QualifiedName.text)

namespace Declaration

/-- The classes in a declaration are those that are reached without another root around them. -/
theorem classes_eq (file : String) (around : List Declaration)
    (h : around.all (·.kind ≠ .unit) = true) (d : Declaration) :
    d.classes file ((around.filterMap scopeName?).map QualifiedName.text) =
      (((d.occurrences around).filter Occurrence.isOwn).filterMap Occurrence.record?).map
        (Model.Class.ofRecord file) := by
  induction d using induction_children generalizing around with
  | h d ih =>
    have hown : Occurrence.isOwn ⟨around, d⟩ = true := h
    rw [occurrences_eq, List.filter_cons_of_pos hown]
    cases d with
    | scope keyword name inside =>
      rw [List.filterMap_cons_none rfl, List.filter_flatMap, List.filterMap_flatMap,
        List.map_flatMap, classes, classesAll_eq_flatMap]
      refine List.flatMap_congr fun e he => ?_
      rw [← ih e he _ (by simpa [kind] using h)]
      simp [scopeName?]
    | unit inside =>
      rw [filter_isOwn_eq_nil (List.mem_append_right _ List.mem_cons_self) rfl]
      rfl
    | record c => rfl
    | directive d => rfl
    | part p => rfl

/-- Where no namespace has an empty name, none around a declaration that is reached has one. -/
theorem ScopesNamed.around {around : List Declaration} (h : ∀ e ∈ around, e.ScopesNamed)
    {d : Declaration} (hd : d.ScopesNamed) {o : Occurrence} (ho : o ∈ d.occurrences around) :
    ∀ e ∈ o.around, e.ScopesNamed := by
  induction d using induction_children generalizing around with
  | h d ih =>
    rcases mem_occurrences.1 ho with rfl | ⟨e, he, ho⟩
    · exact h
    · have hfront := List.forall_mem_append.2 ⟨h, List.forall_mem_singleton.2 hd⟩
      exact ih e he hfront (hd.children e he) ho

end Declaration

namespace CompilationUnit

theorem classes_eq (file : String) (unit : CompilationUnit) :
    unit.classes file = unit.ownRecords.map (Model.Class.ofRecord file) := by
  rw [classes, ownRecords, occurrences, Declaration.classesAll_eq_flatMap,
    Declaration.occurrencesAll_eq_flatMap, List.filter_flatMap, List.filterMap_flatMap,
    List.map_flatMap]
  exact List.flatMap_congr fun d _ => Declaration.classes_eq file [] rfl d

theorem named_of_mem_ownRecords {unit : CompilationUnit}
    (h : Declaration.AllScopesNamed unit.declarations)
    {place : List QualifiedName × ClassDeclaration} (hplace : place ∈ unit.ownRecords) :
    ∀ name ∈ place.1, name.text ≠ "" := by
  obtain ⟨o, ho, hrecord⟩ := List.mem_filterMap.1 hplace
  obtain ⟨d, hd, hod⟩ := mem_occurrences.1 (List.mem_filter.1 ho).1
  intro name hname
  rw [← (Occurrence.record?_eq_some.1 hrecord).1] at hname
  obtain ⟨e, he, hscope⟩ := List.mem_filterMap.1 hname
  have hnamed := (Declaration.allScopesNamed_iff.1 h d hd).around (List.forall_mem_nil _) hod e he
  exact hnamed.scopeName? name hscope

/-- The model shows the classes of a tree, each where it stands. -/
theorem shows_classes (file : String) {unit : CompilationUnit}
    (h : Declaration.AllScopesNamed unit.declarations) :
    List.Forall₂ (Model.Class.Shows file) unit.ownRecords (unit.classes file) := by
  rw [classes_eq, List.forall₂_map_right_iff, List.forall₂_same]
  exact fun place hplace => place.2.shows_toModel file (named_of_mem_ownRecords h hplace)

end CompilationUnit

/-! ## Namespaces around declarations -/

/-- The class with something in front of its name. -/
def Model.Class.prefixed (front : String) (c : Model.Class) : Model.Class :=
  { c with qualifiedName := front ++ c.qualifiedName }

/-- Namespaces in front of others are put in front of the name. -/
theorem ClassDeclaration.nameIn_append (c : ClassDeclaration) {outer scopes : List String}
    (hne : outer ≠ []) (houter : ∀ s ∈ outer, s ≠ "") (hscopes : ∀ s ∈ scopes, s ≠ "") :
    c.nameIn (outer ++ scopes) = "::".intercalate outer ++ "::" ++ c.nameIn scopes := by
  have hlast : scopes ++ [c.name.text] ≠ [] :=
    List.append_ne_nil_of_right_ne_nil _ (List.cons_ne_nil _ _)
  rw [c.nameIn_eq (List.forall_mem_append.2 ⟨houter, hscopes⟩), c.nameIn_eq hscopes,
    List.append_assoc, String.intercalate_append_of_ne_nil hne hlast]

namespace Declaration

mutual

theorem classes_prefixed (file : String) {outer scopes : List String} (hne : outer ≠ [])
    (houter : ∀ s ∈ outer, s ≠ "") (h : ∀ s ∈ scopes, s ≠ "") (d : Declaration)
    (hd : d.ScopesNamed) :
    d.classes file (outer ++ scopes) =
      (d.classes file scopes).map (Model.Class.prefixed ("::".intercalate outer ++ "::")) := by
  match d with
  | scope keyword name inside =>
    have hscopes : ∀ s ∈ scopes ++ [name.text], s ≠ "" :=
      List.forall_mem_append.2 ⟨h, List.forall_mem_singleton.2 hd.1⟩
    have hinside := classesAll_prefixed file hne houter hscopes inside hd.2
    rw [classes, classes, List.append_assoc, hinside]
  | record c =>
    rw [classes, classes, List.map_singleton, ClassDeclaration.toModel,
      c.nameIn_append hne houter h]
    rfl
  | directive d => rfl
  | unit inside => rfl
  | part p => rfl

theorem classesAll_prefixed (file : String) {outer scopes : List String} (hne : outer ≠ [])
    (houter : ∀ s ∈ outer, s ≠ "") (h : ∀ s ∈ scopes, s ≠ "") (ds : List Declaration)
    (hds : AllScopesNamed ds) :
    classesAll file (outer ++ scopes) ds =
      (classesAll file scopes ds).map (Model.Class.prefixed ("::".intercalate outer ++ "::")) := by
  match ds with
  | [] => rfl
  | d :: ds =>
    rw [classesAll, classesAll, List.map_append, classes_prefixed file hne houter h d hds.1,
      classesAll_prefixed file hne houter h ds hds.2]

end

end Declaration

/-- Two names, one after the other. -/
theorem QualifiedName.text_append {outer inner : QualifiedName} (houter : outer.text ≠ "")
    (hinner : inner.text ≠ "") :
    (QualifiedName.mk (outer.parts ++ inner.parts)).text =
      "::".intercalate [outer.text, inner.text] := by
  rw [QualifiedName.text, List.map_append, ← values, ← values,
    String.intercalate_append_of_ne_nil (values_ne_nil houter) (values_ne_nil hinner),
    String.intercalate_cons_cons, String.intercalate_singleton]
  rfl

/-- **The classes of a file, each under the names of its namespaces.** They are the classes of the
tree, parents first, as the model is to show them, but for those that have another root around them.
Declarations in a row have their classes in a row, and a namespace with a name of several parts is
as good as namespaces in each other: both put the parts in front of the names of all classes inside.
-/
theorem CompilationUnit.classes_under_scopes (file : String) :
    (∀ unit : CompilationUnit, Declaration.AllScopesNamed unit.declarations →
      unit.outline =
          (0, .unit) :: unit.occurrences.map (fun o => (o.around.length + 1, o.declaration.kind)) ∧
        List.Forall₂ (Model.Class.Shows file) unit.ownRecords (unit.classes file) ∧
        ((∀ o ∈ unit.occurrences, o.declaration.kind ≠ .unit) → unit.ownRecords = unit.records)) ∧
    (∀ ds es : List Declaration,
      classes file ⟨ds ++ es⟩ = classes file ⟨ds⟩ ++ classes file ⟨es⟩) ∧
    ∀ (ds : List Declaration) (outer inner : QualifiedName) (keyword first second : Token),
      Declaration.AllScopesNamed ds → outer.text ≠ "" → inner.text ≠ "" →
        classes file ⟨[.scope keyword ⟨outer.parts ++ inner.parts⟩ ds]⟩ =
            (classes file ⟨ds⟩).map
              (Model.Class.prefixed (outer.text ++ "::" ++ inner.text ++ "::")) ∧
          classes file ⟨[.scope first outer [.scope second inner ds]]⟩ =
            (classes file ⟨ds⟩).map
              (Model.Class.prefixed (outer.text ++ "::" ++ inner.text ++ "::")) := by
  refine ⟨?_, Declaration.classesAll_append file [], ?_⟩
  · intro unit hunit
    exact ⟨unit.outline_eq, shows_classes file hunit, ownRecords_eq_records⟩
  · intro ds outer inner keyword first second hds houter hinner
    have hboth : ∀ s ∈ [outer.text, inner.text], s ≠ "" :=
      List.forall_mem_cons.2 ⟨houter, List.forall_mem_singleton.2 hinner⟩
    have hjoined : "::".intercalate [outer.text, inner.text] ≠ "" := intercalate_ne_empty houter _
    have hwhole : ∀ s ∈ ["::".intercalate [outer.text, inner.text]], s ≠ "" :=
      List.forall_mem_singleton.2 hjoined
    have hfront : "::".intercalate [outer.text, inner.text] ++ "::" =
        outer.text ++ "::" ++ inner.text ++ "::" := by
      rw [String.intercalate_cons_cons, String.intercalate_singleton]
    constructor
    · have hone := Declaration.classesAll_prefixed file (List.cons_ne_nil _ _) hwhole
        (List.forall_mem_nil _) ds hds
      rw [String.intercalate_singleton, List.append_nil, hfront] at hone
      show Declaration.classesAll file [(QualifiedName.mk (outer.parts ++ inner.parts)).text] ds ++
        [] = _
      rw [List.append_nil, QualifiedName.text_append houter hinner]
      exact hone
    · have htwo := Declaration.classesAll_prefixed file (List.cons_ne_nil _ _) hboth
        (List.forall_mem_nil _) ds hds
      rw [List.append_nil, hfront] at htwo
      show (Declaration.classesAll file [outer.text, inner.text] ds ++ []) ++ [] = _
      rw [List.append_nil, List.append_nil]
      exact htwo

/-- A class in two namespaces, and after it one in the outer namespace alone. Before them stands
another root with a class, which is left out. -/
theorem CompilationUnit.classes_under_scopes_siblings :
    let name (text : String) : Literal := ⟨⟨.identifier, text, {}⟩, .identifier⟩
    let keyword : Token := ⟨.namespaceKeyword, "namespace", {}⟩
    let group : AttributeSequence :=
      ⟨⟨.attributeOpen, "[[", {}⟩, some (name "SH"), [⟨none, name "Reflect", some [name "on"]⟩,
        ⟨some (name "Other"), name "Tag", none⟩], ⟨.attributeClose, "]]", {}⟩⟩
    let type : TypeName := ⟨⟨[name "int"]⟩, []⟩
    let inner : ClassDeclaration := ⟨⟨.classKeyword, "class", {}⟩, ⟨[name "C"]⟩, [group], [],
      [⟨[group], type, name "f", some []⟩, ⟨[group], type, name "x", none⟩]⟩
    let next : ClassDeclaration := ⟨⟨.structKeyword, "struct", {}⟩, ⟨[name "D"]⟩, [], [], []⟩
    let plain : List Declaration := [.scope keyword ⟨[name "B"]⟩ [.record inner], .record next]
    let ds : List Declaration := .unit [.record inner] :: plain
    let outer : List Declaration := [.scope keyword ⟨[name "A", name "Z"]⟩ ds]
    let shown : List Model.Attribute := [⟨"SH", "Reflect", ["on"]⟩, ⟨"Other", "Tag", []⟩]
    (∀ o ∈ occurrences ⟨plain⟩, o.declaration.kind ≠ .unit) ∧
      ownRecords ⟨plain⟩ = records ⟨plain⟩ ∧
      Declaration.AllScopesNamed outer ∧ (records ⟨outer⟩).length = 3 ∧
      List.Forall₂ (Model.Class.Shows "a.h") (ownRecords ⟨outer⟩) (classes "a.h" ⟨outer⟩) ∧
      classes "a.h" ⟨outer⟩ =
        [⟨"A::Z::B::C", "a.h", [⟨"x", "int", shown⟩], shown⟩, ⟨"A::Z::D", "a.h", [], []⟩] := by
  intro name keyword group type inner next plain ds outer shown
  have hplain : Declaration.AllScopesNamed plain :=
    ⟨⟨by decide, trivial, trivial⟩, trivial, trivial⟩
  have hkinds : ∀ o ∈ occurrences ⟨plain⟩, o.declaration.kind ≠ .unit := by decide
  have hds : Declaration.AllScopesNamed ds := ⟨⟨trivial, trivial⟩, hplain⟩
  have houter : Declaration.AllScopesNamed outer := ⟨⟨by decide, hds⟩, trivial⟩
  obtain ⟨hshows, -, hwrap⟩ := classes_under_scopes "a.h"
  have hone := (hwrap ds ⟨[name "A"]⟩ ⟨[name "Z"]⟩ keyword keyword keyword hds (by decide)
    (by decide)).1
  refine ⟨hkinds, (hshows ⟨plain⟩ hplain).2.2 hkinds, houter, rfl, (hshows ⟨outer⟩ houter).2.1,
    hone.trans ?_⟩
  decide

/-- A class in another root below that of the tree is reached, but it is no class of the file. -/
theorem CompilationUnit.not_forall_shows_records :
    ¬∀ (file : String) (unit : CompilationUnit), Declaration.AllScopesNamed unit.declarations →
      List.Forall₂ (Model.Class.Shows file) unit.records (unit.classes file) := by
  intro h
  let c : ClassDeclaration := ⟨⟨.classKeyword, "class", {}⟩,
    ⟨[⟨⟨.identifier, "C", {}⟩, .identifier⟩]⟩, [], [], []⟩
  let unit : CompilationUnit := ⟨[.unit [.record c]]⟩
  have hshows : List.Forall₂ (Model.Class.Shows "a.h") [([], c)] [] :=
    h "a.h" unit ⟨⟨trivial, trivial⟩, trivial⟩
  cases hshows

end HeaderReflection
