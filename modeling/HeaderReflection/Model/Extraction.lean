import HeaderReflection.Grammar.Declarations
import HeaderReflection.Model

/-!
# From declarations to the model

Every class of a file becomes a class of the model, in the order in which the classes stand in the
file, with the names of the namespaces around it in front of its own. Another root that stands in
the tree is passed over with all that is in it.
-/

namespace HeaderReflection

/-- An attribute of a group with the namespace in force for it. -/
def AttributeSequence.resolve (group : AttributeSequence) (a : Attribute) : Model.Attribute where
  scope := (group.scopeOf a).getD ""
  name := a.name.value
  parameters := (a.params.getD []).map Literal.value

/-- The attributes of several groups, in order. -/
def AttributeSequence.resolveAll (groups : List AttributeSequence) : List Model.Attribute :=
  groups.flatMap fun group => group.attributes.map group.resolve

/-- A field of a class in the model. -/
def Member.toField (m : Member) : Model.Field where
  name := m.name.value
  type := m.type.text
  attributes := AttributeSequence.resolveAll m.attributes

/-- The name of a class inside namespaces, outermost first. -/
def ClassDeclaration.nameIn (scopes : List String) (c : ClassDeclaration) : String :=
  let outer := "::".intercalate scopes
  if outer = "" then c.name.text else outer ++ "::" ++ c.name.text

/-- A class of the model. -/
def ClassDeclaration.toModel (file : String) (scopes : List String) (c : ClassDeclaration) :
    Model.Class where
  qualifiedName := c.nameIn scopes
  declaringFile := file
  fields := c.fields.map Member.toField
  attributes := AttributeSequence.resolveAll c.attributes

namespace Declaration

mutual

/-- The classes in a declaration that stands inside namespaces, outermost first. Of all that has
declarations in it only namespaces are gone into. -/
def classes (file : String) (scopes : List String) : Declaration → List Model.Class
  | scope _ name inside => classesAll file (scopes ++ [name.text]) inside
  | record c => [c.toModel file scopes]
  | _ => []

/-- The classes in several declarations of one scope. -/
def classesAll (file : String) (scopes : List String) : List Declaration → List Model.Class
  | [] => []
  | d :: ds => d.classes file scopes ++ classesAll file scopes ds

end

theorem classesAll_eq_flatMap (file : String) (scopes : List String) (ds : List Declaration) :
    classesAll file scopes ds = ds.flatMap (classes file scopes) := by
  induction ds with
  | nil => rfl
  | cons d ds ih => rw [classesAll, ih, List.flatMap_cons]

theorem classesAll_append (file : String) (scopes : List String) (ds es : List Declaration) :
    classesAll file scopes (ds ++ es) = classesAll file scopes ds ++ classesAll file scopes es := by
  simp only [classesAll_eq_flatMap, List.flatMap_append]

end Declaration

/-- The classes of a file, `file` being the text by which generated code includes it. -/
def CompilationUnit.classes (file : String) (unit : CompilationUnit) : List Model.Class :=
  Declaration.classesAll file [] unit.declarations

/-- The classes in the text of a file. -/
def Model.classesOfText (file text : String) : Except ParseError (List Model.Class) :=
  (CompilationUnit.ofString text).map (CompilationUnit.classes file)

end HeaderReflection
