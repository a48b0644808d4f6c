import HeaderReflection.Json
import HeaderReflection.Model

/-!
# The model in JSON

How the model is shown as JSON and taken back from it. Every part of a class is written and has to
be there to be read; further members of an object do no harm.
-/

namespace HeaderReflection.Model

/-- An array of strings. -/
def stringsToJson (texts : List String) : Json := .array (texts.map .ofString)

/-- The strings of an array of nothing else. -/
def stringsOfJson? (value : Json) : Option (List String) := do
  (← value.items?).mapM Json.text?

/-- An attribute in JSON. -/
def Attribute.toJson (a : Attribute) : Json := .ofMembers [
  ("namespace", .ofString a.scope),
  ("name", .ofString a.name),
  ("parameters", stringsToJson a.parameters)]

/-- The attribute that a value shows. -/
def Attribute.ofJson? (value : Json) : Option Attribute := do
  match ← value.fields? ["namespace", "name", "parameters"] with
  | [some scope, some name, some parameters] =>
    return ⟨← scope.text?, ← name.text?, ← stringsOfJson? parameters⟩
  | _ => none

/-- A field in JSON. -/
def Field.toJson (f : Field) : Json := .ofMembers [
  ("name", .ofString f.name),
  ("type", .ofString f.type),
  ("attributes", .array (f.attributes.map Attribute.toJson))]

/-- The field that a value shows. -/
def Field.ofJson? (value : Json) : Option Field := do
  match ← value.fields? ["name", "type", "attributes"] with
  | [some name, some type, some attributes] =>
    return ⟨← name.text?, ← type.text?, ← (← attributes.items?).mapM Attribute.ofJson?⟩
  | _ => none

/-- A class in JSON. -/
def Class.toJson (c : Class) : Json := .ofMembers [
  ("qualified_name", .ofString c.qualifiedName),
  ("declaring_file", .ofString c.declaringFile),
  ("fields", .array (c.fields.map Field.toJson)),
  ("attributes", .array (c.attributes.map Attribute.toJson))]

/-- The class that a value shows. -/
def Class.ofJson? (value : Json) : Option Class := do
  match ← value.fields? ["qualified_name", "declaring_file", "fields", "attributes"] with
  | [some name, some file, some fields, some attributes] =>
    return ⟨← name.text?, ← file.text?, ← (← fields.items?).mapM Field.ofJson?,
      ← (← attributes.items?).mapM Attribute.ofJson?⟩
  | _ => none

/-- Several classes in JSON. -/
def classesToJson (classes : List Class) : Json := .array (classes.map Class.toJson)

/-- The classes that a value shows. -/
def classesOfJson? (value : Json) : Option (List Class) := do
  (← value.items?).mapM Class.ofJson?

end HeaderReflection.Model
