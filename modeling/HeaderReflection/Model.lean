/-!
# The reflection model

What is known of a class once the C++ text is behind it: plain names, with the namespace of every
attribute already settled. A marker is the attribute that selects classes and fields.
-/

namespace HeaderReflection.Model

/-- The attribute that selects what code is written for. -/
structure Marker where
  /-- Its namespace. -/
  scope : String := "SH"
  /-- Its name. -/
  name : String := "Reflect"
  deriving DecidableEq, Repr, Inhabited

/-- An attribute of a class or field. -/
structure Attribute where
  /-- The namespace in force, empty if there is none. -/
  scope : String
  /-- The name. -/
  name : String
  /-- What the parameters stand for. -/
  parameters : List String := []
  deriving DecidableEq, Repr, Inhabited

/-- Whether an attribute is the marker: namespace and name are compared one by one. -/
def Attribute.isMarker (marker : Marker) (a : Attribute) : Bool :=
  a.scope = marker.scope && a.name = marker.name

/-- An annotated field. -/
structure Field where
  /-- The name. -/
  name : String
  /-- The text of its type. -/
  type : String
  /-- Its attributes in order. -/
  attributes : List Attribute
  deriving DecidableEq, Repr, Inhabited

/-- Whether a field carries the marker. -/
def Field.isMarked (marker : Marker) (f : Field) : Bool :=
  f.attributes.any (·.isMarker marker)

/-- A class or struct. -/
structure Class where
  /-- The enclosing namespaces and the name, with `::` between them. -/
  qualifiedName : String
  /-- The text by which generated code includes the file that declares it. -/
  declaringFile : String
  /-- The annotated fields in order. -/
  fields : List Field
  /-- Its attributes in order. -/
  attributes : List Attribute
  deriving DecidableEq, Repr, Inhabited

namespace Class

/-- Whether a class carries the marker. -/
def isMarked (marker : Marker) (c : Class) : Bool := c.attributes.any (·.isMarker marker)

/-- The fields that carry the marker, in order. -/
def markedFields (marker : Marker) (c : Class) : List Field := c.fields.filter (·.isMarked marker)

end Class

end HeaderReflection.Model
