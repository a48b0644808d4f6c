import HeaderReflection.Json
import HeaderReflection.Yaml.Scalar

/-!
# Writing YAML

JSON values in block style: one item or member a line, the items of an array that is a member's
value no deeper than the member, everything else two blanks deeper. An empty array or object stays
on its line.
-/

namespace HeaderReflection.Yaml

mutual

/-- A value that starts in a column, to the end of its last line. -/
def node (column : Nat) : Json → List Char
  | .null => ['n', 'u', 'l', 'l', '\n']
  | .bool value => (if value then ['t', 'r', 'u', 'e'] else ['f', 'a', 'l', 's', 'e']) ++ ['\n']
  | .number text => text.toList ++ ['\n']
  | .string text => scalar column (text.getD "")
  | .array [] => ['[', ']', '\n']
  | .array (item :: items) => '-' :: ' ' :: node (column + 2) item ++ furtherItems column items
  | .object [] => ['\x7b', '\x7d', '\n']
  | .object ((name, value) :: members) =>
    (name.getD "").toList ++ ':' :: memberValue column value ++ furtherMembers column members

/-- The items of an array after its first. -/
def furtherItems (column : Nat) : List Json → List Char
  | [] => []
  | item :: items =>
    blanks column ++ '-' :: ' ' :: node (column + 2) item ++ furtherItems column items

/-- The members of an object after its first. -/
def furtherMembers (column : Nat) : List (JsonText × Json) → List Char
  | [] => []
  | (name, value) :: members =>
    blanks column ++ (name.getD "").toList ++ ':' :: memberValue column value ++
      furtherMembers column members

/-- The value of a member whose name starts in a column. -/
def memberValue (column : Nat) : Json → List Char
  | .null => [' ', 'n', 'u', 'l', 'l', '\n']
  | .bool value =>
    ' ' :: (if value then ['t', 'r', 'u', 'e'] else ['f', 'a', 'l', 's', 'e']) ++ ['\n']
  | .number text => ' ' :: text.toList ++ ['\n']
  | .string text => ' ' :: scalar (column + 2) (text.getD "")
  | .array [] => [' ', '[', ']', '\n']
  | .array (item :: items) =>
    '\n' :: blanks column ++ '-' :: ' ' :: node (column + 2) item ++ furtherItems column items
  | .object [] => [' ', '\x7b', '\x7d', '\n']
  | .object ((name, value) :: members) =>
    '\n' :: blanks (column + 2) ++ (name.getD "").toList ++ ':' :: memberValue (column + 2) value ++
      furtherMembers (column + 2) members

end

/-- A value as a document. -/
def write (value : Json) : String := String.ofList (node 0 value)

end HeaderReflection.Yaml
