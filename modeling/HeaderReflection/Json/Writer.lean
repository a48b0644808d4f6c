import HeaderReflection.Json

/-!
# Writing JSON

Values are written over several lines, two blanks for each level, with one item or member a line;
an empty array or object stays on its line. In strings only quotes, backslashes and control
characters are escaped.
-/

namespace HeaderReflection.Json

/-- A hexadecimal digit in lower case. -/
def hexDigit (n : Nat) : Char := if n < 10 then Char.ofNat (48 + n) else Char.ofNat (87 + n)

/-- A character of a string as it is written. -/
def escapeChar (c : Char) : List Char :=
  if c = '"' then ['\\', '"']
  else if c = '\\' then ['\\', '\\']
  else if c = '\x08' then ['\\', 'b']
  else if c = '\x0c' then ['\\', 'f']
  else if c = '\n' then ['\\', 'n']
  else if c = '\r' then ['\\', 'r']
  else if c = '\t' then ['\\', 't']
  else if c.toNat < 0x20 then
    ['\\', 'u', '0', '0', hexDigit (c.toNat / 16), hexDigit (c.toNat % 16)]
  else [c]

/-- A string in quotes. -/
def quote (text : String) : String := String.ofList ('"' :: text.toList.flatMap escapeChar ++ ['"'])

/-- The start of a line at a level. -/
def newLine (level : Nat) : String := "\n" ++ String.ofList (List.replicate (2 * level) ' ')

mutual

/-- A value that stands at a level. -/
def pretty (level : Nat) : Json → String
  | .null => "null"
  | .bool value => if value then "true" else "false"
  | .number text => text
  | .string text => quote (text.getD "")
  | .array [] => "[]"
  | .array (item :: items) =>
    "[" ++ newLine (level + 1) ++ item.pretty (level + 1) ++ prettyItems (level + 1) items ++
      newLine level ++ "]"
  | .object [] => "\x7b\x7d"
  | .object ((name, value) :: members) =>
    "\x7b" ++ newLine (level + 1) ++ quote (name.getD "") ++ ": " ++ value.pretty (level + 1) ++
      prettyMembers (level + 1) members ++ newLine level ++ "\x7d"

/-- The items of an array after its first. -/
def prettyItems (level : Nat) : List Json → String
  | [] => ""
  | item :: items => "," ++ newLine level ++ item.pretty level ++ prettyItems level items

/-- The members of an object after its first. -/
def prettyMembers (level : Nat) : List (JsonText × Json) → String
  | [] => ""
  | (name, value) :: members =>
    "," ++ newLine level ++ quote (name.getD "") ++ ": " ++ value.pretty level ++
      prettyMembers level members

end

/-- A value over several lines. -/
def write (value : Json) : String := value.pretty 0

end HeaderReflection.Json
