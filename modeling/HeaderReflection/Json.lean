/-!
# JSON values

A JSON value keeps what the text shows: numbers as they are written, the members of an object in
order and with repeats. The escapes of a JSON string can name half of a pair of code units, which
is no character; a string with such a half is kept as `none`, and is refused wherever its text is
wanted.
-/

namespace HeaderReflection

/-- The text of a JSON string, if its escapes name characters. -/
abbrev JsonText := Option String

/-- A JSON value. -/
inductive Json
  | null
  | bool (value : Bool)
  /-- A number as it is written. -/
  | number (text : String)
  | string (text : JsonText)
  | array (items : List Json)
  /-- The members of an object in order. -/
  | object (members : List (JsonText × Json))
  deriving Repr, Inhabited

namespace Json

/-- A string of characters. -/
def ofString (text : String) : Json := .string (some text)

/-- An object whose names are characters. -/
def ofMembers (members : List (String × Json)) : Json :=
  .object (members.map fun m => (some m.1, m.2))

/-! ## Looking into values -/

/-- The text of a string. -/
def text? : Json → Option String
  | .string text => text
  | _ => none

/-- The items of an array. -/
def items? : Json → Option (List Json)
  | .array items => some items
  | _ => none

/-- The values of a record's fields, in the order of `names`. A record is an object that holds each
of the names at most once and otherwise whatever it likes, or an array of the first fields. -/
def fields? (names : List String) : Json → Option (List (Option Json))
  | .object members =>
    if members.all (·.1.isSome) then
      names.mapM fun name =>
        match members.filter (·.1 = some name) with
        | [] => some none
        | [m] => some (some m.2)
        | _ => none
    else none
  | .array items =>
    if items.length ≤ names.length then
      some (items.map some ++ List.replicate (names.length - items.length) none)
    else none
  | _ => none

end Json

end HeaderReflection
