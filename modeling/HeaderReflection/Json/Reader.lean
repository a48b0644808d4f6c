import HeaderReflection.Json

/-!
# Reading JSON

A text is first cut into signs and scalars. The values are then put together in one pass with a
stack of the arrays and objects that are open. A text is one value with blanks around it.
-/

namespace HeaderReflection.Json

/-! ## Signs and scalars -/

/-- A sign of the format, or a value that holds no other. -/
inductive Sign
  | openArray
  | closeArray
  | openObject
  | closeObject
  | comma
  | colon
  | scalar (value : Json)

/-- Whether a character may stand between signs. -/
def isBlank (c : Char) : Bool := c = ' ' || c = '\n' || c = '\t' || c = '\r'

/-- The value of a hexadecimal digit. -/
def hexDigit? (c : Char) : Option Nat :=
  if c.isDigit then some (c.toNat - 48)
  else if 'a' ≤ c ∧ c ≤ 'f' then some (c.toNat - 87)
  else if 'A' ≤ c ∧ c ≤ 'F' then some (c.toNat - 55)
  else none

/-- The number that four hexadecimal digits write. -/
def hexUnit? (a b c d : Char) : Option Nat := do
  let a ← hexDigit? a
  let b ← hexDigit? b
  let c ← hexDigit? c
  let d ← hexDigit? d
  return ((a * 16 + b) * 16 + c) * 16 + d

/-- The character that an escape of one letter stands for. -/
def escaped? : Char → Option Char
  | '"' => some '"'
  | '\\' => some '\\'
  | '/' => some '/'
  | 'b' => some '\x08'
  | 'f' => some '\x0c'
  | 'n' => some '\n'
  | 'r' => some '\r'
  | 't' => some '\t'
  | _ => none

/-- The code points and code units of a string after its opening quote, and the text after its
closing one. -/
def stringUnits : List Char → Option (List Nat × List Char)
  | [] => none
  | '"' :: cs => some ([], cs)
  | '\\' :: 'u' :: a :: b :: c :: d :: cs =>
    (hexUnit? a b c d).bind fun unit => (stringUnits cs).map fun p => (unit :: p.1, p.2)
  | '\\' :: e :: cs =>
    (escaped? e).bind fun c => (stringUnits cs).map fun p => (c.toNat :: p.1, p.2)
  | c :: cs =>
    if c.toNat < 0x20 || c = '\\' then none
    else (stringUnits cs).map fun p => (c.toNat :: p.1, p.2)

/-- The characters that code points and code units stand for: two halves of a pair make one
character, and a half alone makes none. -/
def unitsText : List Nat → Option (List Char)
  | [] => some []
  | high :: low :: units =>
    if 0xD800 ≤ high ∧ high < 0xDC00 then
      if 0xDC00 ≤ low ∧ low < 0xE000 then
        (unitsText units).map
          (Char.ofNat (0x10000 + (high - 0xD800) * 0x400 + (low - 0xDC00)) :: ·)
      else none
    else if 0xDC00 ≤ high ∧ high < 0xE000 then none
    else (unitsText (low :: units)).map (Char.ofNat high :: ·)
  | [unit] => if 0xD800 ≤ unit ∧ unit < 0xE000 then none else some [Char.ofNat unit]

/-- Drops the digits at the front of a text, of which there has to be one. -/
def dropDigits (cs : List Char) : Option (List Char) :=
  if cs.head?.any Char.isDigit then some (cs.dropWhile Char.isDigit) else none

/-- Whether a text is a number. -/
def isNumber (cs : List Char) : Bool :=
  (do
    let cs := if cs.head? = some '-' then cs.tail else cs
    let cs ← if cs.head? = some '0' then some cs.tail else dropDigits cs
    let cs ← if cs.head? = some '.' then dropDigits cs.tail else some cs
    let cs ←
      if cs.head? = some 'e' ∨ cs.head? = some 'E' then
        dropDigits (if cs.tail.head? = some '+' ∨ cs.tail.head? = some '-' then cs.tail.tail
          else cs.tail)
      else some cs
    guard cs.isEmpty : Option Unit).isSome

/-- Whether a character may stand in a number. -/
def isNumberChar (c : Char) : Bool :=
  c.isDigit || c = '-' || c = '+' || c = '.' || c = 'e' || c = 'E'

/-- The first sign of a text that starts with no blank, and the text after it. -/
def cutSign (c : Char) (cs : List Char) : Option (Sign × List Char) :=
  match c with
  | '[' => some (.openArray, cs)
  | ']' => some (.closeArray, cs)
  | '\x7b' => some (.openObject, cs)
  | '\x7d' => some (.closeObject, cs)
  | ',' => some (.comma, cs)
  | ':' => some (.colon, cs)
  | '"' =>
    (stringUnits cs).map fun p => (.scalar (.string ((unitsText p.1).map .ofList)), p.2)
  | 'n' => if ['u', 'l', 'l'].isPrefixOf cs then some (.scalar .null, cs.drop 3) else none
  | 't' => if ['r', 'u', 'e'].isPrefixOf cs then some (.scalar (.bool true), cs.drop 3) else none
  | 'f' =>
    if ['a', 'l', 's', 'e'].isPrefixOf cs then some (.scalar (.bool false), cs.drop 4) else none
  | c =>
    let text := c :: cs.takeWhile isNumberChar
    if isNumber text then some (.scalar (.number (.ofList text)), cs.dropWhile isNumberChar)
    else none

theorem length_stringUnits {cs : List Char} {p : List Nat × List Char}
    (h : stringUnits cs = some p) : p.2.length < cs.length := by
  fun_induction stringUnits cs generalizing p with
  | case1 => simp at h
  | case2 => cases h; simp
  | case3 a b c d cs ih =>
    obtain ⟨unit, _, h⟩ := Option.bind_eq_some_iff.1 h
    obtain ⟨q, hq, rfl⟩ := Option.map_eq_some_iff.1 h
    have := ih hq
    simp only [List.length_cons] at *
    omega
  | case4 e cs _ ih =>
    obtain ⟨c, _, h⟩ := Option.bind_eq_some_iff.1 h
    obtain ⟨q, hq, rfl⟩ := Option.map_eq_some_iff.1 h
    have := ih hq
    simp only [List.length_cons] at *
    omega
  | case5 => simp at h
  | case6 c cs _ _ _ _ ih =>
    obtain ⟨q, hq, rfl⟩ := Option.map_eq_some_iff.1 h
    have := ih hq
    simp only [List.length_cons] at *
    omega

theorem length_cutSign_le {c : Char} {cs : List Char} {p : Sign × List Char}
    (h : cutSign c cs = some p) : p.2.length ≤ cs.length := by
  have hdrop := (List.dropWhile_suffix (l := cs) isNumberChar).length_le
  unfold cutSign at h
  split at h
  case h_7 =>
    obtain ⟨q, hq, rfl⟩ := Option.map_eq_some_iff.1 h
    exact Nat.le_of_lt (length_stringUnits hq)
  all_goals first
    | (cases h; simp)
    | (simp only [Option.ite_none_right_eq_some, Option.some.injEq] at h
       obtain ⟨_, rfl⟩ := h
       first
         | exact hdrop
         | simp)

/-- The signs of a text, blanks left out. -/
def signs (cs : List Char) : Option (List Sign) :=
  match cs with
  | [] => some []
  | c :: cs =>
    if isBlank c then signs cs
    else
      match _h : cutSign c cs with
      | none => none
      | some p => (signs p.2).map (p.1 :: ·)
termination_by cs.length
decreasing_by
  · simp
  · have := length_cutSign_le _h
    simp
    omega

/-! ## Values -/

/-- An array or object that is open, with what came before the value that is awaited. -/
inductive Frame
  | array (before : List Json)
  | object (before : List (JsonText × Json)) (name : JsonText)

mutual

/-- Puts the signs together when a value has to come next. -/
def expectValue (open_ : List Frame) (signs : List Sign) : Option Json :=
  match signs with
  | .scalar value :: signs => afterValue open_ value signs
  | .openArray :: .closeArray :: signs => afterValue open_ (.array []) signs
  | .openArray :: signs => expectValue (.array [] :: open_) signs
  | .openObject :: .closeObject :: signs => afterValue open_ (.object []) signs
  | .openObject :: .scalar (.string name) :: .colon :: signs =>
    expectValue (.object [] name :: open_) signs
  | _ => none
termination_by signs.length

/-- Puts the signs together when a value has just come. -/
def afterValue (open_ : List Frame) (value : Json) (signs : List Sign) : Option Json :=
  match open_, signs with
  | [], [] => some value
  | .array before :: open_, .comma :: signs =>
    expectValue (.array (before ++ [value]) :: open_) signs
  | .array before :: open_, .closeArray :: signs =>
    afterValue open_ (.array (before ++ [value])) signs
  | .object before name :: open_, .comma :: .scalar (.string next) :: .colon :: signs =>
    expectValue (.object (before ++ [(name, value)]) next :: open_) signs
  | .object before name :: open_, .closeObject :: signs =>
    afterValue open_ (.object (before ++ [(name, value)])) signs
  | _, _ => none
termination_by signs.length

end

/-- The value that a text writes. -/
def read (text : String) : Option Json := (signs text.toList).bind (expectValue [])

end HeaderReflection.Json
