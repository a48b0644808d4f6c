/-!
# Settings documents

The part of TOML in which settings are written: keys at the top of the document with strings, truth
values and arrays of strings. A document with anything else holds no settings, so it is refused
like one that is not TOML at all.
-/

namespace HeaderReflection.Settings

/-- A value of a document. -/
inductive Value
  | text (value : String)
  | flag (value : Bool)
  | texts (values : List String)
  deriving DecidableEq, Repr

namespace Document

/-! ## Characters -/

/-- Whether a character may stand in a comment or a string as it is. -/
def isPlain (c : Char) : Bool := c = '\t' || (0x20 ≤ c.toNat && c.toNat ≠ 0x7f)

/-- Whether a character may stand in a key without quotes. -/
def isBare (c : Char) : Bool := c.isAlphanum || c = '_' || c = '-'

/-- Whether a character is a blank inside a line. -/
def isBlank (c : Char) : Bool := c = ' ' || c = '\t'

/-- Drops blanks inside a line. -/
def skipBlanks (cs : List Char) : List Char := cs.dropWhile isBlank

/-- The value of a hexadecimal digit. -/
def hexDigit? (c : Char) : Option Nat :=
  if c.isDigit then some (c.toNat - 48)
  else if 'a' ≤ c ∧ c ≤ 'f' then some (c.toNat - 87)
  else if 'A' ≤ c ∧ c ≤ 'F' then some (c.toNat - 55)
  else none

/-- The character whose number some hexadecimal digits write. -/
def hexChar? (digits : List Char) : Option Char := do
  let n ← digits.foldlM (fun n c => (hexDigit? c).map (n * 16 + ·)) 0
  if n.isValidChar then some (Char.ofNat n) else none

/-- The character that an escape of one letter stands for. -/
def escaped? : Char → Option Char
  | '"' => some '"'
  | '\\' => some '\\'
  | 'b' => some '\x08'
  | 'f' => some '\x0c'
  | 'n' => some '\n'
  | 'r' => some '\r'
  | 't' => some '\t'
  | _ => none

/-- Drops blanks and line ends; a carriage return has to stand before a line feed. -/
def skipSpace : List Char → List Char
  | '\r' :: '\n' :: cs => skipSpace cs
  | c :: cs => if isBlank c || c = '\n' then skipSpace cs else c :: cs
  | [] => []

/-! ## Strings

Each reader takes the text after the opening quotes and gives the characters of the string with the
text after the closing quotes. -/

/-- A string in double quotes, on one line. -/
def basic : List Char → Option (List Char × List Char)
  | [] => none
  | '"' :: cs => some ([], cs)
  | '\\' :: 'u' :: a :: b :: c :: d :: cs =>
    (hexChar? [a, b, c, d]).bind fun x => (basic cs).map fun p => (x :: p.1, p.2)
  | '\\' :: 'U' :: a :: b :: c :: d :: e :: f :: g :: h :: cs =>
    (hexChar? [a, b, c, d, e, f, g, h]).bind fun x => (basic cs).map fun p => (x :: p.1, p.2)
  | '\\' :: e :: cs => (escaped? e).bind fun x => (basic cs).map fun p => (x :: p.1, p.2)
  | c :: cs => if isPlain c && c ≠ '\\' then (basic cs).map fun p => (c :: p.1, p.2) else none

/-- A string in single quotes, on one line. -/
def literal : List Char → Option (List Char × List Char)
  | [] => none
  | '\'' :: cs => some ([], cs)
  | c :: cs => if isPlain c then (literal cs).map fun p => (c :: p.1, p.2) else none

/-- The closing of a string over several lines: three quotes, or up to two more of which the first
ones still belong to the string. -/
def closing? (quote : Char) (cs : List Char) : Option (List Char × List Char) :=
  let quotes := (cs.take 5).takeWhile (· = quote)
  if 3 ≤ quotes.length then some (quotes.drop 3, cs.drop quotes.length) else none

/-- A string in triple double quotes. While `folding`, blanks and line ends are dropped. -/
def basicLines (folding : Bool) : List Char → Option (List Char × List Char)
  | [] => none
  | c :: cs =>
    match closing? '"' (c :: cs) with
    | some p => some p
    | none =>
      if folding && (isBlank c || c = '\n') then basicLines true cs
      else
        match c, cs with
        | '\r', '\n' :: cs =>
          if folding then basicLines true cs
          else (basicLines false cs).map fun p => ('\n' :: p.1, p.2)
        | '\\', 'u' :: a :: b :: c :: d :: cs =>
          (hexChar? [a, b, c, d]).bind fun x =>
            (basicLines false cs).map fun p => (x :: p.1, p.2)
        | '\\', 'U' :: a :: b :: c :: d :: e :: f :: g :: h :: cs =>
          (hexChar? [a, b, c, d, e, f, g, h]).bind fun x =>
            (basicLines false cs).map fun p => (x :: p.1, p.2)
        | '\\', e :: cs =>
          match escaped? e with
          | some x => (basicLines false cs).map fun p => (x :: p.1, p.2)
          | none =>
            match skipBlanks (e :: cs) with
            | '\n' :: _ => basicLines true cs
            | '\r' :: '\n' :: _ => if e = '\r' then basicLines true cs.tail else basicLines true cs
            | _ => none
        | c, cs =>
          if (isPlain c && c ≠ '\\') || c = '\n' then
            (basicLines false cs).map fun p => (c :: p.1, p.2)
          else none
termination_by cs => cs.length
decreasing_by all_goals (simp only [List.length_cons, List.length_tail]; omega)

/-- A string in triple single quotes. -/
def literalLines : List Char → Option (List Char × List Char)
  | [] => none
  | c :: cs =>
    match closing? '\'' (c :: cs) with
    | some p => some p
    | none =>
      match c, cs with
      | '\r', '\n' :: cs => (literalLines cs).map fun p => ('\n' :: p.1, p.2)
      | c, cs =>
        if isPlain c || c = '\n' then (literalLines cs).map fun p => (c :: p.1, p.2) else none

/-- Drops the line end that may follow triple quotes. -/
def skipLineEnd : List Char → List Char
  | '\n' :: cs => cs
  | '\r' :: '\n' :: cs => cs
  | cs => cs

/-- A string of any kind. -/
def string : List Char → Option (List Char × List Char)
  | '"' :: '"' :: '"' :: cs => basicLines false (skipLineEnd cs)
  | '\'' :: '\'' :: '\'' :: cs => literalLines (skipLineEnd cs)
  | '"' :: cs => basic cs
  | '\'' :: cs => literal cs
  | _ => none

/-! ## Values -/

/-- Drops blanks, line ends and comments. -/
def skipLayout (inComment : Bool) : List Char → Option (List Char)
  | [] => some []
  | '\r' :: '\n' :: cs => skipLayout false cs
  | '\n' :: cs => skipLayout false cs
  | c :: cs =>
    if inComment then if isPlain c then skipLayout true cs else none
    else if isBlank c then skipLayout false cs
    else if c = '#' then skipLayout true cs
    else some (c :: cs)

/-- The strings of an array after its opening bracket, at most so many. -/
def strings : Nat → List Char → Option (List String × List Char)
  | 0, _ => none
  | limit + 1, cs => do
    match ← skipLayout false cs with
    | ']' :: cs => return ([], cs)
    | cs =>
      let (text, cs) ← string cs
      match ← skipLayout false cs with
      | ']' :: cs => return ([.ofList text], cs)
      | ',' :: cs =>
        let (texts, cs) ← strings limit cs
        return (.ofList text :: texts, cs)
      | _ => none

/-- A value. -/
def value (cs : List Char) : Option (Value × List Char) :=
  match cs with
  | 't' :: 'r' :: 'u' :: 'e' :: cs => some (.flag true, cs)
  | 'f' :: 'a' :: 'l' :: 's' :: 'e' :: cs => some (.flag false, cs)
  | '[' :: cs => (strings (cs.length + 1) cs).map fun p => (.texts p.1, p.2)
  | cs => (string cs).map fun p => (.text (.ofList p.1), p.2)

/-- A key. -/
def key (cs : List Char) : Option (String × List Char) :=
  match cs with
  | '"' :: cs => (basic cs).map fun p => (.ofList p.1, p.2)
  | '\'' :: cs => (literal cs).map fun p => (.ofList p.1, p.2)
  | cs =>
    if cs.head?.any isBare then some (.ofList (cs.takeWhile isBare), cs.dropWhile isBare) else none

/-- What follows the rest of a line, in which only a comment may stand. -/
def endLine (cs : List Char) : Option (List Char) :=
  match skipBlanks cs with
  | [] => some []
  | '\n' :: cs => some cs
  | '\r' :: '\n' :: cs => some cs
  | '#' :: cs => skipLayout true cs
  | _ => none

/-- The keys and values of a document, at most so many. -/
def pairs : Nat → List Char → Option (List (String × Value))
  | 0, _ => none
  | limit + 1, cs => do
    match ← skipLayout false cs with
    | [] => return []
    | cs =>
      let (key, cs) ← key cs
      match skipBlanks cs with
      | '=' :: cs =>
        let (value, cs) ← value (skipBlanks cs)
        let more ← pairs limit (← endLine cs)
        return (key, value) :: more
      | _ => none

/-- The keys and values of a document, which may start with a byte order mark. -/
def read (text : String) : Option (List (String × Value)) :=
  let cs := text.toList
  let cs := if cs.head? = some '\uFEFF' then cs.tail else cs
  pairs (cs.length + 1) cs

end Document

end HeaderReflection.Settings
