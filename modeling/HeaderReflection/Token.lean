import HeaderReflection.Position
import HeaderReflection.Unicode.Classes

/-!
# Tokens

A token is a piece of C++ text with its category and the position where it starts. Blanks, line
ends and comments are tokens too, called trivia, so the texts of all tokens of a file put together
give the file back.
-/

namespace HeaderReflection

/-- The category of a token. -/
inductive TokenKind
  | space
  | lineEnd
  | comment
  | openBracket
  | closeBracket
  | openBrace
  | closeBrace
  | openParen
  | closeParen
  /-- Two opening brackets, which start a group of attributes. -/
  | attributeOpen
  /-- Two closing brackets, which end a group of attributes. -/
  | attributeClose
  | colon
  | comma
  | semicolon
  | classKeyword
  | structKeyword
  | namespaceKeyword
  | autoKeyword
  | publicKeyword
  | privateKeyword
  | protectedKeyword
  | templateKeyword
  | usingKeyword
  /-- The sign that starts a directive. -/
  | hash
  /-- A word that is no keyword, or any other single sign. -/
  | identifier
  | numberLiteral
  | stringLiteral
  | charLiteral
  deriving DecidableEq, Repr, Inhabited

namespace TokenKind

/-- The keyword that a word is, if it is one. -/
def keyword? : List Char → Option TokenKind
  | ['c', 'l', 'a', 's', 's'] => some classKeyword
  | ['s', 't', 'r', 'u', 'c', 't'] => some structKeyword
  | ['n', 'a', 'm', 'e', 's', 'p', 'a', 'c', 'e'] => some namespaceKeyword
  | ['a', 'u', 't', 'o'] => some autoKeyword
  | ['p', 'u', 'b', 'l', 'i', 'c'] => some publicKeyword
  | ['p', 'r', 'i', 'v', 'a', 't', 'e'] => some privateKeyword
  | ['p', 'r', 'o', 't', 'e', 'c', 't', 'e', 'd'] => some protectedKeyword
  | ['t', 'e', 'm', 'p', 'l', 'a', 't', 'e'] => some templateKeyword
  | ['u', 's', 'i', 'n', 'g'] => some usingKeyword
  | _ => none

/-- The category of a sign that stands alone; a sign without one of its own is an identifier. -/
def ofSign (c : Char) : TokenKind :=
  match c with
  | '[' => openBracket
  | ']' => closeBracket
  | '\x7b' => openBrace
  | '\x7d' => closeBrace
  | '(' => openParen
  | ')' => closeParen
  | ':' => colon
  | ',' => comma
  | ';' => semicolon
  | '#' => hash
  | _ => identifier

/-- Blanks, line ends and comments, which carry no declarations. -/
def isTrivia : TokenKind → Bool
  | space | lineEnd | comment => true
  | _ => false

/-- The keywords that set the access of the members or bases after them. -/
def isAccess : TokenKind → Bool
  | publicKeyword | privateKeyword | protectedKeyword => true
  | _ => false

/-- The category as messages name it. -/
def describe : TokenKind → String
  | space => "whitespace"
  | lineEnd => "end of line"
  | comment => "comment"
  | openBracket => "'['"
  | closeBracket => "']'"
  | openBrace => "'\x7b'"
  | closeBrace => "'\x7d'"
  | openParen => "'('"
  | closeParen => "')'"
  | attributeOpen => "'[['"
  | attributeClose => "']]'"
  | colon => "':'"
  | comma => "','"
  | semicolon => "';'"
  | classKeyword => "'class'"
  | structKeyword => "'struct'"
  | namespaceKeyword => "'namespace'"
  | autoKeyword => "'auto'"
  | publicKeyword => "'public'"
  | privateKeyword => "'private'"
  | protectedKeyword => "'protected'"
  | templateKeyword => "'template'"
  | usingKeyword => "'using'"
  | hash => "'#'"
  | identifier => "identifier"
  | numberLiteral => "number literal"
  | stringLiteral => "string literal"
  | charLiteral => "character literal"

end TokenKind

/-- Whether a character may start a word. -/
def isWordStart (c : Char) : Bool := Unicode.isAlphabetic c || c = '_'

/-- Whether a character may go on with a word. -/
def isWordChar (c : Char) : Bool := Unicode.isAlphanumeric c || c = '_'

/-- A piece of text with its category and place. -/
structure Token where
  /-- The category. -/
  kind : TokenKind
  /-- The characters as they stand in the text; a string keeps its quotes. -/
  text : String
  /-- Where the first character stands. -/
  position : Position := {}
  deriving DecidableEq, Repr, Inhabited

namespace Token

/-- Drops one double quote at each end of a text, where there is one. -/
def unquote (cs : List Char) : List Char :=
  let body := if cs.head? = some '"' then cs.tail else cs
  if body.getLast? = some '"' then body.dropLast else body

/-- What a literal stands for: the contents of a string, the text itself of anything else. -/
def value (t : Token) : String :=
  if t.kind = .stringLiteral then String.ofList (unquote t.text.toList) else t.text

/-- Whether the text starts like a word or a number. -/
def isWord (t : Token) : Bool := t.text.toList.head?.any isWordChar

/-- The token as messages show it. -/
def describe (t : Token) : String :=
  s!"{t.kind.describe} '{t.text}' at {t.position.describe}"

/-- The tokens that carry declarations. -/
def significant (ts : List Token) : List Token := ts.filter fun t => !t.kind.isTrivia

theorem value_of_kind_ne {t : Token} (h : t.kind ≠ .stringLiteral) : t.value = t.text := by
  simp [value, h]

theorem mem_significant {t : Token} {ts : List Token} :
    t ∈ significant ts ↔ t ∈ ts ∧ t.kind.isTrivia = false := by
  simp [significant]

end Token

end HeaderReflection
