import HeaderReflection.Token

/-!
# Literals, qualified names and types

The leaves of a declaration: single tokens with a value, names with `::` between their parts, and
the types of members, which are a qualified name followed by whatever else belongs to the type.
-/

namespace HeaderReflection

/-- The kinds of token that have a value of their own. -/
inductive LiteralKind
  | string
  | identifier
  | number
  deriving DecidableEq, Repr, Inhabited

/-- The kind of literal that a token of a category is, if it is one. -/
def LiteralKind.of? : TokenKind → Option LiteralKind
  | .stringLiteral => some string
  | .identifier => some identifier
  | .numberLiteral => some number
  | _ => none

/-- A single word, number or string. -/
structure Literal where
  /-- The token it is written as. -/
  token : Token
  /-- What it is. -/
  kind : LiteralKind
  deriving DecidableEq, Repr, Inhabited

/-- What the literal stands for. -/
def Literal.value (l : Literal) : String := l.token.value

/-- A path of names such as `Engine::Entities::Component`. -/
structure QualifiedName where
  /-- The names, outermost first. -/
  parts : List Literal
  deriving DecidableEq, Repr, Inhabited

namespace QualifiedName

/-- The parts with `::` between them. -/
def text (name : QualifiedName) : String := "::".intercalate (name.parts.map Literal.value)

/-- The last part. -/
def simple (name : QualifiedName) : String := (name.parts.getLast?.map Literal.value).getD ""

end QualifiedName

/-- The type of a member. -/
structure TypeName where
  /-- The name it starts with. -/
  head : QualifiedName
  /-- The tokens after it that still belong to the type: template arguments, `*` and `&`, further
  words such as the `int` of `unsigned int`. -/
  suffix : List Token
  deriving DecidableEq, Repr, Inhabited

namespace TypeName

/-- Whether a text ends in a character that words are made of. -/
def endsInWord (text : List Char) : Bool := text.getLast?.any isWordChar

/-- Adds one token to the text of a type: a blank keeps two words apart, and one follows a
comma. -/
def addToken (text : List Char) (t : Token) : List Char :=
  text ++ (if t.isWord && endsInWord text then [' '] else []) ++ t.text.toList ++
    (if t.kind = .comma then [' '] else [])

/-- The type on one line, with no blanks but those that `addToken` puts. -/
def text (type : TypeName) : String :=
  String.ofList (type.suffix.foldl addToken type.head.text.toList)

end TypeName

end HeaderReflection
