/-!
# Paths

A path is kept as it is written, because messages and answers show it so. Two paths are the same
when their components are: repeated slashes, a slash at the end and every `.` but one at the start
make no difference.
-/

namespace HeaderReflection

/-- A path as it is written, with `/` between the names. -/
structure Path where
  /-- The text of the path. -/
  text : String
  deriving DecidableEq, Repr, Inhabited

/-- The names that lead from the root of the file tree to an entry. -/
abbrev Place := List String

namespace Path

/-- One step of a path. -/
inductive Component
  /-- The root of the file tree. -/
  | root
  /-- The directory where a path starts, written out at its front. -/
  | here
  /-- The directory above. -/
  | up
  | name (text : String)
  deriving DecidableEq, Repr

/-- The texts between the slashes. -/
def pieces (p : Path) : List String := (p.text.toList.splitOn '/').map String.ofList

/-- A path with the given texts between its slashes. -/
def ofPieces (pieces : List String) : Path := ⟨"/".intercalate pieces⟩

/-- The path of a place. -/
def ofPlace (place : Place) : Path := ⟨"/" ++ "/".intercalate place⟩

/-- Whether a path starts at the root. -/
def isAbsolute (p : Path) : Bool := p.text.toList.head? = some '/'

/-- Whether a text between slashes leads nowhere. -/
def isIdle (piece : String) : Bool := piece = "" || piece = "."

/-- The component that a text between slashes is, if it leads anywhere. -/
def component? (piece : String) : Option Component :=
  if isIdle piece then none else if piece = ".." then some .up else some (.name piece)

/-- The steps of a path. -/
def components (p : Path) : List Component :=
  if p.isAbsolute then .root :: p.pieces.filterMap component?
  else if p.pieces.head? = some "." then .here :: p.pieces.filterMap component?
  else p.pieces.filterMap component?

/-- The steps of the path of a place. -/
def placeComponents (place : Place) : List Component := .root :: place.map .name

/-- A path that goes on from another one, unless it starts at the root. -/
def join (p q : Path) : Path :=
  if q.isAbsolute then q
  else if p.text = "" ∨ p.text.toList.getLast? = some '/' then ⟨p.text ++ q.text⟩
  else ⟨p.text ++ "/" ++ q.text⟩

/-- The name that a path ends in. -/
def fileName? (p : Path) : Option String :=
  match p.components.getLast? with
  | some (.name text) => some text
  | _ => none

/-- What follows the last dot of a name, unless that dot is the first character. -/
def extensionOf? (name : String) : Option String :=
  let reversed := name.toList.reverse
  let stem := (reversed.dropWhile (· ≠ '.')).tail
  if stem = [] then none else some (String.ofList (reversed.takeWhile (· ≠ '.')).reverse)

/-- The extension of the name that a path ends in. -/
def extension? (p : Path) : Option String := p.fileName?.bind extensionOf?

/-- Drops the texts at the end that lead nowhere. -/
def trimPieces (pieces : List String) : List String := (pieces.reverse.dropWhile isIdle).reverse

/-- A path without its last component. -/
def parent? (p : Path) : Option Path :=
  let (lead, body) :=
    if p.isAbsolute ∨ p.pieces.head? = some "." then (p.pieces.take 1, p.pieces.drop 1)
    else ([], p.pieces)
  match trimPieces body with
  | [] => if lead = ["."] then some ⟨""⟩ else none
  | body =>
    match lead ++ trimPieces body.dropLast with
    | [""] => some ⟨"/"⟩
    | pieces => some (ofPieces pieces)

/-- Drops the texts of the first `n` components. -/
def dropComponents : Nat → List String → List String
  | 0, pieces => pieces.dropWhile isIdle
  | _ + 1, [] => []
  | n + 1, piece :: pieces =>
    if isIdle piece then dropComponents (n + 1) pieces else dropComponents n pieces

/-- What remains of a path below a place, if it leads there. -/
def below? (place : Place) (p : Path) : Option Path :=
  if (placeComponents place).isPrefixOf p.components then
    some (ofPieces (trimPieces (dropComponents place.length p.pieces)))
  else none

end Path

end HeaderReflection
