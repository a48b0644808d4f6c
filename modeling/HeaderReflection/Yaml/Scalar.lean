/-!
# Scalars in YAML

A text is written plain when a reader takes it back as that text: it must not look like a null, a
truth value or a number, and it must hold no sign that means something in a block. Otherwise it
stands in single quotes, or in double quotes if some character needs an escape. A text of several
lines is written line by line after a `|`.
-/

namespace HeaderReflection.Yaml

/-! ## Texts that read as something else -/

/-- The number that digits of a base write, if there are any and nothing else. -/
def digits? (base : Nat) (cs : List Char) : Option Nat :=
  if cs = [] then none
  else cs.foldlM (fun n c =>
    let value :=
      if c.isDigit then c.toNat - 48
      else if 'a' ≤ c ∧ c ≤ 'f' then c.toNat - 87
      else if 'A' ≤ c ∧ c ≤ 'F' then c.toNat - 55
      else base
    if value < base then some (n * base + value) else none) 0

/-- The number that a text with the sign of its base writes. -/
def basedNumber? (cs : List Char) : Option Nat :=
  match cs with
  | '0' :: 'x' :: cs => digits? 16 cs
  | '0' :: 'o' :: cs => digits? 8 cs
  | '0' :: 'b' :: cs => digits? 2 cs
  | _ => none

/-- Whether a text writes a whole number in base 16, 8 or 2 that fits into 128 bits. -/
def isBasedNumber (cs : List Char) : Bool :=
  match cs with
  | '-' :: cs => (basedNumber? cs).any (· ≤ Nat.pow 2 127)
  | '+' :: cs => (basedNumber? cs).any (· < Nat.pow 2 128)
  | cs => (basedNumber? cs).any (· < Nat.pow 2 128)

/-- Whether `mantissa · 10 ^ exponent` is rounded to a finite number of double precision. -/
def isFinite (mantissa : Nat) (exponent : Int) : Bool :=
  let bound := Nat.pow 2 1024 - Nat.pow 2 970
  let magnitude := (Nat.toDigits 10 mantissa).length + exponent
  if mantissa = 0 ∨ magnitude ≤ 308 then true
  else if magnitude > 309 then false
  else if 0 ≤ exponent then mantissa * Nat.pow 10 exponent.toNat < bound
  else mantissa < bound * Nat.pow 10 (-exponent).toNat

/-- The exponent that the end of a decimal number writes. -/
def exponent? (cs : List Char) : Option Int :=
  match cs with
  | [] => some 0
  | c :: cs =>
    if c = 'e' ∨ c = 'E' then
      match cs with
      | '-' :: cs => (digits? 10 cs).map fun n => -(n : Int)
      | '+' :: cs => (digits? 10 cs).map Int.ofNat
      | cs => (digits? 10 cs).map Int.ofNat
    else none

/-- Whether a text without a sign writes a finite decimal number. -/
def isUnsignedDecimal (cs : List Char) : Bool :=
  let whole := cs.takeWhile Char.isDigit
  let afterWhole := cs.dropWhile Char.isDigit
  let fraction := if afterWhole.head? = some '.' then afterWhole.tail.takeWhile Char.isDigit else []
  let rest :=
    if afterWhole.head? = some '.' then afterWhole.tail.dropWhile Char.isDigit else afterWhole
  match digits? 10 (whole ++ fraction), exponent? rest with
  | some mantissa, some exponent => isFinite mantissa (exponent - fraction.length)
  | _, _ => false

/-- Whether a text writes a decimal number: a finite one, an infinite one or none at all. -/
def isDecimal (cs : List Char) : Bool :=
  let unsigned := if cs.head? = some '+' ∨ cs.head? = some '-' then cs.tail else cs
  let infinities : List (List Char) :=
    [['.', 'i', 'n', 'f'], ['.', 'I', 'n', 'f'], ['.', 'I', 'N', 'F']]
  let nans : List (List Char) := [['.', 'n', 'a', 'n'], ['.', 'N', 'a', 'N'], ['.', 'N', 'A', 'N']]
  infinities.contains unsigned || nans.contains cs || isUnsignedDecimal unsigned

/-- Whether a text consists of digits that no number starts with: a zero and then more. -/
def isZeroLed (cs : List Char) : Bool :=
  let unsigned := if cs.head? = some '+' ∨ cs.head? = some '-' then cs.tail else cs
  unsigned.length > 1 && unsigned.head? = some '0' && unsigned.all Char.isDigit

/-- The words that stand for no value or a truth value. -/
def words : List String :=
  ["", "null", "Null", "NULL", "~", "true", "True", "TRUE", "false", "False", "FALSE"]

/-- Whether a plain text would be read as something else than this text. -/
def isAmbiguous (cs : List Char) : Bool :=
  words.contains (String.ofList cs) || isBasedNumber cs || isDecimal cs || isZeroLed cs

/-! ## Characters -/

/-- Whether a character ends a line. -/
def isBreak (c : Char) : Bool :=
  c = '\n' || c = '\r' || c = '\x85' || c = '\u2028' || c = '\u2029'

/-- Whether a character separates words, as the end of the text does. -/
def isSeparator (c : Char) : Bool := c = ' ' || c = '\t' || c = '\x00' || isBreak c

/-- Whether a character is written as it is. -/
def isPrintable (c : Char) : Bool :=
  c = '\n' || (0x20 ≤ c.toNat && c.toNat ≤ 0x7e) ||
    (0xa0 ≤ c.toNat && c ≠ '\uFEFF' && c ≠ '\uFFFE' && c ≠ '\uFFFF')

/-- The signs that mean something at the start of a text. -/
def indicators : List Char :=
  ['#', ',', '[', ']', '\x7b', '\x7d', '&', '*', '!', '|', '>', '\'', '"', '%', '@', '\x60']

/-! ## Styles -/

/-- Whether what follows a character separates it from the next word. -/
def endsWord (cs : List Char) : Bool := cs.head?.all isSeparator

/-- Whether a `:` before a separator or a `#` after one occurs, `before` being the character in
front of the text. -/
def hasInnerIndicator (before : Char) : List Char → Bool
  | [] => false
  | c :: cs =>
    (c = ':' && endsWord cs) || (c = '#' && isSeparator before) || hasInnerIndicator c cs

/-- Whether a text holds a sign that means something in a block. -/
def hasIndicator (cs : List Char) : Bool :=
  ['-', '-', '-'].isPrefixOf cs || ['.', '.', '.'].isPrefixOf cs ||
    match cs with
    | [] => false
    | c :: cs =>
      indicators.contains c || ((c = '?' || c = ':' || c = '-') && endsWord cs) ||
        hasInnerIndicator c cs

/-- Whether two characters with given properties occur side by side. -/
def hasPair (first second : Char → Bool) : List Char → Bool
  | c :: d :: cs => (first c && second d) || hasPair first second (d :: cs)
  | _ => false

/-- Whether a character is a blank at which a line may end. -/
def isSpace (c : Char) : Bool := c = ' '

/-- Whether a text holds something that only double quotes can keep. -/
def needsEscape (cs : List Char) : Bool :=
  cs.any (!isPrintable ·) || hasPair isSpace isBreak cs

/-- How a text is written. -/
inductive Style
  | plain
  | singleQuoted
  | doubleQuoted
  | literal
  deriving DecidableEq, Repr

/-- The style of a text. -/
def style (cs : List Char) : Style :=
  if cs.contains '\n' then
    if needsEscape cs || cs.getLast?.any isSpace then .doubleQuoted else .literal
  else if needsEscape cs || hasPair isBreak isSpace cs then .doubleQuoted
  else if isAmbiguous cs || hasIndicator cs || cs.any isBreak || cs.head?.any isSpace ||
      cs.getLast?.any isSpace then .singleQuoted
  else .plain

/-! ## Writing -/

/-- So many blanks. -/
def blanks (indent : Nat) : List Char := List.replicate indent ' '

/-- A hexadecimal digit in upper case. -/
def hexDigit (n : Nat) : Char := if n < 10 then Char.ofNat (48 + n) else Char.ofNat (55 + n)

/-- A number in so many hexadecimal digits. -/
def hexDigits : Nat → Nat → List Char
  | 0, _ => []
  | width + 1, n => hexDigits width (n / 16) ++ [hexDigit (n % 16)]

/-- A character in double quotes. -/
def escapeChar (c : Char) : List Char :=
  if isPrintable c && !isBreak c && c ≠ '"' && c ≠ '\\' then [c]
  else
    '\\' :: match c.toNat with
      | 0x00 => ['0']
      | 0x07 => ['a']
      | 0x08 => ['b']
      | 0x09 => ['t']
      | 0x0a => ['n']
      | 0x0b => ['v']
      | 0x0c => ['f']
      | 0x0d => ['r']
      | 0x1b => ['e']
      | 0x22 => ['"']
      | 0x5c => ['\\']
      | 0x85 => ['N']
      | 0x2028 => ['L']
      | 0x2029 => ['P']
      | n =>
        if n ≤ 0xff then 'x' :: hexDigits 2 n
        else if n ≤ 0xffff then 'u' :: hexDigits 4 n
        else 'U' :: hexDigits 8 n

/-- The lines of a text, each with blanks in front but for empty ones; `fresh` tells that a line
starts. -/
def indentLines (indent : Nat) (fresh : Bool) : List Char → List Char
  | [] => []
  | c :: cs =>
    if isBreak c then c :: indentLines indent true cs
    else (if fresh then blanks indent else []) ++ c :: indentLines indent false cs

/-- What a text in single quotes holds: a quote is written twice, and a line that is not the first
has blanks in front. -/
def singleQuotedBody (indent : Nat) (fresh : Bool) : List Char → List Char
  | [] => if fresh then blanks indent else []
  | c :: cs =>
    if isBreak c then c :: singleQuotedBody indent true cs
    else (if fresh then blanks indent else []) ++ (if c = '\'' then [c, c] else [c]) ++
      singleQuotedBody indent false cs

/-- The sign in front of the lines of a text: how deep they stand, if their own blanks would hide
it, and what becomes of the line ends after the last line. -/
def literalHeader (cs : List Char) : List Char :=
  let depth := if cs.head?.any fun c => isSpace c || isBreak c then ['2'] else []
  let chomping :=
    match cs.reverse with
    | [] => ['-']
    | [c] => if isBreak c then ['+'] else ['-']
    | c :: d :: _ => if !isBreak c then ['-'] else if isBreak d then ['+'] else []
  '|' :: depth ++ chomping

/-- A text to the end of its last line; lines of its own stand behind so many blanks. -/
def scalar (indent : Nat) (text : String) : List Char :=
  let cs := text.toList
  match style cs with
  | .plain => cs ++ ['\n']
  | .singleQuoted => '\'' :: singleQuotedBody indent false cs ++ ['\'', '\n']
  | .doubleQuoted => '"' :: cs.flatMap escapeChar ++ ['"', '\n']
  | .literal =>
    literalHeader cs ++ '\n' :: indentLines indent true cs ++
      if cs.getLast?.any isBreak then [] else ['\n']

end HeaderReflection.Yaml
