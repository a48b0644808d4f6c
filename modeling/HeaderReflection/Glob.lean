
/-!
# Patterns for paths

A pattern is cut at its slashes. The part `**` stands for any number of directories; every other
part is matched against one name: `?` stands for one character, `*` for any number of them, and
brackets for one character of a set. Two stars in a row may only be a part of their own, and a
bracket has to be closed; a text that breaks these rules is no pattern.
-/

namespace HeaderReflection.Glob

/-- An element of a part of a pattern. -/
inductive Element
  | char (c : Char)
  /-- Any one character. -/
  | any
  /-- Any characters, also none. -/
  | run
  /-- One character that lies in one of the ranges, or in none of them if negated. -/
  | set (negated : Bool) (ranges : List (Char × Char))
  deriving DecidableEq, Repr

/-- A part of a pattern. -/
inductive Part
  /-- Any number of directories. -/
  | anyDepth
  /-- One name. -/
  | name (elements : List Element)
  deriving DecidableEq, Repr

/-- A pattern. -/
structure Pattern where
  /-- Whether it starts at the root. -/
  absolute : Bool
  /-- What stands between its slashes. -/
  parts : List Part
  /-- Whether it ends in a slash and so stands for directories alone. -/
  directoriesOnly : Bool
  deriving DecidableEq, Repr

/-- Whether a text is meant as a pattern. -/
def isPattern (text : String) : Bool := text.toList.any fun c => c = '*' || c = '?' || c = '['

/-! ## Reading patterns -/

/-- The ranges that the text between brackets writes. -/
def ranges : List Char → List (Char × Char)
  | low :: '-' :: high :: cs => (low, high) :: ranges cs
  | c :: cs => (c, c) :: ranges cs
  | [] => []

/-- Splits a text after the bracket that closes a set; the first character of a set closes
nothing. -/
def splitSet? : List Char → Option (List Char × List Char)
  | [] => none
  | c :: cs =>
    if cs.contains ']' then some (c :: cs.takeWhile (· ≠ ']'), (cs.dropWhile (· ≠ ']')).tail)
    else none

theorem length_splitSet? {cs : List Char} {p : List Char × List Char} (h : splitSet? cs = some p) :
    p.2.length < cs.length := by
  cases cs with
  | nil => simp [splitSet?] at h
  | cons c cs =>
    simp only [splitSet?, Option.ite_none_right_eq_some, Option.some.injEq] at h
    obtain ⟨_, rfl⟩ := h
    have := (List.dropWhile_suffix (fun x => decide (x ≠ ']')) : _ <:+ cs).length_le
    simp only [List.length_tail, List.length_cons]
    omega

/-- The elements of a part. -/
def elements? (cs : List Char) : Option (List Element) :=
  match cs with
  | [] => some []
  | '?' :: cs => (elements? cs).map (.any :: ·)
  | '*' :: cs => if cs.head? = some '*' then none else (elements? cs).map (.run :: ·)
  | '[' :: '!' :: cs =>
    match _h : splitSet? cs with
    | none => none
    | some p => (elements? p.2).map (.set true (ranges p.1) :: ·)
  | '[' :: cs =>
    match _h : splitSet? cs with
    | none => none
    | some p => (elements? p.2).map (.set false (ranges p.1) :: ·)
  | c :: cs => (elements? cs).map (.char c :: ·)
termination_by cs.length
decreasing_by
  · simp
  · simp
  · have := length_splitSet? _h
    simp
    omega
  · have := length_splitSet? _h
    simp
    omega
  · simp

/-- The part that a text writes. -/
def part? (cs : List Char) : Option Part :=
  if cs = ['*', '*'] then some .anyDepth else (elements? cs).map .name

/-- The pattern that a text writes. -/
def pattern? (text : String) : Option Pattern :=
  let cs := text.toList
  let absolute := cs.head? = some '/'
  let pieces := (if absolute then cs.tail else cs).splitOn '/'
  let pieces := if pieces.getLast? = some [] then pieces.dropLast else pieces
  (pieces.mapM part?).map fun parts => ⟨absolute, parts, cs.getLast? = some '/'⟩

/-! ## Matching names -/

/-- Whether an element takes a character. -/
def Element.takes (c : Char) : Element → Bool
  | char x => c = x
  | any => true
  | run => true
  | set negated ranges => ranges.any (fun r => r.1 ≤ c && c ≤ r.2) != negated

/-- Whether the elements stand for a whole name. -/
def standsFor : List Element → List Char → Bool
  | [], cs => cs.isEmpty
  | .run :: es, [] => standsFor es []
  | .run :: es, c :: cs => standsFor es (c :: cs) || standsFor (.run :: es) cs
  | _ :: _, [] => false
  | e :: es, c :: cs => e.takes c && standsFor es cs
termination_by es cs => es.length + cs.length

/-- The name that the elements stand for, if it is a single one. -/
def literal? (elements : List Element) : Option String :=
  (elements.mapM fun e => match e with
    | Element.char c => some c
    | _ => none).map String.ofList

end HeaderReflection.Glob
