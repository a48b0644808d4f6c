import HeaderReflection.Unicode.Classes

/-!
# Include directives

The includes of a text are told line by line. A line has one if it starts with `#`, `include` and a
nonempty target between delimiters, with blanks and tabs allowed before each of them; what follows
the target does not matter. The two delimiters need not be of one kind.
-/

namespace HeaderReflection.Include

/-- Whether a character may stand between the parts of a directive. -/
def isGap (c : Char) : Bool := c = ' ' || c = '\t'

/-- Whether a character may stand in the target of a directive. -/
def isTarget (c : Char) : Bool := c ≠ '<' && c ≠ '>' && c ≠ '"'

/-- The word of the directive. -/
def word : List Char := ['i', 'n', 'c', 'l', 'u', 'd', 'e']

/-- The target at the front of a text, up to the delimiter that has to close it. -/
def target? (cs : List Char) : Option (List Char) :=
  match cs.takeWhile isTarget, (cs.dropWhile isTarget).head? with
  | [], _ => none
  | target, some c => if c = '>' ∨ c = '"' then some target else none
  | _, none => none

/-- The target that a line includes, if it includes one. -/
def ofLine? (line : List Char) : Option (List Char) :=
  match line.dropWhile isGap with
  | '#' :: cs =>
    let cs := cs.dropWhile isGap
    if word.isPrefixOf cs then
      match (cs.drop word.length).dropWhile isGap with
      | '<' :: cs => target? cs
      | '"' :: cs => target? cs
      | _ => none
    else none
  | _ => none

/-- The targets that a text includes, in order, without the blanks around them. -/
def all (text : List Char) : List (List Char) :=
  ((text.splitOn '\n').filterMap ofLine?).map Unicode.trim

/-- The targets that a text includes. -/
def allOfString (text : String) : List String := (all text.toList).map String.ofList

theorem all_append_newline (a b : List Char) : all (a ++ '\n' :: b) = all a ++ all b := by
  simp [all, List.splitOn_append_cons_self]

end HeaderReflection.Include
