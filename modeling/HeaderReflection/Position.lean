/-!
# Positions in a text

A position counts the characters before it and names its line and column. It is moved past one
character at a time, so the position after a text is a fold over the text's characters.
-/

namespace HeaderReflection

/-- A place in a text. -/
structure Position where
  /-- The number of characters before it. -/
  offset : Nat := 0
  /-- The line, counted from one. -/
  line : Nat := 1
  /-- The column, counted from one. -/
  column : Nat := 1
  deriving DecidableEq, Repr, Inhabited

namespace Position

/-- The position past one character: a line feed starts the next line. -/
def step (p : Position) (c : Char) : Position :=
  if c = '\n' then ⟨p.offset + 1, p.line + 1, 1⟩ else ⟨p.offset + 1, p.line, p.column + 1⟩

/-- The position past a text that starts at `p`. -/
def advance (p : Position) (text : List Char) : Position := text.foldl step p

/-- The position as messages show it. -/
def describe (p : Position) : String := s!"line {p.line}, column {p.column}"

@[simp] theorem advance_nil (p : Position) : p.advance [] = p := rfl

@[simp] theorem advance_cons (p : Position) (c : Char) (cs : List Char) :
    p.advance (c :: cs) = (p.step c).advance cs := rfl

@[simp] theorem advance_append (p : Position) (cs ds : List Char) :
    p.advance (cs ++ ds) = (p.advance cs).advance ds := List.foldl_append

@[simp] theorem offset_step (p : Position) (c : Char) : (p.step c).offset = p.offset + 1 := by
  unfold step; split <;> rfl

theorem offset_advance (p : Position) (cs : List Char) :
    (p.advance cs).offset = p.offset + cs.length := by
  induction cs generalizing p with
  | nil => rfl
  | cons c cs ih => simp [ih]; omega

end Position

end HeaderReflection
