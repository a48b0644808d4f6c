/-!
# Indented text

A printer holds the text so far and the depth at which the next line starts. The depth is raised
for a block of lines and lowered again after it, whatever the block prints.
-/

namespace HeaderReflection

/-- Text that is written line by line. -/
structure Printer where
  /-- The number of blocks around the next line. -/
  depth : Nat := 0
  /-- The text so far. -/
  out : String := ""
  deriving DecidableEq, Repr, Inhabited

namespace Printer

/-- Four blanks for each block around a line. -/
def indentation (depth : Nat) : String := String.ofList (List.replicate (4 * depth) ' ')

/-- Writes a line; an empty line has no indentation. -/
def line (text : String) (p : Printer) : Printer :=
  { p with out := p.out ++ (if text = "" then "" else indentation p.depth ++ text) ++ "\n" }

/-- Writes several lines at one depth. -/
def lines (texts : List String) (p : Printer) : Printer := texts.foldl (fun p text => p.line text) p

/-- Writes a block one level deeper than what surrounds it. -/
def block (body : Printer → Printer) (p : Printer) : Printer :=
  let inner := body { p with depth := p.depth + 1 }
  { inner with depth := inner.depth - 1 }

end Printer

/-! ## Scripts -/

/-- Something to print: a line, or a block of such things one level deeper. -/
inductive Script
  | line (text : String)
  | block (body : List Script)
  deriving Repr, Inhabited

namespace Script

mutual

/-- Prints an item. The depths are those of the printer after each item, inner items first. -/
def print (p : Printer) : Script → Printer × List Nat
  | line text => (p.line text, [p.depth])
  | block body =>
    let inner := printAll { p with depth := p.depth + 1 } body
    let after := { inner.1 with depth := inner.1.depth - 1 }
    (after, inner.2 ++ [after.depth])

/-- Prints items one after the other. -/
def printAll (p : Printer) : List Script → Printer × List Nat
  | [] => (p, [])
  | item :: items =>
    let first := item.print p
    let more := printAll first.1 items
    (more.1, first.2 ++ more.2)

end

end Script

end HeaderReflection
