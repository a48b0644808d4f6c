import HeaderReflection.Proofs.Printer.TextOfLines
import Mathlib.Logic.Relation

/-!
# Scopes of indentation

A script is printed item by item, with a guard for every block that is open: the guard is taken
where the block is entered and given back where it is left. A block may be left early, with items to
go; printing then goes on after the block, or leaves the block around it as well. `Printing` is a
script on its way, and its steps allow all of this.

In every state the depth is the one at the start and one more for each open block, and the text has
a line for each line item that has been printed (`Printing.sound_of_steps`). To print a script is to
take these steps and leave no block early (`Printing.steps_printAll`).
-/

namespace HeaderReflection

namespace Printer

/-- Takes a guard: the lines that follow are one level deeper. -/
def enter (p : Printer) : Printer := { p with depth := p.depth + 1 }

/-- Gives a guard back. The depth is lowered whatever it is. -/
def leave (p : Printer) : Printer := { p with depth := p.depth - 1 }

end Printer

/-! ## Items in the order in which they end -/

namespace Script

/-- A block is printed between taking its guard and giving it back. -/
theorem print_block (p : Printer) (body : List Script) :
    print p (.block body) =
      ((printAll p.enter body).1.leave,
        (printAll p.enter body).2 ++ [(printAll p.enter body).1.leave.depth]) := rfl

/-- An item whose printing has come to its end. -/
structure Visit where
  /-- The number of blocks around it. -/
  around : Nat
  /-- The text of a line. A block has none. -/
  text? : Option String
  deriving DecidableEq, Repr

mutual

/-- An item and the items in it, in the order in which they end. -/
def visits (around : Nat) : Script → List Visit
  | line text => [⟨around, some text⟩]
  | block body => visitsAll (around + 1) body ++ [⟨around, none⟩]

/-- Several items and the items in them, in the order in which they end. -/
def visitsAll (around : Nat) : List Script → List Visit
  | [] => []
  | item :: items => item.visits around ++ visitsAll around items

end

/-- The lines among the items, as they stand in a text that was begun at a depth. -/
def layout (depth : Nat) (visits : List Visit) : List String :=
  visits.filterMap fun v => v.text?.map (Printer.indented (depth + v.around))

/-- What printing adds to the text. -/
def text (depth : Nat) (items : List Script) : String := (printAll ⟨depth, ""⟩ items).1.out

theorem visitsAll_append (around : Nat) (items more : List Script) :
    visitsAll around (items ++ more) = visitsAll around items ++ visitsAll around more := by
  induction items with
  | nil => rfl
  | cons item items ih =>
    rw [List.cons_append, visitsAll, visitsAll, ih, List.append_assoc]

theorem textOf_layout_append (depth : Nat) (visits more : List Visit) :
    Printer.textOf (layout depth (visits ++ more)) =
      Printer.textOf (layout depth visits) ++ Printer.textOf (layout depth more) := by
  rw [layout, List.filterMap_append, Printer.textOf_append]
  rfl

end Script

/-! ## Printing step by step -/

/-- A script on its way through a printer. -/
structure Printing where
  printer : Printer
  /-- The items to go in the innermost open block, or in the script when no block is open. -/
  items : List Script
  /-- The items to go after each open block, from the innermost block outwards. -/
  outer : List (List Script)
  /-- The items that have come to their end. -/
  visited : List Script.Visit

namespace Printing

/-- A script before its first item. -/
def start (p : Printer) (script : List Script) : Printing := ⟨p, script, [], []⟩

/-- What may happen next. -/
inductive Step : Printing → Printing → Prop
  | line {p : Printer} {text : String} {items : List Script} {outer : List (List Script)}
      {visited : List Script.Visit} :
      Step ⟨p, .line text :: items, outer, visited⟩
        ⟨p.line text, items, outer, visited ++ [⟨outer.length, some text⟩]⟩
  | enter {p : Printer} {body items : List Script} {outer : List (List Script)}
      {visited : List Script.Visit} :
      Step ⟨p, .block body :: items, outer, visited⟩ ⟨p.enter, body, items :: outer, visited⟩
  /-- The innermost block is left, early if it has items to go. -/
  | leave {p : Printer} {items after : List Script} {outer : List (List Script)}
      {visited : List Script.Visit} :
      Step ⟨p, items, after :: outer, visited⟩
        ⟨p.leave, after, outer, visited ++ [⟨outer.length, none⟩]⟩

/-- Any number of steps. -/
abbrev Steps : Printing → Printing → Prop := Relation.ReflTransGen Step

/-- The items to go, in the order in which they end when no block is left early. -/
def pending : List Script → List (List Script) → List Script.Visit
  | items, [] => Script.visitsAll 0 items
  | items, after :: outer =>
    Script.visitsAll (outer.length + 1) items ++ ⟨outer.length, none⟩ :: pending after outer

theorem pending_cons (item : Script) (items : List Script) (outer : List (List Script)) :
    pending (item :: items) outer = item.visits outer.length ++ pending items outer := by
  cases outer with
  | nil => rfl
  | cons after outer => exact List.append_assoc _ _ _

/-- What holds at every moment of a printing that was started with a printer and a script. -/
structure Sound (p : Printer) (script : List Script) (s : Printing) : Prop where
  /-- Every open block holds one guard. -/
  depth : s.printer.depth = p.depth + s.outer.length
  out : s.printer.out = p.out ++ Printer.textOf (Script.layout p.depth s.visited)
  /-- Nothing is printed twice or out of order. -/
  order : (s.visited ++ pending s.items s.outer).Sublist (Script.visitsAll 0 script)

variable {p : Printer} {script : List Script} {s t : Printing}

theorem sound_start (p : Printer) (script : List Script) : Sound p script (start p script) where
  depth := rfl
  out := String.append_empty.symm
  order := List.Sublist.refl _

/-- A step keeps the depth and the text in line with the open blocks and the printed items. -/
theorem Sound.step (hs : Sound p script s) (h : Step s t) : Sound p script t := by
  cases h with
  | @line q text items outer visited =>
    have hdepth : q.depth = p.depth + outer.length := hs.depth
    have hline : (q.line text).out = q.out ++ Printer.textOf [Printer.indented q.depth text] :=
      congrArg Printer.out (Printer.Prints.line text q)
    refine ⟨hdepth, ?_, ?_⟩
    · rw [hline, hs.out, hdepth, Script.textOf_layout_append, ← String.append_assoc]
      rfl
    · have horder := hs.order
      rw [pending_cons, ← List.append_assoc] at horder
      exact horder
  | @enter q body items outer visited =>
    refine ⟨congrArg (· + 1) hs.depth, hs.out, ?_⟩
    have horder := hs.order
    rw [pending_cons, Script.visits, List.append_assoc] at horder
    exact horder
  | @leave q items after outer visited =>
    have hdepth : q.depth = p.depth + (outer.length + 1) := hs.depth
    have hblock : Printer.textOf (Script.layout p.depth [⟨outer.length, none⟩]) = "" := rfl
    refine ⟨?_, ?_, ?_⟩
    · rw [Printer.leave, hdepth]
      rfl
    · rw [Script.textOf_layout_append, hblock, String.append_empty]
      exact hs.out
    · -- What the block still had to go is left out, and the block itself is next.
      rw [List.append_assoc]
      exact ((List.sublist_append_right _ _).append_left visited).trans hs.order

/-- **At every moment the depth is what the open blocks make of it.** -/
theorem sound_of_steps (h : Steps (start p script) s) : Sound p script s := by
  induction h with
  | refl => exact sound_start p script
  | tail _ hstep ih => exact ih.step hstep

/-! ## Printing without early ends -/

mutual

theorem steps_print (p : Printer) (more : List Script) (outer : List (List Script))
    (visited : List Script.Visit) : (item : Script) →
      Steps ⟨p, item :: more, outer, visited⟩
        ⟨(item.print p).1, more, outer, visited ++ item.visits outer.length⟩
  | .line _ => .single .line
  | .block body => by
    have hbody := steps_printAll p.enter [] (more :: outer) visited body
    rw [List.append_nil] at hbody
    rw [Script.print_block, Script.visits, ← List.append_assoc]
    exact .head .enter (.tail hbody .leave)

theorem steps_printAll (p : Printer) (more : List Script) (outer : List (List Script))
    (visited : List Script.Visit) : (items : List Script) →
      Steps ⟨p, items ++ more, outer, visited⟩
        ⟨(Script.printAll p items).1, more, outer,
          visited ++ Script.visitsAll outer.length items⟩
  | [] => by
    rw [Script.visitsAll, List.append_nil]
    exact .refl
  | item :: items => by
    have hitem := steps_print p (items ++ more) outer visited item
    have hitems := steps_printAll (item.print p).1 more outer
      (visited ++ item.visits outer.length) items
    rw [List.append_assoc] at hitems
    exact hitem.trans hitems

end

/-- A script is printed by steps that leave no block early. -/
theorem steps_of_printAll (p : Printer) (script : List Script) :
    Steps (start p script) ⟨(Script.printAll p script).1, [], [], Script.visitsAll 0 script⟩ := by
  have hsteps := steps_printAll p [] [] [] script
  rwa [List.append_nil] at hsteps

end Printing

namespace Script

theorem printAll_fst (p : Printer) (script : List Script) :
    (printAll p script).1 =
      ⟨p.depth, p.out ++ Printer.textOf (layout p.depth (visitsAll 0 script))⟩ := by
  have hsound := Printing.sound_of_steps (Printing.steps_of_printAll p script)
  rw [Printer.mk.injEq]
  exact ⟨hsound.depth, hsound.out⟩

theorem text_eq (depth : Nat) (script : List Script) :
    text depth script = Printer.textOf (layout depth (visitsAll 0 script)) := by
  rw [text, printAll_fst]
  exact String.empty_append

theorem depth_print (p : Printer) (item : Script) : (item.print p).1.depth = p.depth := by
  show (printAll p [item]).1.depth = p.depth
  rw [printAll_fst]

mutual

theorem depths_print (depth around : Nat) (p : Printer) (hp : p.depth = depth + around) :
    (item : Script) → (item.print p).2 = (item.visits around).map fun v => depth + v.around
  | .line _ => by rw [print, hp]; rfl
  | .block body => by
    have hbody := depths_printAll depth (around + 1) p.enter (congrArg (· + 1) hp) body
    have hafter : (printAll p.enter body).1.leave.depth = depth + around := by
      rw [printAll_fst, ← hp]
      rfl
    rw [print_block, hafter, hbody, visits, List.map_append, List.map_singleton]

theorem depths_printAll (depth around : Nat) (p : Printer) (hp : p.depth = depth + around) :
    (items : List Script) →
      (printAll p items).2 = (visitsAll around items).map fun v => depth + v.around
  | [] => rfl
  | item :: items => by
    have hitem := depths_print depth around p hp item
    have hitems := depths_printAll depth around (item.print p).1
      ((depth_print p item).trans hp) items
    rw [printAll, visitsAll, List.map_append, hitem, hitems]

end

/-- **Scopes are balanced and local.** Whichever blocks are left early, at every moment the depth is
the one at the start and one more for each open block, so a guard that is given back never lowers a
depth of zero, and the text has a line for each line item printed so far, in order. A script that is
printed to its end leaves the depth as it was; after an item the depth counts the blocks around it;
and one script after another adds the two texts. -/
theorem scopes_balanced (p : Printer) (script : List Script) :
    (∀ s, Printing.Steps (.start p script) s →
      s.printer.depth = p.depth + s.outer.length ∧ (s.outer ≠ [] → 0 < s.printer.depth) ∧
      s.printer.out = p.out ++ Printer.textOf (layout p.depth s.visited) ∧
      s.visited.Sublist (visitsAll 0 script)) ∧
    Printing.Steps (.start p script)
      ⟨(printAll p script).1, [], [], visitsAll 0 script⟩ ∧
    printAll p script =
      (⟨p.depth, p.out ++ Printer.textOf (layout p.depth (visitsAll 0 script))⟩,
        (visitsAll 0 script).map fun v => p.depth + v.around) ∧
    ∀ more, text p.depth (script ++ more) = text p.depth script ++ text p.depth more := by
  refine ⟨?_, Printing.steps_of_printAll p script, ?_, ?_⟩
  · intro s hsteps
    obtain ⟨hdepth, hout, horder⟩ := Printing.sound_of_steps hsteps
    refine ⟨hdepth, ?_, hout, (List.sublist_append_left _ _).trans horder⟩
    intro hopen
    have hpos := List.length_pos_iff.2 hopen
    omega
  · exact Prod.ext (printAll_fst p script) (depths_printAll p.depth 0 p rfl script)
  · intro more
    rw [text_eq, text_eq, text_eq, visitsAll_append, textOf_layout_append]

/-- A block is left early, and the block around it with it. -/
theorem scopes_balanced_early :
    let script : List Script := [.line "a", .block [.line "", .block [.line "b", .line "missing"],
      .line "missing"], .line "c"]
    let p : Printer := ⟨1, "before\n"⟩
    ∃ s, Printing.Steps (.start p script) s ∧
      s.printer = ⟨1, "before\n    a\n\n            b\n    c\n"⟩ ∧ s.items = [] ∧
      s.printer.depth = p.depth + s.outer.length ∧ (s.outer ≠ [] → 0 < s.printer.depth) ∧
      s.printer.out = p.out ++ Printer.textOf (layout p.depth s.visited) ∧
      s.visited.Sublist (visitsAll 0 script) := by
  intro script p
  have hsteps : Printing.Steps (.start p script) ⟨_, [], [], _⟩ :=
    .head .line (.head .enter (.head .line (.head .enter (.head .line (.head .leave
      (.head .leave (.single .line)))))))
  exact ⟨_, hsteps, by decide +kernel, rfl, (scopes_balanced p script).1 _ hsteps⟩

end Script

end HeaderReflection
